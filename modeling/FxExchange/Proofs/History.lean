import FxExchange.Proofs.Invariant

/-
# The history of the books

What has been committed, by whom, and in which order: the database is the posting of the
committed journals, each of which is what its request has booked.
-/

namespace FxExchange

open DoubleEntry

variable {cfg : Config} {s s' s₁ : Sys} {t : Tid} {e : Event}

/-! ## What a request remembers -/

section Local

variable {l : Local} {seq : ℕ}

@[simp] lemma Local.afterError_booked {c : Cmd} :
    (l.afterError c).trail.booked = l.trail.booked := by
  cases c <;> (try rename_i c; cases c) <;> rfl

@[simp] lemma Local.afterError_rejected {c : Cmd} :
    (l.afterError c).trail.rejected = l.trail.rejected := by
  cases c <;> (try rename_i c; cases c) <;> rfl

@[simp] lemma Local.afterError_found {c : Cmd} :
    (l.afterError c).trail.found = l.trail.found := by
  cases c <;> (try rename_i c; cases c) <;> rfl

/-- Only a commit books. -/
lemma Local.after_booked {c : Cmd} (hc : c ≠ .commit) {r : Except Exn c.Ret} :
    (l.after seq c r).trail.booked = l.trail.booked := by
  cases c <;> (try rename_i c; cases c) <;> cases r <;> first | rfl | exact absurd rfl hc

/-- Only an order that is saved outside the transactions is a rejected one. -/
lemma Local.after_rejected {c : Cmd} {r : Except Exn c.Ret}
    (hc : ∀ o, c ≠ .pool (.saveOrder o)) :
    (l.after seq c r).trail.rejected = l.trail.rejected := by
  cases c <;> (try rename_i c; cases c) <;> cases r <;> first | rfl | exact absurd rfl (hc _)

/-- The outcome of the request is in the database. -/
def Local.Settled (l : Local) : Prop := l.trail.booked ≠ none ∨ l.trail.rejected ≠ none

lemma Local.not_settled (hbooked : l.trail.booked = none) (hrejected : l.trail.rejected = none) :
    ¬ l.Settled := by
  rintro (h | h)
  · exact h hbooked
  · exact h hrejected

/-- The quote in hand changes only before the request is settled. -/
lemma Local.after_hand {c : Cmd} (hguard : guard cfg l c) (hsettled : l.Settled)
    {r : Except Exn c.Ret} : (l.after seq c r).trail.hand = l.trail.hand := by
  cases c with
  | redis c =>
    cases c with
    | getdel q =>
      obtain ⟨-, -, -, -, hbooked, hrejected⟩ := hguard
      exact absurd hsettled (not_settled hbooked hrejected)
    | get q =>
      obtain ⟨-, -, -, -, hbooked, hrejected⟩ := hguard
      exact absurd hsettled (not_settled hbooked hrejected)
    | set q quote ex =>
      obtain ⟨-, -, hbooked, hrejected, -⟩ := hguard
      exact absurd hsettled (not_settled hbooked hrejected)
    | _ => cases r <;> rfl
  | pool c => cases r <;> cases c <;> rfl
  | _ => cases r <;> rfl

/-- A request that is settled starts no further transaction. -/
lemma Local.after_tx {c : Cmd} (hguard : guard cfg l c) (hsettled : l.Settled)
    (htx : l.tx = none) {r : Except Exn c.Ret} : (l.after seq c r).tx = none := by
  cases c with
  | startTransaction =>
    obtain ⟨-, hbooked, hrejected, -⟩ := hguard
    exact absurd hsettled (not_settled hbooked hrejected)
  | pool c => rw [after_pool_tx, htx]
  | redis c => rw [after_redis_tx, htx]
  | tx c => cases r <;> simp [after, afterOk, afterError, htx]
  | _ => cases r <;> first | rfl | exact htx

/-- What a request remembers of its look-ups is what it has found. -/
lemma Local.after_found {c : Cmd} {r : Except Exn c.Ret} {j : JournalEntry}
    (h : (l.after seq c r).trail.found = some j) (hguard : guard cfg l c)
    (hserved : s.Served t l.tx c s₁ r) :
    l.trail.found = some j ∨
      j ∈ s.db.journals ∧ j.userId = l.req.userId ∧ l.req.key = some j.idempotencyKey := by
  cases hserved with
  | pool c =>
    cases c with
    | findByIdempotencyKey u k =>
      obtain ⟨hmem, hu, hk⟩ := Database.of_find_eq_some h
      exact Or.inr ⟨hmem, hu.trans hguard.1, hguard.2.1.trans (congrArg some hk.symm)⟩
    | saveWallet u => exact Or.inl (by cases hr : (execPool s.db s.seq (.saveWallet u)).2 <;>
        rw [hr] at h <;> exact h)
    | saveOrder o => exact Or.inl (by cases hr : (execPool s.db s.seq (.saveOrder o)).2 <;>
        rw [hr] at h <;> exact h)
    | _ => exact Or.inl h
  | @statement c x locks r htx hexec => cases r <;> exact Or.inl h
  | @redis c redis r hexec => cases r <;> cases c <;> exact Or.inl h
  | rollback r => cases r <;> exact Or.inl h
  | failed c e _ _ _ _ => exact Or.inl (Local.afterError_found.symm.trans h)
  | _ => exact Or.inl h

end Local

/-! ## Commits -/

/-- The legs that a transaction posts. -/
def Tx.legs (tx : Tx) : List (Leg Account) :=
  (tx.journals.flatMap JournalEntry.legs).map LedgerEntryInput.leg

lemma Books.legs_eq {req : Request} {hand : Option Quote} {tx : Tx} {j : JournalEntry}
    (h : Books req hand tx j) : tx.legs = j.legs.map LedgerEntryInput.leg := by
  simp [Tx.legs, h.journals]

/-- A command that is answered is a commit of what its request has booked, or it changes
nothing in the books. -/
inductive Booking (s : Sys) (t : Tid) (l l' : Local) (s₁ : Sys) : Prop
  | commit {tx : Tx} {j : JournalEntry} (htx : l.tx = some tx)
      (hbooks : Books l.req l.trail.hand tx j) (hdb : s₁.db = s.db.apply tx)
      (hcommits : s₁.commits = s.commits ++ [(t, tx)]) (hl' : l' = l.committed tx) :
      Booking s t l l' s₁
  | none (hrows : s₁.db.rows = s.db.rows) (hamount : s₁.db.amount = s.db.amount)
      (hjournals : s₁.db.journals = s.db.journals) (hcommits : s₁.commits = s.commits)
      (hbooked : l'.trail.booked = l.trail.booked)
      (hhand : l.Settled → l'.trail.hand = l.trail.hand) : Booking s t l l' s₁

lemma Inv.booking (h : Inv cfg s) {l : Local} {c : Cmd}
    {k : Except Exn c.Ret → Service Response} {r : Except Exn c.Ret}
    (hth : s.threads t = some ⟨l, .call c k, true⟩) (hserved : s.Served t l.tx c s₁ r) :
    Booking s t l (l.after s.seq c r) s₁ := by
  have hguard := h.guard hth
  have hhand : l.Settled → (l.after s.seq c r).trail.hand = l.trail.hand :=
    fun hsettled => Local.after_hand hguard hsettled
  cases hserved with
  | pool c =>
    obtain ⟨hrows, hamount, hjournals⟩ := execPool_frame s.db s.seq c
    exact .none hrows hamount hjournals rfl (Local.after_booked (by simp)) hhand
  | commit htx haborted =>
    obtain ⟨tx, j, htx', hbooks⟩ := hguard
    obtain rfl := Option.some.inj (htx.symm.trans htx')
    refine .commit htx hbooks rfl rfl ?_
    simp [Local.after, Local.afterOk, Local.committed, Option.filter, htx, haborted]
  | commitAborted htx haborted =>
    obtain ⟨tx, j, htx', hbooks⟩ := hguard
    obtain rfl := Option.some.inj (htx.symm.trans htx')
    exact absurd hbooks.aborted (by simp [haborted])
  | commitFailed => exact .none rfl rfl rfl rfl rfl hhand
  | failed c e _ _ _ _ =>
    exact .none rfl rfl rfl rfl Local.afterError_booked hhand
  | _ => exact .none rfl rfl rfl rfl (Local.after_booked (by simp)) hhand

/-! ## The invariant -/

/-- The database is what the commits have made of it, each booked by its thread. -/
structure History (s : Sys) : Prop where
  posted : Posted Database.opening (s.commits.map fun c => c.2.legs) s.db.amount
  journals : s.db.journals = s.commits.flatMap fun c => c.2.journals
  /-- Every commit was booked by its thread. -/
  booked : ∀ c ∈ s.commits, ∃ th j, s.threads c.1 = some th ∧
    th.state.trail.booked = some c.2 ∧ Books th.state.req th.state.trail.hand c.2 j
  /-- Every thread that has booked is done with transactions. -/
  closed : ∀ t th tx, s.threads t = some th → th.state.trail.booked = some tx →
    th.state.tx = none ∧ (t, tx) ∈ s.commits
  nodup : (s.commits.map Prod.fst).Nodup
  found : ∀ t th j, s.threads t = some th → th.state.trail.found = some j →
    j ∈ s.db.journals ∧ j.userId = th.state.req.userId ∧
      th.state.req.key = some j.idempotencyKey

lemma history_initial : History Sys.initial where
  posted := Posted.nil
  journals := rfl
  booked := by simp [Sys.initial]
  closed := by simp [Sys.initial]
  nodup := by simp [Sys.initial]
  found := by simp [Sys.initial]

/-- A thread with an open transaction has booked nothing. -/
lemma History.booked_eq_none (h : History s) {th : Thread} (hth : s.threads t = some th) {tx : Tx}
    (htx : th.state.tx = some tx) : th.state.trail.booked = none := by
  by_contra hne
  obtain ⟨tx', hbooked⟩ := Option.ne_none_iff_exists'.mp hne
  have hclosed := (h.closed t th tx' hth hbooked).1
  rw [htx] at hclosed
  cases hclosed

/-- A thread that books nothing has moved. -/
lemma History.setThread (h : History s) (s₁ : Sys) (hthreads : s₁.threads = s.threads)
    (hamount : s₁.db.amount = s.db.amount) (hjournals : s₁.db.journals = s.db.journals)
    (hcommits : s₁.commits = s.commits) {th : Thread}
    (hkept : ∀ th₀ tx, s.threads t = some th₀ → th₀.state.trail.booked = some tx →
      th.state.trail.booked = some tx ∧ th.state.req = th₀.state.req ∧
        th.state.trail.hand = th₀.state.trail.hand)
    (hclosed : ∀ tx, th.state.trail.booked = some tx → th.state.tx = none ∧
      (t, tx) ∈ s.commits)
    (hfound : ∀ j, th.state.trail.found = some j → j ∈ s.db.journals ∧
      j.userId = th.state.req.userId ∧ th.state.req.key = some j.idempotencyKey) :
    History (s₁.setThread t th) where
  posted := by
    show Posted Database.opening (s₁.commits.map _) s₁.db.amount
    rw [hcommits, hamount]
    exact h.posted
  journals := by
    show s₁.db.journals = s₁.commits.flatMap _
    rw [hcommits, hjournals, h.journals]
  booked c hc := by
    change c ∈ s₁.commits at hc
    rw [hcommits] at hc
    obtain ⟨th₀, j, hth₀, hbooked, hbooks⟩ := h.booked c hc
    rcases eq_or_ne c.1 t with rfl | hne
    · obtain ⟨hbooked', hreq, hhand⟩ := hkept th₀ c.2 hth₀ hbooked
      exact ⟨th, j, Sys.setThread_self th, hbooked', hreq ▸ hhand ▸ hbooks⟩
    · exact ⟨th₀, j, by rw [Sys.setThread_of_ne hne, hthreads]; exact hth₀, hbooked, hbooks⟩
  closed t' th' tx hth' hbooked := by
    show _ ∧ _ ∈ s₁.commits
    rw [hcommits]
    rcases Sys.of_setThread hth' with ⟨rfl, rfl⟩ | ⟨-, hold⟩
    · exact hclosed tx hbooked
    · exact h.closed t' th' tx (hthreads ▸ hold) hbooked
  nodup := by
    show (s₁.commits.map _).Nodup
    rw [hcommits]
    exact h.nodup
  found t' th' j hth' hj := by
    show _ ∈ s₁.db.journals ∧ _
    rw [hjournals]
    rcases Sys.of_setThread hth' with ⟨rfl, rfl⟩ | ⟨-, hold⟩
    · exact hfound j hj
    · exact h.found t' th' j (hthreads ▸ hold) hj

/-- A thread that books has moved. -/
lemma History.commit (h : History s) (hinv : Inv cfg s) {l : Local} {prog : Service Response}
    {tx : Tx} {j : JournalEntry} {th : Thread} (hth : s.threads t = some ⟨l, prog, true⟩)
    (htx : l.tx = some tx) (hbooks : Books l.req l.trail.hand tx j) (s₁ : Sys)
    (hthreads : s₁.threads = s.threads) (hdb : s₁.db = s.db.apply tx)
    (hcommits : s₁.commits = s.commits ++ [(t, tx)]) (hstate : th.state = l.committed tx) :
    History (s₁.setThread t th) := by
  have htxOf : s.txOf t = some tx := (Sys.txOf_eq hth).trans htx
  -- a thread with an open transaction has booked nothing yet
  have hnew : ∀ c ∈ s.commits, c.1 ≠ t := by
    rintro c hc rfl
    obtain ⟨th₀, _, hth₀, hbooked, -⟩ := h.booked c hc
    obtain rfl := Option.some.inj (hth.symm.trans hth₀)
    rw [h.booked_eq_none hth htx] at hbooked
    cases hbooked
  have hmono : ∀ j' ∈ s.db.journals, j' ∈ s₁.db.journals := by
    rw [hdb]
    exact fun j' => List.mem_append_left _
  refine ⟨?_, ?_, ?_, ?_, ?_, ?_⟩
  · show Posted Database.opening (s₁.commits.map _) s₁.db.amount
    rw [hcommits, hdb, List.map_append, List.map_singleton,
      hinv.ledger.apply_amount htxOf hbooks, ← hbooks.legs_eq]
    refine h.posted.snoc ?_
    rw [hbooks.legs_eq]
    exact hinv.ledger.fits htxOf hbooks
  · show s₁.db.journals = s₁.commits.flatMap _
    rw [hcommits, hdb, List.flatMap_append, ← h.journals]
    simp [Database.apply]
  · intro c hc
    change c ∈ s₁.commits at hc
    rw [hcommits, List.mem_append, List.mem_singleton] at hc
    rcases hc with hc | rfl
    · obtain ⟨th₀, j₀, hth₀, hrest⟩ := h.booked c hc
      exact ⟨th₀, j₀, by rw [Sys.setThread_of_ne (hnew c hc), hthreads]; exact hth₀, hrest⟩
    · exact ⟨th, j, Sys.setThread_self th, by rw [hstate]; rfl, by rw [hstate]; exact hbooks⟩
  · intro t' th' tx' hth' hbooked
    show _ ∧ _ ∈ s₁.commits
    rw [hcommits]
    rcases Sys.of_setThread hth' with ⟨rfl, rfl⟩ | ⟨-, hold⟩
    · rw [hstate] at hbooked ⊢
      obtain rfl := Option.some.inj hbooked
      exact ⟨rfl, by simp⟩
    · obtain ⟨htx', hmem⟩ := h.closed t' th' tx' (hthreads ▸ hold) hbooked
      exact ⟨htx', List.mem_append_left _ hmem⟩
  · show (s₁.commits.map _).Nodup
    rw [hcommits, List.map_append, List.map_singleton]
    refine List.nodup_append.mpr ⟨h.nodup, by simp, ?_⟩
    rintro _ hmem _ hmem' rfl
    obtain ⟨c, hc, rfl⟩ := List.mem_map.mp hmem
    exact hnew c hc (List.mem_singleton.mp hmem')
  · intro t' th' j' hth' hj
    show _ ∈ s₁.db.journals ∧ _
    rcases Sys.of_setThread hth' with ⟨rfl, rfl⟩ | ⟨-, hold⟩
    · rw [hstate] at hj ⊢
      exact (h.found _ _ _ hth hj).imp_left (hmono _)
    · exact (h.found t' th' j' (hthreads ▸ hold) hj).imp_left (hmono _)

/-- Every step keeps the history. -/
theorem History.step (h : History s) (hinv : Inv cfg s) (hstep : s.step cfg e = some s') :
    History s' := by
  cases Sys.step_of_eq hstep with
  | spawn req =>
    refine h.setThread s rfl rfl rfl rfl (fun th₀ tx hth₀ => ?_) (by simp) (by simp)
    rw [hinv.fresh s.seq le_rfl] at hth₀
    cases hth₀
  | @run t choice l c k s₁ r hth hrespond =>
    have hserved := Sys.served_of_eq hrespond
    have hthreads := hserved.frame.1
    cases hinv.booking hth hserved with
    | commit htx hbooks hdb hcommits hl' =>
      exact h.commit hinv hth htx hbooks s₁ hthreads hdb hcommits hl'
    | none hrows hamount hjournals hcommits hbooked hhand =>
      refine h.setThread s₁ hthreads hamount hjournals hcommits (fun th₀ tx hth₀ htx => ?_)
        (fun tx htx => ?_) fun j hj => ?_
      · obtain rfl := Option.some.inj (hth.symm.trans hth₀)
        have hsome : l.trail.booked = some tx := htx
        exact ⟨hbooked.trans htx, Local.after_req, hhand (Or.inl (by simp [hsome]))⟩
      · rw [hbooked] at htx
        obtain ⟨hclosed, hmem⟩ := h.closed t _ tx hth htx
        exact ⟨Local.after_tx (hinv.guard hth) (Or.inl (by simp [htx])) hclosed, hmem⟩
      · rw [Local.after_req]
        rcases Local.after_found hj (hinv.guard hth) hserved with hj | hj
        · exact h.found t _ j hth hj
        · exact hj
  | @crash t l c k hth =>
    refine h.setThread { s with locks := s.locks.releaseAll t } rfl rfl rfl rfl
      (fun th₀ tx hth₀ htx => ?_) (fun tx htx => ?_)
      fun j hj => h.found t ⟨l, .call c k, true⟩ j hth hj
    · obtain rfl := Option.some.inj (hth.symm.trans hth₀)
      exact ⟨htx, rfl, rfl⟩
    · exact ⟨rfl, (h.closed t _ tx hth htx).2⟩
  | tick ms => exact ⟨h.posted, h.journals, h.booked, h.closed, h.nodup, h.found⟩

theorem history_of_reachable (h : Reachable cfg s) : History s :=
  h.invariant history_initial fun _ _ _ hrun hhist _ hstep =>
    hhist.step (inv_of_reachable hrun) hstep

/-! ## Journals of the threads -/

/-- The request has written a journal with the id. -/
def Local.Writes (l : Local) (id : Uuid) : Prop :=
  ∃ tx, (l.tx = some tx ∨ l.trail.booked = some tx) ∧ ∃ j ∈ tx.journals, j.id = id

/-- Only the insertion of a journal writes one, under a new id. -/
lemma Tx.after_journals {db : Database} {locks locks' : Locks} {seq : ℕ} {tx : Tx} {c : TxCmd}
    {r : Except Exn c.Ret} (hexec : execTx db locks t seq tx c = some (locks', r))
    {j : JournalEntry} (hj : j ∈ (tx.after seq c r).journals) :
    (∃ j' ∈ tx.journals, j'.id = j.id) ∨ j.id = seq ∧ ∃ data, c = .insertJournal data := by
  have hold (h : j ∈ tx.journals) : (∃ j' ∈ tx.journals, j'.id = j.id) ∨
      j.id = seq ∧ ∃ data, c = .insertJournal data := Or.inl ⟨j, h, rfl⟩
  cases r with
  | error e => exact hold hj
  | ok a =>
    cases c with
    | insertJournal data =>
      rcases List.mem_append.mp hj with hj | hj
      · exact hold hj
      · rw [List.mem_singleton.mp hj]
        simp only [execTx] at hexec
        split at hexec
        · cases hexec
        split at hexec
        · cases hexec
        split at hexec
        · cases hexec
        · cases hexec
          exact Or.inr ⟨rfl, data, rfl⟩
    | insertEntries id entries =>
      obtain ⟨j', hj', rfl⟩ := List.mem_map.mp hj
      exact Or.inl ⟨j', hj', by split <;> rfl⟩
    | selectForUpdate b =>
      cases a with
      | none => exact hold hj
      | some v =>
        simp only [after, afterOk, lockRow] at hj
        split at hj <;> exact hold hj
    | insertBalance b =>
      simp only [after, afterOk, lockRow] at hj
      split at hj <;> exact hold hj
    | _ => exact hold hj

/-- Where a transaction of a request comes from: it was there before, it was started or aborted,
or it has carried out a statement. -/
inductive TxOrigin (s : Sys) (t : Tid) (l : Local) (c : Cmd) : Tx → Prop
  | old {tx : Tx} (h : l.tx = some tx ∨ l.trail.booked = some tx) : TxOrigin s t l c tx
  | start (time : ℕ) : TxOrigin s t l c { startedAt := time }
  | abort {tx : Tx} (h : l.tx = some tx) : TxOrigin s t l c { tx with aborted := true }
  | statement {tx : Tx} {d : TxCmd} {locks : Locks} {r : Except Exn d.Ret} (h : l.tx = some tx)
      (hc : c = .tx d) (hexec : execTx s.db s.locks t s.seq tx d = some (locks, r)) :
      TxOrigin s t l c (tx.after s.seq d r)

lemma Sys.Served.txOrigin {l : Local} {c : Cmd} {r : Except Exn c.Ret}
    (hserved : s.Served t l.tx c s₁ r) {tx : Tx} (h : (l.after s.seq c r).tx = some tx ∨
      (l.after s.seq c r).trail.booked = some tx) : TxOrigin s t l c tx := by
  have hkeep (htx : (l.after s.seq c r).tx = l.tx ∨ (l.after s.seq c r).tx = none)
      (hbooked : (l.after s.seq c r).trail.booked = l.trail.booked) : TxOrigin s t l c tx := by
    rcases h with h | h
    · rcases htx with htx | htx
      · exact .old (Or.inl (htx.symm.trans h))
      · rw [htx] at h
        cases h
    · exact .old (Or.inr (hbooked.symm.trans h))
  cases hserved with
  | pool c => exact hkeep (Or.inl Local.after_pool_tx) (Local.after_booked (by simp))
  | redis hexec => exact hkeep (Or.inl Local.after_redis_tx) (Local.after_booked (by simp))
  | start =>
    rcases h with h | h
    · cases h
      exact .start s.now
    · exact .old (Or.inr h)
  | @statement c x locks r htx hexec =>
    rcases h with h | h
    · have hstate : (l.after s.seq (.tx c) r).tx = some (x.after s.seq c r) := by
        cases r <;> simp [Local.after, Local.afterOk, Local.afterError, Tx.after, htx]
      obtain rfl := Option.some.inj (hstate.symm.trans h)
      exact .statement htx rfl hexec
    · exact .old (Or.inr ((Local.after_booked (by simp)).symm.trans h))
  | @commit x htx haborted =>
    rcases h with h | h
    · cases h
    · obtain rfl : x = tx := by
        simpa [Local.after, Local.afterOk, Option.filter, htx, haborted] using h
      exact .old (Or.inl htx)
  | commitAborted htx haborted =>
    rcases h with h | h
    · cases h
    · simp [Local.after, Local.afterOk, Option.filter, htx, haborted] at h
  | commitFailed => exact hkeep (Or.inr rfl) rfl
  | rollback r => cases r <;> exact hkeep (Or.inr rfl) rfl
  | rates r => exact hkeep (Or.inl rfl) rfl
  | now => exact hkeep (Or.inl rfl) rfl
  | uuid => exact hkeep (Or.inl rfl) rfl
  | failed c e hnow huuid hrollback hcommit =>
    cases c with
    | tx c =>
      rcases h with h | h
      · obtain ⟨x, hx, rfl⟩ := Option.map_eq_some_iff.mp h
        exact .abort hx
      · exact .old (Or.inr h)
    | commit => exact hkeep (Or.inr rfl) rfl
    | rollback => exact absurd rfl hrollback
    | pool c => exact hkeep (Or.inl Local.after_pool_tx) (Local.after_booked (by simp))
    | redis c => exact hkeep (Or.inl Local.after_redis_tx) (Local.after_booked (by simp))
    | _ => exact hkeep (Or.inl rfl) rfl

/-- What a request has written after a command it has written before, or it inserts it. -/
lemma Sys.Served.writes {l : Local} {c : Cmd} {r : Except Exn c.Ret}
    (hserved : s.Served t l.tx c s₁ r) {id : Uuid} (hid : (l.after s.seq c r).Writes id) :
    l.Writes id ∨ id = s.seq ∧ ∃ data, c = .tx (.insertJournal data) := by
  obtain ⟨tx, htx, j, hj, rfl⟩ := hid
  cases hserved.txOrigin htx with
  | old h => exact Or.inl ⟨tx, h, j, hj, rfl⟩
  | start time => cases hj
  | @abort x h => exact Or.inl ⟨x, Or.inl h, j, hj, rfl⟩
  | @statement x d locks r h hc hexec =>
    rcases Tx.after_journals hexec hj with hold | ⟨hid, data, hd⟩
    · exact Or.inl ⟨x, Or.inl h, hold⟩
    · exact Or.inr ⟨hid, data, hc.trans (congrArg Cmd.tx hd)⟩

/-- No id is used for two journals. -/
lemma journals_distinct (h : Reachable cfg s) : Distinct Local.Writes s := by
  refine h.invariant distinct_initial fun s e s' hrun hdistinct _ hstep => ?_
  refine hdistinct.step hstep (by simp [Local.Writes]) (fun l id hid => ?_)
    fun t choice l c k s₁ r hth hrespond id hid =>
      (Sys.served_of_eq hrespond).writes hid |>.imp_right And.left
  obtain ⟨tx, htx | htx, hj⟩ := hid
  · cases htx
  · exact ⟨tx, Or.inr htx, hj⟩

/-- A journal row is the one of its thread. -/
lemma journal_eq (h : Reachable cfg s) {t t' : Tid} {tx tx' : Tx} {j j' : JournalEntry}
    (hc : (t, tx) ∈ s.commits) (hc' : (t', tx') ∈ s.commits) (hj : tx.journals = [j])
    (hj' : tx'.journals = [j']) (hid : j.id = j'.id) : t = t' ∧ j = j' := by
  obtain ⟨th, _, hth, hbooked, -⟩ := (history_of_reachable h).booked _ hc
  obtain ⟨th', _, hth', hbooked', -⟩ := (history_of_reachable h).booked _ hc'
  obtain rfl : t = t' := (journals_distinct h).unique t t' th th' j.id hth hth'
    ⟨tx, Or.inr hbooked, j, by simp [hj], rfl⟩ ⟨tx', Or.inr hbooked', j', by simp [hj'], hid.symm⟩
  obtain rfl := Option.some.inj (hth.symm.trans hth')
  obtain rfl := Option.some.inj (hbooked.symm.trans hbooked')
  exact ⟨rfl, by simpa using hj.symm.trans hj'⟩

/-- An operation that has succeeded hands out a committed journal of its user and key. -/
lemma journal_of_answer (h : Reachable cfg s) {th : Thread} (hth : s.threads t = some th)
    {r : OperationResponse} (hanswer : th.answer = some (.ok (.operation r))) :
    r.journal ∈ s.db.journals ∧ r.journal.userId = th.state.req.userId ∧
      th.state.req.key = some r.journal.idempotencyKey := by
  have hhist := history_of_reachable h
  obtain ⟨-, -, -, ⟨tx, hbooked, hjournals⟩ | ⟨-, hfound⟩⟩ :=
    (inv_of_reachable h).answer hth hanswer
  · obtain ⟨-, hcommit⟩ := hhist.closed t th tx hth hbooked
    obtain ⟨th₀, j, hth₀, -, hbooks⟩ := hhist.booked _ hcommit
    obtain rfl := Option.some.inj (hth.symm.trans hth₀)
    obtain rfl : r.journal = j := by simpa using hjournals.symm.trans hbooks.journals
    refine ⟨?_, hbooks.userId, hbooks.key⟩
    rw [hhist.journals]
    exact List.mem_flatMap.mpr ⟨_, hcommit, by simp [hjournals]⟩
  · exact hhist.found t th _ hth hfound

end FxExchange
