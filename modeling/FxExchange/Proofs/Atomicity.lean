import FxExchange.Proofs.Audit
import FxExchange.Proofs.Commands
import FxExchange.Proofs.Relay

/-
# All or nothing

An operation that fails has left the books alone at each of its steps; what it may have left
is an empty wallet of its caller, a quote that is gone, and one rejected order.  One that
succeeds, and is not a replay, has put everything into the books in one step.
-/

namespace FxExchange

open DoubleEntry Transition

variable {cfg : Config} {s s' s₁ : Sys} {t : Tid} {e : Event}

/-- A step leaves the books alone. -/
structure SameBooks (s s' : Sys) : Prop where
  rows : s'.db.rows = s.db.rows
  amount : s'.db.amount = s.db.amount
  journals : s'.db.journals = s.db.journals
  outbox : s'.db.outbox = s.db.outbox
  commits : s'.commits = s.commits

/-- A step of a call leaves the books alone; a wallet row is new only for the caller, an
order only as the rejected one of the call, which has not left one before, and a quote is
changed only if the call redeems it. -/
structure Untouched (t : Tid) (req : Request) (s s' : Sys) : Prop extends SameBooks s s' where
  wallets : s'.db.wallets = s.db.wallets ∨
    req.userId ∉ s.db.wallets ∧ s'.db.wallets = insert req.userId s.db.wallets
  orders : s'.db.orders = s.db.orders ∨ ∃ o, s'.db.orders = s.db.orders ++ [o] ∧
    o.status = .rejected ∧ o.userId = req.userId ∧ o.journalEntryId = none ∧
    (s.trail t).rejected = none ∧ (s'.trail t).rejected = some o
  kept : ∀ o, (s.trail t).rejected = some o → (s'.trail t).rejected = some o
  quotes : ∀ q, ¬ req.Redeems q → s'.redis.quotes q = s.redis.quotes q

/-- The number of legs of the journal of an operation. -/
def Request.legCount : Request → ℕ
  | .fundWallet _ _ _ _ => 2
  | _ => 4

/-- A step puts the journal `j` into the books: all of its legs, the amounts of all the
balance rows that they are about, and its outbox row; no other balance is changed. -/
structure PutsIn (req : Request) (j : JournalEntry) (s s' : Sys) : Prop where
  journals : s'.db.journals = s.db.journals ++ [j]
  legs : j.legs.length = req.legCount
  outbox : ∃ o, s'.db.outbox = s.db.outbox ++ [o] ∧ o.Announces j
  rows : ∀ e ∈ j.legs, e.account ∈ s'.db.rows
  amount : ∀ e ∈ j.legs, s.db.amount e.account = e.balanceBefore ∧
    s'.db.amount e.account = e.balanceAfter
  others : ∀ a ∉ j.legs.map LedgerEntryInput.account, s'.db.amount a = s.db.amount a

/-- In a run to `s`, the thread `t` takes a step from `s₀` to `s₁`. -/
structure Took (cfg : Config) (t : Tid) (s s₀ s₁ : Sys) : Prop where
  reachable : Reachable cfg s₀
  step : ∃ choice, s₀.step cfg (.run t choice) = some s₁
  run : Runs cfg anyStep s₁ s

/-! ## What a command leaves -/

lemma execPool_wallets (db : Database) (seq : ℕ) (c : PoolCmd) :
    (execPool db seq c).1.wallets = db.wallets ∨ ∃ u, c = .saveWallet u ∧ u ∉ db.wallets ∧
      (execPool db seq c).1.wallets = insert u db.wallets := by
  cases c with
  | saveWallet u =>
    simp only [execPool]
    split
    · exact Or.inl rfl
    · exact Or.inr ⟨u, rfl, ‹_›, rfl⟩
  | saveOrder o =>
    simp only [execPool]
    split <;> exact Or.inl rfl
  | _ => exact Or.inl rfl

/-- Wallets are inserted for the caller only. -/
lemma wallets_run (h : Reachable cfg s) {l : Local} {c : Cmd} {choice : Choice}
    {k : Except Exn c.Ret → Service Response} {r : Except Exn c.Ret}
    (hth : s.threads t = some ⟨l, .call c k, true⟩)
    (hrespond : s.respond t l.tx c choice = some (s₁, r)) :
    s₁.db.wallets = s.db.wallets ∨
      l.req.userId ∉ s.db.wallets ∧ s₁.db.wallets = insert l.req.userId s.db.wallets := by
  have huses := uses_of_reachable h hth
  cases Sys.served_of_eq hrespond with
  | pool c =>
    rcases execPool_wallets s.db s.seq c with hsame | ⟨u, rfl, hnot, hinsert⟩
    · exact Or.inl hsame
    · obtain rfl : u = l.req.userId := huses
      exact Or.inr ⟨hnot, hinsert⟩
  | _ => exact Or.inl rfl

/-- An operation changes no quote but the one that it redeems. -/
lemma quotes_run (h : Reachable cfg s) {l : Local} {c : Cmd} {choice : Choice}
    {k : Except Exn c.Ret → Service Response} {r : Except Exn c.Ret}
    (hth : s.threads t = some ⟨l, .call c k, true⟩) (hkey : l.req.key.isSome)
    (hrespond : s.respond t l.tx c choice = some (s₁, r)) {q : QuoteId}
    (hq : ¬ l.req.Redeems q) : s₁.redis.quotes q = s.redis.quotes q := by
  have huses := uses_of_reachable h hth
  have hguard := (inv_of_reachable h).guard hth
  have hother {q' : QuoteId} (hq' : l.req.Redeems q') (x : Option (Quote × ℕ)) :
      Function.update s.redis.quotes q' x q = s.redis.quotes q :=
    Function.update_of_ne (fun heq : q = q' => hq (by rw [heq]; exact hq')) _ _
  cases Sys.served_of_eq hrespond with
  | @redis c redis r hexec =>
    cases c with
    | getdel q' =>
      cases hexec
      exact hother hguard.1 _
    | del q' =>
      cases hexec
      exact hother hguard.1 _
    | set q' quote ex =>
      cases hexec
      rcases huses with hq' | hnone
      · exact hother hq' _
      · rw [hnone] at hkey
        cases hkey
    | acquire u ttl =>
      simp only [execRedis] at hexec
      split at hexec
      · cases hexec
      · cases hexec
        rfl
    | release u =>
      simp only [execRedis] at hexec
      split at hexec <;> cases hexec <;> rfl
    | _ =>
      cases hexec
      rfl
  | _ => rfl

/-- A step of an operation is the commit of what it books, or it leaves the books alone. -/
lemma booked_or_untouched (h : Reachable cfg s) {choice : Choice}
    (hstep : s.step cfg (.run t choice) = some s') {th : Thread} (hth : s.threads t = some th)
    (hkey : th.state.req.key.isSome) :
    (∃ tx j, s'.commits = s.commits ++ [(t, tx)] ∧ s'.db = s.db.apply tx ∧
      th.state.tx = some tx ∧ Books th.state.req th.state.trail.hand tx j) ∨
      Untouched t th.state.req s s' := by
  have hinv := inv_of_reachable h
  cases Sys.step_of_eq hstep with
  | @run _ _ l c k s₁ r hth₀ hrespond =>
    obtain rfl := Option.some.inj (hth₀.symm.trans hth)
    have hwallets := wallets_run h hth₀ hrespond
    have hquotes {q : QuoteId} := quotes_run h hth₀ hkey hrespond (q := q)
    have hserved := Sys.served_of_eq hrespond
    have houtbox := Sys.step_outbox hstep
    have htrail : (s₁.setThread t ⟨l.after s.seq c r, k r, true⟩).trail t =
        (l.after s.seq c r).trail := Sys.trail_eq (Sys.setThread_self _)
    cases hinv.booking hth₀ hserved with
    | commit htx hbooks hdb hcommits hl' => exact Or.inl ⟨_, _, hcommits, hdb, htx, hbooks⟩
    | none hrows hamount hjournals hcommits hbooked hhand =>
      have hbooks : SameBooks s (s₁.setThread t ⟨l.after s.seq c r, k r, true⟩) := by
        refine ⟨hrows, hamount, hjournals, ?_, hcommits⟩
        rcases houtbox with ⟨houtbox, -⟩ | ⟨t', tx, -, hcommits'⟩
        · exact houtbox
        · have : s₁.commits = s.commits ++ [(t', tx)] := hcommits'
          rw [hcommits] at this
          simp at this
      have hbefore : s.trail t = l.trail := Sys.trail_eq hth₀
      cases hinv.orderStep hth₀ hrespond with
      | commit htx hbooks horders hcommits' hl' =>
        rw [hcommits] at hcommits'
        simp at hcommits'
      | reject hrejects hrejected horders hcommits' hl' =>
        obtain ⟨-, -, _, _, quote, reason, id, hreq, hhand, rfl⟩ := hrejects
        refine Or.inr ⟨hbooks, hwallets, Or.inr ⟨_, horders, rfl, ?_, rfl, ?_, ?_⟩, ?_,
          fun q hq => hquotes hq⟩
        · show quote.userId = l.req.userId
          rw [hreq]
          rfl
        · rw [hbefore]
          exact hrejected
        · rw [htrail, hl']
        · intro o ho
          rw [hbefore, hrejected] at ho
          cases ho
      | none horders _ _ _ hrejected =>
        refine Or.inr ⟨hbooks, hwallets, Or.inl horders, fun o ho => ?_, fun q hq => hquotes hq⟩
        rw [htrail, hrejected, ← hbefore]
        exact ho

/-- The journal of an operation has the legs of its kind. -/
lemma Carries.length {req : Request} {hand : Option Quote} {j : JournalEntry}
    (h : Carries req hand j) : j.legs.length = req.legCount := by
  have hsides {l : List Side} (hlegs : j.legs.map LedgerEntryInput.side = l) :
      j.legs.length = l.length := by rw [← hlegs, List.length_map]
  cases req with
  | fundWallet u c a k =>
    obtain ⟨_, _, -, -, -, hlegs⟩ := h
    exact hsides hlegs
  | convertFunds u f t a k ctx =>
    obtain ⟨_, _, _, _, -, -, -, -, -, hlegs⟩ := h
    exact hsides hlegs
  | executeTrade u q k =>
    obtain ⟨_, -, -, -, -, hlegs⟩ := h
    exact hsides hlegs
  | _ => exact h.elim

/-- The legs of a journal are on the house and on the caller. -/
lemma Carries.owner {req : Request} {hand : Option Quote} {j : JournalEntry}
    (h : Carries req hand j) {e : LedgerEntryInput} (he : e ∈ j.legs) :
    e.walletId = .house ∨ e.walletId = .user req.userId := by
  have hside {l : List Side} (hlegs : j.legs.map LedgerEntryInput.side = l)
      (hl : ∀ x ∈ l, x.walletId = .house ∨ x.walletId = .user req.userId) :
      e.walletId = .house ∨ e.walletId = .user req.userId :=
    hl e.side (hlegs ▸ List.mem_map_of_mem he)
  cases req with
  | fundWallet u c a k =>
    obtain ⟨_, _, -, -, -, hlegs⟩ := h
    exact hside hlegs (by simp [fundSides, Request.userId])
  | convertFunds u f t a k ctx =>
    obtain ⟨_, _, _, _, -, -, -, -, -, hlegs⟩ := h
    exact hside hlegs (by simp [exchangeSides, Request.userId])
  | executeTrade u q k =>
    obtain ⟨_, -, -, -, -, hlegs⟩ := h
    exact hside hlegs (by simp [exchangeSides, Request.userId])
  | _ => exact h.elim

/-- The commit of what is booked puts it into the books. -/
lemma putsIn_of_books (h : Inv cfg s) {req : Request} {hand : Option Quote} {tx : Tx}
    {j : JournalEntry} (htx : s.txOf t = some tx) (hbooks : Books req hand tx j)
    (hdb : s'.db = s.db.apply tx) : PutsIn req j s s' := by
  have hamount := h.ledger.apply_amount htx hbooks
  have hfits := h.ledger.fits htx hbooks
  have haccounts : (j.legs.map LedgerEntryInput.leg).map Leg.account =
      j.legs.map LedgerEntryInput.account := by
    rw [List.map_map]
    rfl
  obtain ⟨o, houtbox, heventType, hid, hentries⟩ := hbooks.outbox
  refine ⟨?_, hbooks.carries.length, ⟨o, ?_, heventType, hid, hentries⟩, ?_, ?_, ?_⟩
  · rw [hdb, ← hbooks.journals]
    rfl
  · rw [hdb, ← houtbox]
    rfl
  · intro e he
    rw [hdb]
    exact h.ledger.leg_mem_rows htx hbooks he
  · intro e he
    have hleg := List.mem_map_of_mem (f := LedgerEntryInput.leg) he
    refine ⟨(hfits.before_eq _ hleg).symm, ?_⟩
    rw [hdb, hamount]
    exact post_of_mem hfits.nodup hleg
  · intro a ha
    rw [hdb, hamount]
    exact post_of_notMem (by rwa [haccounts])

/-! ## Whole calls -/

/-- What has been committed stays so. -/
lemma commits_mono (h : Runs cfg anyStep s s') {c : Tid × Tx} (hc : c ∈ s.commits) :
    c ∈ s'.commits := by
  refine h.invariant (I := fun s' => c ∈ s'.commits) hc fun s₁ e s₂ _ hc _ hstep => ?_
  rcases Sys.step_outbox hstep with ⟨-, hcommits⟩ | ⟨t, tx, -, hcommits⟩
  · rwa [hcommits]
  · rw [hcommits]
    exact List.mem_append_left _ hc

/-- A thread keeps its request. -/
lemma req_of_runs (hs : Reachable cfg s) (h : Runs cfg anyStep s s') {th : Thread}
    (hth : s.threads t = some th) :
    ∃ th', s'.threads t = some th' ∧ th'.state.req = th.state.req :=
  thread_of_runs (P := fun l => l.req = th.state.req) hs h hth rfl (fun _ hreq => hreq)
    fun _ _ _ _ _ _ hreq _ _ => Local.after_req.trans hreq

/-- What a step of a call does, seen from the end of the run. -/
lemma Took.outcome {s₀ : Sys} (h : Took cfg t s s₀ s₁) {th : Thread}
    (hth : s.threads t = some th) (hkey : th.state.req.key.isSome) :
    (∃ tx j, s₁.commits = s₀.commits ++ [(t, tx)] ∧ tx.journals = [j] ∧
      PutsIn th.state.req j s₀ s₁) ∨ Untouched t th.state.req s₀ s₁ := by
  obtain ⟨hreach, ⟨choice, hstep⟩, hrun⟩ := h
  obtain ⟨th₀, hth₀, -⟩ := Option.bind_eq_some_iff.mp hstep
  have hrun₀ : Runs cfg anyStep s₀ s := (Runs.refl.tail trivial hstep).trans hrun
  obtain ⟨th', hth', hreq⟩ := req_of_runs hreach hrun₀ hth₀
  obtain rfl := Option.some.inj (hth.symm.trans hth')
  rw [hreq] at hkey ⊢
  rcases booked_or_untouched hreach hstep hth₀ hkey with ⟨tx, j, hcommits, hdb, htx, hbooks⟩ |
    huntouched
  · refine Or.inl ⟨tx, j, hcommits, hbooks.journals, ?_⟩
    exact putsIn_of_books (inv_of_reachable hreach) ((Sys.txOf_eq hth₀).trans htx) hbooks hdb
  · exact Or.inr huntouched

/-- Only a thread itself commits its transaction. -/
lemma Sys.step_commits (hstep : s.step cfg e = some s') {tx : Tx} (hc : (t, tx) ∈ s'.commits)
    (hnew : (t, tx) ∉ s.commits) :
    ∃ choice, e = .run t choice ∧ s'.commits = s.commits ++ [(t, tx)] := by
  cases Sys.step_of_eq hstep with
  | @run t' choice l c k s₁ r hth hrespond =>
    change (t, tx) ∈ s₁.commits at hc
    show ∃ choice', _ ∧ s₁.commits = _
    cases Sys.served_of_eq hrespond with
    | @commit x htx haborted =>
      rcases List.mem_append.mp hc with hold | hc
      · exact absurd hold hnew
      · obtain ⟨rfl, rfl⟩ := Prod.mk.inj (List.mem_singleton.mp hc)
        exact ⟨choice, rfl, rfl⟩
    | _ => exact absurd hc hnew
  | _ => exact absurd hc hnew

/-- Every commit of a run was made by a step of its thread. -/
lemma exists_took (h : Reachable cfg s) {tx : Tx} (hc : (t, tx) ∈ s.commits) :
    ∃ s₀ s₁, Took cfg t s s₀ s₁ ∧ s₁.commits = s₀.commits ++ [(t, tx)] := by
  induction h with
  | refl => cases hc
  | @tail s₀ s₁ e hrun hok hstep ih =>
    by_cases hold : (t, tx) ∈ s₀.commits
    · obtain ⟨s₂, s₃, ⟨hreach, htook, hrest⟩, hcommits⟩ := ih hold
      exact ⟨s₂, s₃, ⟨hreach, htook, hrest.tail hok hstep⟩, hcommits⟩
    · obtain ⟨choice, rfl, hcommits⟩ := Sys.step_commits hstep hc hold
      exact ⟨s₀, s₁, ⟨hrun, ⟨choice, hstep⟩, .refl⟩, hcommits⟩

/-- What a call has committed was put into the books by one of its steps. -/
lemma exists_putsIn (h : Reachable cfg s) {th : Thread} (hth : s.threads t = some th) {tx : Tx}
    {j : JournalEntry} (hc : (t, tx) ∈ s.commits) (hjournals : tx.journals = [j]) :
    ∃ s₀ s₁, Took cfg t s s₀ s₁ ∧ s₁.commits = s₀.commits ++ [(t, tx)] ∧
      PutsIn th.state.req j s₀ s₁ := by
  obtain ⟨s₀, s₁, htook, hcommits⟩ := exists_took h hc
  refine ⟨s₀, s₁, htook, hcommits, ?_⟩
  obtain ⟨th', _, hth', -, hbooks⟩ := (history_of_reachable h).booked _ hc
  obtain rfl := Option.some.inj (hth.symm.trans hth')
  rcases htook.outcome hth (by simp [hbooks.key]) with ⟨tx', j', hcommits', hj', hputs⟩ |
    huntouched
  · rw [hcommits] at hcommits'
    obtain rfl : tx = tx' := by simpa using hcommits'
    obtain rfl : j = j' := by simpa using hjournals.symm.trans hj'
    exact hputs
  · have hsame := huntouched.commits
    rw [hcommits] at hsame
    simp at hsame

/-- A call that answers with the journal that its look-up of the key has found is a replay. -/
def Thread.Replays (th : Thread) (r : OperationResponse) : Prop :=
  th.state.trail.found = some r.journal

instance (th : Thread) (r : OperationResponse) : Decidable (th.Replays r) :=
  inferInstanceAs (Decidable (_ = _))

/-- A call that has succeeded, and is no replay, has committed the journal that it answers
with. -/
lemma committed_of_success (h : Reachable cfg s) {th : Thread} (hth : s.threads t = some th)
    {r : OperationResponse} (hr : th.operation = some r) (hreplay : ¬ th.Replays r) :
    ∃ tx, (t, tx) ∈ s.commits ∧ th.state.trail.booked = some tx ∧ tx.journals = [r.journal] := by
  obtain ⟨-, -, -, ⟨tx, hbooked, hjournals⟩ | ⟨-, hfound⟩⟩ :=
    (inv_of_reachable h).answer hth (Thread.answer_of_operation hr)
  · exact ⟨tx, ((history_of_reachable h).closed t th tx hth hbooked).2, hbooked, hjournals⟩
  · exact absurd hfound hreplay

/-- A call that fails leaves the books untouched at every step; one that succeeds, and is no
replay, puts its journal, with everything that belongs to it, into the books in one step, and
leaves them alone at all others. -/
theorem operations_all_or_nothing (h : Reachable cfg s) {th : Thread}
    (hth : s.threads t = some th) (hkey : th.state.req.key.isSome) :
    (th.failure.isSome → ∀ s₀ s₁, Took cfg t s s₀ s₁ → Untouched t th.state.req s₀ s₁) ∧
    ∀ r, th.operation = some r → ¬ th.Replays r →
      ∃ s₀ s₁, Took cfg t s s₀ s₁ ∧ PutsIn th.state.req r.journal s₀ s₁ ∧
        ∀ s₂ s₃, Took cfg t s s₂ s₃ → SameBooks s₂ s₃ ∨ PutsIn th.state.req r.journal s₂ s₃ := by
  have hinv := inv_of_reachable h
  have hhist := history_of_reachable h
  constructor
  · intro hfailure s₀ s₁ htook
    obtain ⟨e, he⟩ := Option.isSome_iff_exists.mp hfailure
    obtain ⟨-, hnone, -⟩ := hinv.answer hth (Thread.answer_of_failure he)
    rcases htook.outcome hth hkey with ⟨tx, j, hcommits, -, -⟩ | huntouched
    · -- a call that has failed has committed nothing
      have hmem : (t, tx) ∈ s.commits := commits_mono htook.run (by simp [hcommits])
      obtain ⟨th', _, hth', hbooked, -⟩ := hhist.booked _ hmem
      obtain rfl := Option.some.inj (hth.symm.trans hth')
      rw [hnone] at hbooked
      cases hbooked
    · exact huntouched
  · intro r hr hreplay
    obtain ⟨tx, hcommit, hbooked, hjournals⟩ := committed_of_success h hth hr hreplay
    obtain ⟨s₀, s₁, htook, -, hputs⟩ := exists_putsIn h hth hcommit hjournals
    refine ⟨s₀, s₁, htook, hputs, fun s₂ s₃ htook' => ?_⟩
    rcases htook'.outcome hth hkey with ⟨tx', j, hcommits, hj, hputs⟩ | huntouched
    · -- a call commits once
      obtain ⟨th', _, hth', hbooked', -⟩ :=
        hhist.booked _ (commits_mono htook'.run (c := (t, tx')) (by simp [hcommits]))
      obtain rfl := Option.some.inj (hth.symm.trans hth')
      obtain rfl := Option.some.inj (hbooked.symm.trans hbooked')
      obtain rfl : r.journal = j := by simpa using hjournals.symm.trans hj
      exact Or.inr hputs
    · exact Or.inl huntouched.toSameBooks

/-- A trade that has failed, and one that has been executed. -/
theorem operations_all_or_nothing_traded : ∃ s th th' r, Reachable {} s ∧
    s.threads 25 = some th ∧ s.threads 55 = some th' ∧ th.operation = some r ∧
    th'.failure.isSome ∧
    (∃ s₀ s₁, Took {} 25 s s₀ s₁ ∧ PutsIn th.state.req r.journal s₀ s₁) ∧
    ∀ s₀ s₁, Took {} 55 s s₀ s₁ → Untouched 55 th'.state.req s₀ s₁ := by
  have hplay : (runAll (Sys.step {}) anyStep Sys.initial rejectRun).any (fun s =>
      (s.threads 25).any (fun th => th.state.req.key.isSome ∧
        th.operation.any fun r => ¬ th.Replays r) ∧
        (s.threads 55).any fun th => th.state.req.key.isSome ∧ th.failure.isSome) = true := by
    decide +kernel
  obtain ⟨s, hrun, hs⟩ := exists_of_runAll hplay
  simp only [Bool.decide_and, Bool.and_eq_true, decide_eq_true_eq, Option.any_eq_true] at hs
  obtain ⟨⟨th, hth, hkey, r, hr, hreplay⟩, th', hth', hkey', hfailure⟩ := hs
  obtain ⟨s₀, s₁, htook, hputs, -⟩ := (operations_all_or_nothing hrun hth hkey).2 r hr hreplay
  exact ⟨s, th, th', r, hrun, hth, hth', hr, hfailure, ⟨s₀, s₁, htook, hputs⟩,
    (operations_all_or_nothing hrun hth' hkey').1 hfailure⟩

end FxExchange
