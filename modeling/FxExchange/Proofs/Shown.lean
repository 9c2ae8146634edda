import FxExchange.Proofs.Filters
import FxExchange.Proofs.Sessions

/-
# What a user is shown

Whatever fails, a wallet that is shown is one that the database has had: the cache may be behind,
but it mixes nothing up.  And the history that a user walks through adds up: to the balances, and
from some moment back to the wallet that is shown.
-/

namespace FxExchange

open Service Transition DoubleEntry

variable {cfg : Config} {s s' s₁ : Sys} {t : Tid} {e : Event} {u : UserId} {w : WalletResponse}

/-! ## The journals of a user -/

/-- What the journals have left on the balance of the user. -/
def left (u : UserId) (c : Currency) (journals : List JournalEntry) : ℤ :=
  net ⟨.user u, c⟩ ((journals.flatMap JournalEntry.legs).map LedgerEntryInput.leg)

lemma left_append (u : UserId) (c : Currency) (js js' : List JournalEntry) :
    left u c (js ++ js') = left u c js + left u c js' := by
  simp only [left, List.flatMap_append, List.map_append, net_append]

lemma left_cons (u : UserId) (c : Currency) (j : JournalEntry) (js : List JournalEntry) :
    left u c (j :: js) = left u c [j] + left u c js := by
  rw [← left_append, List.singleton_append]

/-- The order of the journals does not matter. -/
lemma left_perm {js js' : List JournalEntry} (h : js.Perm js') (c : Currency) :
    left u c js = left u c js' := by
  induction h with
  | nil => rfl
  | cons j _ ih => rw [left_cons, ih, ← left_cons]
  | swap j j' js =>
    rw [left_cons u c j' (j :: js), left_cons u c j js, left_cons u c j (j' :: js),
      left_cons u c j' js]
    ring
  | trans _ _ ih ih' => exact ih.trans ih'

/-- The journals of others leave nothing. -/
lemma left_eq_zero (h : Reachable cfg s) {j : JournalEntry} (hj : j ∈ s.db.journals)
    (hother : j.userId ≠ u) (c : Currency) : left u c [j] = 0 := by
  obtain ⟨t, th, tx, -, -, -, hbooks⟩ := (history_of_reachable h).books_of_mem hj
  have hnone : (j.legs.map LedgerEntryInput.leg).filter
      (fun l => l.account = (⟨.user u, c⟩ : Account)) = [] := by
    refine List.filter_eq_nil_iff.mpr ?_
    simp only [List.mem_map, decide_eq_true_eq, forall_exists_index, and_imp,
      forall_apply_eq_imp_iff₂]
    intro e he haccount
    have hwallet : e.walletId = .user u := congrArg Account.walletId haccount
    have howner := hbooks.carries.owner he
    rw [hwallet, ← hbooks.userId] at howner
    rcases howner with hhouse | hown
    · cases hhouse
    · exact hother (WalletId.user.inj hown).symm
  rw [left, List.flatMap_singleton, net, hnone]
  rfl

/-- What the journals of the user have left is the balance. -/
lemma amount_eq_left (h : Reachable cfg s) (c : Currency) :
    s.db.amount ⟨.user u, c⟩ = left u c (s.journalsOf u) := by
  have hhist := history_of_reachable h
  have hflat : (s.commits.map fun c => c.2.legs).flatten =
      (s.db.journals.flatMap JournalEntry.legs).map LedgerEntryInput.leg := by
    simp only [hhist.journals, ← List.flatMap_def, Tx.legs, List.map_flatMap,
      List.flatMap_assoc]
  have hothers (js : List JournalEntry) (hjs : ∀ j ∈ js, j ∈ s.db.journals) :
      left u c js = left u c (js.filter fun j => j.userId = u) := by
    induction js with
    | nil => rfl
    | cons j js ih =>
      rw [left_cons, ih fun j hj => hjs j (List.mem_cons_of_mem _ hj), List.filter_cons]
      by_cases hown : j.userId = u
      · rw [if_pos (decide_eq_true hown), ← left_cons]
      · rw [if_neg (by simpa using hown), left_eq_zero h (hjs j List.mem_cons_self) hown, zero_add]
  calc s.db.amount ⟨.user u, c⟩ = Database.opening ⟨.user u, c⟩ + left u c s.db.journals := by
        rw [hhist.posted.balance, hflat]
        rfl
    _ = left u c (s.journalsOf u) := by
        rw [hothers _ fun j hj => hj]
        exact zero_add _

/-- Journals are added only. -/
lemma journalsOf_prefix (h : Reachable cfg s) (hrun : Runs cfg anyStep s s') :
    s.journalsOf u <+: s'.journalsOf u := by
  have hprefix : s.commits <+: s'.commits := by
    refine hrun.invariant (I := fun s' => s.commits <+: s'.commits) (List.prefix_refl _)
      fun s₁ e s₂ _ hI _ hstep => ?_
    rcases Sys.step_outbox hstep with ⟨-, hcommits⟩ | ⟨t, tx, -, hcommits⟩
    · rwa [hcommits]
    · rw [hcommits]
      exact hI.trans (List.prefix_append _ _)
  obtain ⟨new, hnew⟩ := hprefix
  unfold Sys.journalsOf
  rw [(history_of_reachable h).journals, (history_of_reachable (h.trans hrun)).journals, ← hnew,
    List.flatMap_append, List.filter_append]
  exact List.prefix_append _ _

/-! ## The wallet that is shown -/

/-- The database has had the balances of the wallet at some time. -/
def Snapshot (cfg : Config) (u : UserId) (s : Sys) (w : WalletResponse) : Prop :=
  ∃ σ, Reachable cfg σ ∧ Runs cfg anyStep σ s ∧ w.balances = σ.db.balancesOf u

lemma Snapshot.step (h : Snapshot cfg u s w) (hstep : s.step cfg e = some s') :
    Snapshot cfg u s' w := by
  obtain ⟨σ, hreach, hrun, hw⟩ := h
  exact ⟨σ, hreach, hrun.tail trivial hstep, hw⟩

/-- What is stored, and what the readers have or are about to store, are snapshots. -/
structure Faithful (cfg : Config) (u : UserId) (s : Sys) : Prop where
  readings : ∀ t th, s.threads t = some th → th.alive = true → th.state.req = .getWallet u →
    ∃ x, th.prog.wp (reading u) Reader.Answers x ∧
      ∀ w, x = .holds w ∨ x = .has w → Snapshot cfg u s w
  stored : ∀ w deadline, s.redis.wallets u = some (w, deadline) → Snapshot cfg u s w

/-- The stored wallet after a command, whatever becomes of it. -/
lemma Sys.wallets_of_respond {tx : Option Tx} {c : Cmd} {choice : Choice} {r : Except Exn c.Ret}
    (h : s.respond t tx c choice = some (s₁, r)) :
    s₁.redis.wallets u = s.redis.wallets u ∨ s₁.redis.wallets u = none ∨
    ∃ w deadline, c.stores u = some w ∧ s₁.redis.wallets u = some (w, deadline) := by
  by_cases hfail : c.drops u = true ∧ choice = .fail
  · left
    obtain ⟨hdrops, rfl⟩ := hfail
    cases c with
    | redis c =>
      cases h
      rfl
    | _ => cases hdrops
  · rcases Sys.stored_of_respond h fun hdrops hchoice => hfail ⟨hdrops, hchoice⟩ with
      ⟨hsame, -⟩ | ⟨hnone, -⟩ | hset
    · exact .inl hsame
    · exact .inr (.inl hnone)
    · exact .inr (.inr hset)

namespace Faithful

/-- What a thread is about to store. -/
lemma of_stores (h : Faithful cfg u s) (hreach : Reachable cfg s) {th : Thread}
    (hth : s.threads t = some th) (hw : w ∈ th.next.bind (Cmd.stores u)) :
    Snapshot cfg u s w := by
  obtain ⟨halive, hreq⟩ := getWallet_of_stores hreach hth hw
  obtain ⟨x, hwp, hfaithful⟩ := h.readings t th hth halive hreq
  obtain ⟨l, prog, rfl⟩ : ∃ l prog, th = ⟨l, prog, true⟩ := by
    obtain ⟨l, prog, alive⟩ := th
    exact ⟨l, prog, by rw [show alive = true from halive]⟩
  exact hfaithful w (.inl (Reader.holds_of_stores hwp hw))

/-- The reader that has moved. -/
lemma moved (h : Faithful cfg u s) (hreach : Reachable cfg s) {l : Local} {c : Cmd}
    {choice : Choice} {k : Except Exn c.Ret → Service Response} {r : Except Exn c.Ret}
    (hth : s.threads t = some ⟨l, .call c k, true⟩)
    (hrespond : s.respond t l.tx c choice = some (s₁, r)) (hreq : l.req = .getWallet u) :
    ∃ x, (k r).wp (reading u) Reader.Answers x ∧
      ∀ w, x = .holds w ∨ x = .has w → Snapshot cfg u s w := by
  obtain ⟨x, ⟨hallows, hnext⟩, hfaithful⟩ := h.readings t _ hth rfl hreq
  refine ⟨x.after c r, hnext r _ rfl, fun w hw => ?_⟩
  have hmoved := Reader.moved (founded_of_reachable hreach) (Sys.served_of_eq hrespond) hallows
  rcases hw with hw | hw
  · rw [hw] at hmoved
    cases hmoved with
    | read hread => exact ⟨s, hreach, .refl, hread⟩
  · rw [hw] at hmoved
    cases hmoved with
    | hit hlive =>
      obtain ⟨deadline, hentry, -⟩ := Custody.live_eq_some_iff.mp hlive
      exact h.stored w deadline hentry
    | stored hc =>
      refine h.of_stores hreach hth ?_
      simpa [Thread.next] using hc

lemma step (h : Faithful cfg u s) (hreach : Reachable cfg s) (hstep : s.step cfg e = some s') :
    Faithful cfg u s' := by
  have hlater {p : Service Response}
      (hread : ∃ x, p.wp (reading u) Reader.Answers x ∧
        ∀ w, x = .holds w ∨ x = .has w → Snapshot cfg u s w) :
      ∃ x, p.wp (reading u) Reader.Answers x ∧
        ∀ w, x = .holds w ∨ x = .has w → Snapshot cfg u s' w := by
    obtain ⟨x, hwp, hfaithful⟩ := hread
    exact ⟨x, hwp, fun w hw => (hfaithful w hw).step hstep⟩
  have hstored (w : WalletResponse) (deadline : ℕ)
      (hentry : s.redis.wallets u = some (w, deadline)) : Snapshot cfg u s' w :=
    (h.stored w deadline hentry).step hstep
  have hstep' := hstep
  cases Sys.step_of_eq hstep with
  | spawn req =>
    refine ⟨fun t th hth halive hreq => ?_, hstored⟩
    rcases Sys.of_setThread hth with ⟨-, rfl⟩ | ⟨-, hold⟩
    · obtain rfl : req = .getWallet u := hreq
      exact ⟨.start, reading_program cfg u, by simp⟩
    · exact hlater (h.readings t th hold halive hreq)
  | @run t choice l c k s₁ r hth hrespond =>
    constructor
    · intro t' th' hth' halive hreq
      rcases Sys.of_setThread hth' with ⟨rfl, rfl⟩ | ⟨-, hold⟩
      · rw [Local.after_req] at hreq
        exact hlater (h.moved hreach hth hrespond hreq)
      · rw [(Sys.served_of_eq hrespond).frame.1] at hold
        exact hlater (h.readings t' th' hold halive hreq)
    · intro w deadline hentry
      rcases Sys.wallets_of_respond (u := u) hrespond with hsame | hnone | ⟨w', d, hc, hset⟩
      · exact hstored w deadline (hsame ▸ hentry)
      · rw [show s₁.redis.wallets u = some (w, deadline) from hentry] at hnone
        cases hnone
      · obtain ⟨rfl, -⟩ := Prod.mk.inj (Option.some.inj (hset.symm.trans hentry))
        refine (h.of_stores hreach hth ?_).step hstep'
        simpa [Thread.next] using hc
  | @crash t l c k hth =>
    refine ⟨fun t' th' hth' halive hreq => ?_, hstored⟩
    rcases Sys.of_setThread hth' with ⟨-, rfl⟩ | ⟨-, hold⟩
    · cases halive
    · exact hlater (h.readings t' th' hold halive hreq)
  | tick ms => exact ⟨fun t th hth halive hreq => hlater (h.readings t th hth halive hreq), hstored⟩

end Faithful

lemma faithful_of_reachable (h : Reachable cfg s) : Faithful cfg u s := by
  refine h.invariant (I := Faithful cfg u) ⟨?_, ?_⟩ fun _ _ _ hrun hfaithful _ hstep =>
    hfaithful.step hrun hstep
  · intro t th hth
    cases hth
  · intro w deadline hentry
    cases hentry

/-- Every wallet that is shown is a snapshot. -/
lemma snapshot_of_answer (h : Reachable cfg s) {th : Thread} (hth : s.threads t = some th)
    (hreq : th.state.req = .getWallet u) (hanswer : th.answer = some (.ok (.wallet w))) :
    Snapshot cfg u s w := by
  obtain ⟨x, hwp, hfaithful⟩ := (faithful_of_reachable (u := u) h).readings t th hth
    (Thread.alive_of_answer hanswer) hreq
  exact hfaithful w (.inr (Reader.has_of_answer hwp hanswer))

/-! ## The history adds up -/

/-- The journals of a walk without filters are those of the user. -/
lemma items_perm (h : Reachable cfg s) {limit : ℕ} {views : List View}
    {pages : List TransactionsPage} (hkeys : ∀ v ∈ views, ∀ j, j ∈ v.keys ↔ j ∈ s.db.journals)
    (hwalked : Walked u { limit } views pages true) (hne : views ≠ []) :
    (pages.flatMap TransactionsPage.items).Perm (s.journalsOf u) := by
  have hnodup : (pages.flatMap TransactionsPage.items).Nodup := by
    refine hwalked.ordered.imp ?_
    rintro j j' hlt rfl
    simp at hlt
  have hjournals : s.db.journals.Nodup := List.Nodup.of_map _ (journal_ids_nodup h)
  refine (List.perm_ext_iff_of_nodup hnodup (hjournals.filter _)).mpr fun j => ?_
  rw [hwalked.mem_iff hkeys hne, List.mem_filter, decide_eq_true_eq]
  refine and_congr_right fun _ => and_iff_left ?_
  simp [TransactionsQuery.selects, given]

/-- A user who walks through the whole history finds journals that add up to the balances; and to
every wallet that has been shown those add up that came before some moment. -/
theorem history_adds_up (h : Reachable cfg s) {F : Formats} {limit : ℕ} (hlimit : 1 ≤ limit)
    {views : List View} (hviews : Growing F views)
    (hkeys : ∀ v ∈ views, ∀ j, j ∈ v.keys ↔ j ∈ s.db.journals)
    (hlength : s.db.journals.length < views.length) : ∃ pages,
      walkTransactions F u { limit } views none = .ok (pages, true) ∧
      (∀ c, s.db.amount ⟨.user u, c⟩ = left u c (pages.flatMap TransactionsPage.items)) ∧
      ∀ t th w, s.threads t = some th → th.state.req = .getWallet u →
        th.answer = some (.ok (.wallet w)) → ∃ before after : List JournalEntry,
          (pages.flatMap TransactionsPage.items).Perm (before ++ after) ∧
            before ++ after = s.journalsOf u ∧
              ∀ c, (w.balances c).getD 0 = left u c before := by
  obtain ⟨pages, done, hpages, hwalked⟩ := exists_walked (u := u) (q := { limit }) hviews hlimit
  obtain rfl := walk_done hviews hlimit (journal_ids_nodup h) hkeys hlength hpages
  have hne : views ≠ [] := List.ne_nil_of_length_pos (Nat.zero_lt_of_lt hlength)
  have hperm := items_perm h hkeys hwalked hne
  refine ⟨pages, hpages, fun c => ?_, fun t th w hth hreq hanswer => ?_⟩
  · rw [amount_eq_left h, left_perm hperm]
  · obtain ⟨σ, hreach, hrun, hw⟩ := snapshot_of_answer h hth hreq hanswer
    obtain ⟨after, hafter⟩ := journalsOf_prefix (u := u) hreach hrun
    refine ⟨σ.journalsOf u, after, hafter ▸ hperm, hafter, fun c => ?_⟩
    rw [hw, ← amount_eq_left hreach, Database.balancesOf]
    split
    · rfl
    · rename_i hrow
      exact ((inv_of_reachable hreach).ledger.sheet.absent _ hrow).symm

/-- The first user is funded, and looks at the wallet and at the history. -/
theorem history_adds_up_funded :
    ∃ (s : Sys) (pages : List TransactionsPage) (w : WalletResponse), Reachable {} s ∧
      walkTransactions epoch 1 { limit := 1 } (twoViews s) none = .ok (pages, true) ∧
      s.db.amount ⟨.user 1, .usd⟩ = left 1 .usd (pages.flatMap TransactionsPage.items) ∧
      (∃ t th, s.threads t = some th ∧ th.answer = some (.ok (.wallet w))) ∧
      ∃ before after : List JournalEntry,
        (pages.flatMap TransactionsPage.items).Perm (before ++ after) ∧
          (w.balances .usd).getD 0 = left 1 .usd before := by
  have hplay : (runAll (Sys.step {}) anyStep Sys.initial
      (fundRun ++ .spawn (.getWallet 1) :: serve 20 3)).any (fun s =>
        (s.db.journals.length = 1 ∧ ∀ j ∈ s.db.journals, j.id = 11 ∧ j.createdAt = 0) ∧
          (s.threads 20).any fun th => th.state.req = .getWallet 1 ∧ th.wallet.isSome) = true := by
    decide +kernel
  obtain ⟨s, hrun, hs⟩ := exists_of_runAll hplay
  simp only [Bool.decide_and, Bool.and_eq_true, decide_eq_true_eq, Option.any_eq_true] at hs
  obtain ⟨⟨hlength, hjournals⟩, th, hth, hreq, hsome⟩ := hs
  obtain ⟨w, hw⟩ := Option.isSome_iff_exists.mp hsome
  have hanswer := Thread.answer_of_wallet hw
  obtain ⟨pages, hpages, hleft, hshown⟩ := history_adds_up (u := 1) hrun (le_refl 1)
    (growing_twoViews hrun hjournals)
    (fun v hv j => by rw [List.eq_of_mem_replicate hv]) (by simp [twoViews, hlength])
  obtain ⟨before, after, hperm, -, hbalances⟩ := hshown 20 th w hth hreq hanswer
  exact ⟨s, pages, w, hrun, hpages, hleft .usd, ⟨20, th, hth, hanswer⟩, before, after, hperm,
    hbalances .usd⟩

end FxExchange
