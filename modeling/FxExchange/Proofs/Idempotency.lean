import FxExchange.Proofs.Books

/-
# Idempotency keys

A key of a user stands for at most one journal and one change of balances, whatever the
requests that use it ask for; and an answer of success hands out the journal of that key.
-/

namespace FxExchange

open DoubleEntry Transition

variable {cfg : Config} {s s' : Sys} {t : Tid} {e : Event} {u : UserId} {k : String}

/-! ## Changes of balances -/

/-- The step changes balances, and it is one of a request of the user `u` with the key
`k`. -/
def Sys.ChangesFor (s : Sys) (u : UserId) (k : String) (e : Event) (s' : Sys) : Prop :=
  s'.db.amount ≠ s.db.amount ∧ ∃ t choice th, e = .run t choice ∧ s.threads t = some th ∧
    th.state.req.userId = u ∧ th.state.req.key = some k

/-- `Effects cfg u k s n`: on a run to `s` balances were changed `n` times on behalf of the
user `u` and the key `k`. -/
inductive Effects (cfg : Config) (u : UserId) (k : String) : Sys → ℕ → Prop
  | initial : Effects cfg u k Sys.initial 0
  | change {s s' : Sys} {n : ℕ} {e : Event} (h : Effects cfg u k s n)
      (hstep : s.step cfg e = some s') (hchange : s.ChangesFor u k e s') :
      Effects cfg u k s' (n + 1)
  | keep {s s' : Sys} {n : ℕ} {e : Event} (h : Effects cfg u k s n)
      (hstep : s.step cfg e = some s') (hkeep : ¬ s.ChangesFor u k e s') :
      Effects cfg u k s' n

lemma Effects.reachable {n : ℕ} (h : Effects cfg u k s n) : Reachable cfg s := by
  induction h with
  | initial => exact .refl
  | change _ hstep _ ih => exact ih.tail trivial hstep
  | keep _ hstep _ ih => exact ih.tail trivial hstep

/-- Every run has a number of effects. -/
lemma exists_effects (h : Reachable cfg s) (u : UserId) (k : String) :
    ∃ n, Effects cfg u k s n := by
  induction h with
  | refl => exact ⟨0, .initial⟩
  | @tail s s' e _ _ hstep ih =>
    obtain ⟨n, hn⟩ := ih
    by_cases hchange : s.ChangesFor u k e s'
    · exact ⟨n + 1, hn.change hstep hchange⟩
    · exact ⟨n, hn.keep hstep hchange⟩

/-- A journal that is booked has legs. -/
lemma Carries.legs_ne_nil {req : Request} {hand : Option Quote} {j : JournalEntry}
    (h : Carries req hand j) : j.legs ≠ [] := by
  rintro hnil
  cases req with
  | fundWallet u c a k =>
    obtain ⟨_, _, -, -, -, hsides⟩ := h
    simp [hnil, fundSides] at hsides
  | convertFunds u f t a k context =>
    obtain ⟨_, _, _, _, -, -, -, -, -, hsides⟩ := h
    simp [hnil, exchangeSides] at hsides
  | executeTrade u q k =>
    obtain ⟨_, -, -, -, -, hsides⟩ := h
    simp [hnil, exchangeSides] at hsides
  | _ => exact h

/-- A commit changes balances. -/
lemma Ledger.apply_amount_ne {db : Database} {locks : Locks} {txs : Tid → Option Tx} {tx : Tx}
    {req : Request} {hand : Option Quote} {j : JournalEntry} (h : Ledger db locks txs)
    (htx : txs t = some tx) (hbooks : Books req hand tx j) : (db.apply tx).amount ≠ db.amount := by
  obtain ⟨e, he⟩ := List.exists_mem_of_ne_nil _ hbooks.carries.legs_ne_nil
  have hl := List.mem_map_of_mem (f := LedgerEntryInput.leg) he
  intro heq
  have hafter : post db.amount (j.legs.map LedgerEntryInput.leg) e.account = e.balanceAfter :=
    post_of_mem (h.fits htx hbooks).nodup hl
  have hbefore := (h.fits htx hbooks).before_eq _ hl
  rw [← h.apply_amount htx hbooks, heq] at hafter
  have hdelta : e.delta = 0 := by
    have hsum := (hbooks.sound e he).after_eq
    change e.balanceBefore = db.amount e.account at hbefore
    omega
  have hpos := (hbooks.sound e he).amount_pos
  unfold LedgerEntryInput.delta at hdelta
  split at hdelta <;> omega

/-- A step changes balances exactly when it commits a journal, for the user and the key of
the request that makes it. -/
lemma Inv.step_journals (h : Inv cfg s) (hstep : s.step cfg e = some s') :
    (s'.db.amount = s.db.amount ∧ s'.db.journals = s.db.journals) ∨
      s'.db.amount ≠ s.db.amount ∧ ∃ t choice th j, e = .run t choice ∧
        s.threads t = some th ∧ s'.db.journals = s.db.journals ++ [j] ∧
        j.userId = th.state.req.userId ∧ th.state.req.key = some j.idempotencyKey := by
  cases Sys.step_of_eq hstep with
  | spawn req => exact Or.inl ⟨rfl, rfl⟩
  | @run t choice l c k s₁ r hth hrespond =>
    have hserved := Sys.served_of_eq hrespond
    cases h.booking hth hserved with
    | none _ hamount hjournals _ _ _ => exact Or.inl ⟨hamount, hjournals⟩
    | @commit tx j htx hbooks hdb _ _ =>
      have htxOf : s.txOf t = some tx := (Sys.txOf_eq hth).trans htx
      refine Or.inr ⟨?_, t, choice, _, j, rfl, hth, ?_, hbooks.userId, hbooks.key⟩
      · show s₁.db.amount ≠ s.db.amount
        rw [hdb]
        exact h.ledger.apply_amount_ne htxOf hbooks
      · show s₁.db.journals = _
        rw [hdb, ← hbooks.journals]
        rfl
  | crash hth => exact Or.inl ⟨rfl, rfl⟩
  | tick ms => exact Or.inl ⟨rfl, rfl⟩

/-- Balances have been changed on behalf of a key as often as it has journals. -/
lemma Effects.eq_count {n : ℕ} (h : Effects cfg u k s n) :
    n = (s.db.journals.map JournalEntry.userKey).count (u, k) := by
  induction h with
  | initial => rfl
  | change h hstep hchange ih =>
    obtain ⟨hamount, t, choice, th, rfl, hth, hu, hk⟩ := hchange
    rcases (inv_of_reachable h.reachable).step_journals hstep with
      ⟨hsame, -⟩ | ⟨-, t', choice', th', j, heq, hth', hjournals, hju, hjk⟩
    · exact absurd hsame hamount
    · obtain ⟨rfl, -⟩ := Event.run.inj heq
      obtain rfl := Option.some.inj (hth.symm.trans hth')
      have hkey : j.userKey = (u, k) :=
        Prod.ext (hju.trans hu) (Option.some.inj (hjk.symm.trans hk))
      simp [hjournals, hkey, ih]
  | keep h hstep hkeep ih =>
    rcases (inv_of_reachable h.reachable).step_journals hstep with
      ⟨-, hjournals⟩ | ⟨hamount, t, choice, th, j, rfl, hth, hjournals, hju, hjk⟩
    · rw [hjournals, ih]
    · have hkey : j.userKey ≠ (u, k) := by
        intro hkey
        obtain ⟨rfl, rfl⟩ := Prod.mk.inj hkey
        exact hkeep ⟨hamount, t, choice, th, rfl, hth, hju.symm, hjk⟩
      simp [hjournals, hkey, ih]

/-- Exactly-once effect: for every user and every idempotency key at most one journal is
ever committed, balances are changed on its behalf at most once, and they have been changed
if and only if that journal exists.  No other step changes balances. -/
theorem effect_exactly_once {n : ℕ} (h : Effects cfg u k s n) :
    (s.db.journals.filter fun j => j.userId = u ∧ j.idempotencyKey = k).length ≤ 1 ∧ n ≤ 1 ∧
      (n = 1 ↔ ∃ j ∈ s.db.journals, j.userId = u ∧ j.idempotencyKey = k) ∧
      ∀ e s', s.step cfg e = some s' → s'.db.amount ≠ s.db.amount →
        ∃ u' k', s.ChangesFor u' k' e s' := by
  have hinv := inv_of_reachable h.reachable
  have hcount := h.eq_count
  have hle : (s.db.journals.map JournalEntry.userKey).count (u, k) ≤ 1 :=
    List.nodup_iff_count_le_one.mp hinv.ledger.sheet.unique (u, k)
  have hmem : (∃ j ∈ s.db.journals, j.userId = u ∧ j.idempotencyKey = k) ↔
      0 < (s.db.journals.map JournalEntry.userKey).count (u, k) := by
    simp [List.count_pos_iff, JournalEntry.userKey]
  have hlength : (s.db.journals.filter fun j => j.userId = u ∧ j.idempotencyKey = k).length =
      (s.db.journals.map JournalEntry.userKey).count (u, k) := by
    rw [List.count, List.countP_map, List.countP_eq_length_filter]
    congr 1
    refine List.filter_congr fun j _ => ?_
    refine Bool.eq_iff_iff.mpr ?_
    simp [JournalEntry.userKey]
  refine ⟨hlength.trans_le hle, hcount.trans_le hle, ?_, ?_⟩
  · rw [hmem]
    omega
  · intro e s' hstep hamount
    rcases hinv.step_journals hstep with ⟨hsame, -⟩ | ⟨-, t, choice, th, j, he, hth, -, hu, hk⟩
    · exact absurd hsame hamount
    · exact ⟨j.userId, j.idempotencyKey, hamount, t, choice, th, he, hth, hu.symm, hk⟩

/-- Two fundings with one key, the second of which replays the first. -/
theorem effect_exactly_once_replayed : ∃ s n, Effects {} 1 "fund" s n ∧
    (s.threads 20).isSome ∧ s.db.journals.length = 1 ∧ n ≤ 1 := by
  have hplay : (runAll (Sys.step {}) anyStep Sys.initial
      (fundRun ++ .spawn (.fundWallet 1 "USD" (.integer 500) "fund") :: serve 20 1)).any
      (fun s => (s.threads 20).isSome ∧ s.db.journals.length = 1) = true := by decide +kernel
  obtain ⟨s, hrun, hs⟩ := exists_of_runAll hplay
  obtain ⟨n, hn⟩ := exists_effects hrun 1 "fund"
  simp only [Bool.decide_and, Bool.and_eq_true, decide_eq_true_eq] at hs
  exact ⟨s, n, hn, hs.1, hs.2, (effect_exactly_once hn).2.1⟩

/-! ## What an answer of success stands for -/

/-- An operation that answers with success hands out a committed journal of its user and
key, which carries the movement of the call that has booked it.  That is the call itself,
unless it has found the journal; and it is the movement asked for, if all calls with the
key ask for the same. -/
theorem success_carries_movement (h : Reachable cfg s) {th : Thread}
    (hth : s.threads t = some th) {r : OperationResponse}
    (hanswer : th.answer = some (.ok (.operation r))) :
    r.status = .success ∧ r.journal ∈ s.db.journals ∧
      ∃ t₀ th₀ tx, s.threads t₀ = some th₀ ∧ th₀.state.req.userId = th.state.req.userId ∧
        th₀.state.req.key = th.state.req.key ∧ th₀.state.trail.booked = some tx ∧
        tx.journals = [r.journal] ∧
        Carries th₀.state.req th₀.state.trail.hand r.journal ∧
        (t₀ = t ∨ th.state.trail.booked = none ∧ th.state.trail.found = some r.journal) ∧
        ((∀ t' th', s.threads t' = some th' →
            th'.state.req.userId = th.state.req.userId →
            th'.state.req.key = th.state.req.key → th'.state.req = th.state.req) →
          Carries th.state.req th₀.state.trail.hand r.journal) := by
  have hhist := history_of_reachable h
  obtain ⟨hmem, hu, hk⟩ := journal_of_answer h hth hanswer
  obtain ⟨t₀, th₀, tx₀, hth₀, hcommit₀, hbooked₀, hbooks⟩ := hhist.books_of_mem hmem
  have hu₀ : th₀.state.req.userId = th.state.req.userId := hbooks.userId.symm.trans hu
  have hk₀ : th₀.state.req.key = th.state.req.key := hbooks.key.trans hk.symm
  obtain ⟨-, hstatus, -, hanswer⟩ := (inv_of_reachable h).answer hth hanswer
  refine ⟨hstatus, hmem, t₀, th₀, tx₀, hth₀, hu₀, hk₀, hbooked₀, hbooks.journals,
    hbooks.carries, ?_, fun hsame => hsame t₀ th₀ hth₀ hu₀ hk₀ ▸ hbooks.carries⟩
  rcases hanswer with ⟨tx, hbooked, hjournals⟩ | hfound
  · -- the call has booked a journal, and that is this one
    obtain ⟨-, hcommit⟩ := hhist.closed t th tx hth hbooked
    exact Or.inl (journal_eq h hcommit₀ hcommit hbooks.journals hjournals rfl).1
  · exact Or.inr hfound

/-- A funding that has answered hands out a committed journal. -/
theorem success_carries_movement_funded : ∃ s th r, Reachable {} s ∧ s.threads 1 = some th ∧
    th.answer = some (.ok (.operation r)) ∧ r.status = .success ∧ r.journal ∈ s.db.journals := by
  have hplay : (runAll (Sys.step {}) anyStep Sys.initial fundRun).any
      (fun s => (s.threads 1).any fun th => th.operation.isSome) = true := by decide +kernel
  obtain ⟨s, hrun, hs⟩ := exists_of_runAll hplay
  obtain ⟨th, hth, hsome⟩ := (Option.any_eq_true ..).mp hs
  obtain ⟨r, hr⟩ := Option.isSome_iff_exists.mp hsome
  have hanswer := Thread.answer_of_operation hr
  obtain ⟨hstatus, hmem, -⟩ := success_carries_movement hrun hth hanswer
  exact ⟨s, th, r, hrun, hth, hanswer, hstatus, hmem⟩

/-- A conversion under the key of a funding answers with the journal of the funding, which
is not what it asked for. -/
theorem success_of_another_operation : ∃ s th r, Reachable {} s ∧ s.threads 20 = some th ∧
    th.state.req = .convertFunds 1 "USD" "EUR" (.integer 100) "fund" .convert ∧
    th.answer = some (.ok (.operation r)) ∧ r.status = .success ∧
    ∀ hand, ¬ Carries th.state.req hand r.journal := by
  have hplay : (runAll (Sys.step {}) anyStep Sys.initial (fundRun ++
      .spawn (.convertFunds 1 "USD" "EUR" (.integer 100) "fund" .convert) :: serve 20 1)).any
      (fun s => (s.threads 20).any fun th =>
        th.state.req = .convertFunds 1 "USD" "EUR" (.integer 100) "fund" .convert ∧
        th.operation.any fun r => r.status = .success ∧ r.journal.purpose = .funding) = true := by
    decide +kernel
  obtain ⟨s, hrun, hs⟩ := exists_of_runAll hplay
  simp only [Bool.decide_and, Bool.and_eq_true, decide_eq_true_eq, Option.any_eq_true] at hs
  obtain ⟨th, hth, hreq, r, hr, hstatus, hpurpose⟩ := hs
  refine ⟨s, th, r, hrun, hth, hreq, Thread.answer_of_operation hr, hstatus, fun hand => ?_⟩
  rw [hreq]
  rintro ⟨f, t, a, out, -, -, -, -, hexchange, -⟩
  rw [hpurpose] at hexchange
  cases hexchange

end FxExchange
