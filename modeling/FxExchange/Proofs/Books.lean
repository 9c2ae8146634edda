import FxExchange.Proofs.History

/-
# The books balance

Money is conserved, the ledger reconstructs the balances, and the statement of each account
is unbroken when it is read in the order in which its row was locked.
-/

namespace FxExchange

open DoubleEntry Transition

variable {cfg : Config} {s s' s₁ : Sys} {t : Tid} {e : Event}

/-! ## Conservation -/

/-- In every reachable state the balances of a currency add up to what the house was seeded
with, and none of them is negative. -/
theorem money_conserved (h : Reachable cfg s) :
    (∀ c, s.db.total c = 9 * 10 ^ 15) ∧ ∀ a ∈ s.db.rows, 0 ≤ s.db.amount a :=
  ⟨(inv_of_reachable h).ledger.sheet.total, (inv_of_reachable h).ledger.sheet.nonneg⟩

/-- The books after a funding. -/
theorem money_conserved_funded : ∃ s, Reachable {} s ∧ s.db.amount ⟨.user 1, .usd⟩ = 500 ∧
    (∀ c, s.db.total c = 9 * 10 ^ 15) ∧ ∀ a ∈ s.db.rows, 0 ≤ s.db.amount a := by
  have hplay : (runAll (Sys.step {}) anyStep Sys.initial fundRun).any
      (fun s => s.db.amount ⟨.user 1, .usd⟩ = 500) = true := by decide +kernel
  obtain ⟨s, hrun, hs⟩ := exists_of_runAll hplay
  exact ⟨s, hrun, by simpa using hs, money_conserved hrun⟩

/-! ## Totals of legs -/

/-- The amounts of the legs of one type. -/
def sumOf (type : TransactionType) (legs : List LedgerEntryInput) : ℤ :=
  ((legs.filter fun e => e.type = type).map LedgerEntryInput.amount).sum

/-- The changes of legs are their credits less their debits. -/
lemma sum_delta (legs : List LedgerEntryInput) :
    (legs.map LedgerEntryInput.delta).sum = sumOf .credit legs - sumOf .debit legs := by
  induction legs with
  | nil => rfl
  | cons e legs ih =>
    simp only [List.map_cons, List.sum_cons, ih]
    cases htype : e.type <;>
      simp [sumOf, htype, LedgerEntryInput.delta] <;> ring

lemma net_eq (a : Account) (legs : List LedgerEntryInput) :
    net a (legs.map LedgerEntryInput.leg) =
      sumOf .credit (legs.filter fun e => e.account = a) -
        sumOf .debit (legs.filter fun e => e.account = a) := by
  rw [← sum_delta, net, List.filter_map, List.map_map]
  rfl

lemma groupNet_eq (c : Currency) (legs : List LedgerEntryInput) :
    groupNet Account.currency c (legs.map LedgerEntryInput.leg) =
      sumOf .credit (legs.filter fun e => e.currency = c) -
        sumOf .debit (legs.filter fun e => e.currency = c) := by
  rw [← sum_delta, groupNet, List.filter_map, List.map_map]
  rfl

/-- Every journal of the database was booked by a request. -/
lemma History.books_of_mem (h : History s) {j : JournalEntry} (hj : j ∈ s.db.journals) :
    ∃ t th tx, s.threads t = some th ∧ (t, tx) ∈ s.commits ∧
      th.state.trail.booked = some tx ∧ Books th.state.req th.state.trail.hand tx j := by
  rw [h.journals, List.mem_flatMap] at hj
  obtain ⟨c, hc, hj⟩ := hj
  obtain ⟨th, j', hth, hbooked, hbooks⟩ := h.booked c hc
  rw [hbooks.journals, List.mem_singleton] at hj
  exact ⟨c.1, th, c.2, hth, hc, hbooked, hj ▸ hbooks⟩

/-! ## The order of locks -/

/-- Two transactions that lock a row commit in the order in which they have locked it. -/
structure Stamped (s : Sys) : Prop where
  opened : ∀ t tx, s.txOf t = some tx → ∀ k ∈ tx.locks, k.seq < s.seq
  committed : ∀ c ∈ s.commits, ∀ k ∈ c.2.locks, k.seq < s.seq
  pending : ∀ c ∈ s.commits, ∀ t tx, s.txOf t = some tx → ∀ k ∈ c.2.locks, ∀ k' ∈ tx.locks,
    k.account = k'.account → k.seq < k'.seq
  ordered : s.commits.Pairwise fun c c' => ∀ k ∈ c.2.locks, ∀ k' ∈ c'.2.locks,
    k.account = k'.account → k.seq < k'.seq

/-- The rows that a request has locked after a command. -/
lemma Local.after_locks {l : Local} {seq : ℕ} {c : Cmd} {r : Except Exn c.Ret} {tx : Tx}
    (htx : (l.after seq c r).tx = some tx) {k : RowLock} (hk : k ∈ tx.locks) :
    k.seq = seq ∨ ∃ tx₀, l.tx = some tx₀ ∧ k ∈ tx₀.locks := by
  have hold (h : l.tx = some tx) : k.seq = seq ∨ ∃ tx₀, l.tx = some tx₀ ∧ k ∈ tx₀.locks :=
    Or.inr ⟨tx, h, hk⟩
  cases c with
  | pool c => exact hold (after_pool_tx.symm.trans htx)
  | redis c => exact hold (after_redis_tx.symm.trans htx)
  | startTransaction =>
    cases r with
    | error e => exact hold htx
    | ok time =>
      obtain rfl := Option.some.inj htx
      cases hk
  | commit => cases r <;> cases htx
  | rollback => cases r <;> cases htx
  | tx c =>
    cases htx₀ : l.tx with
    | none => cases r <;> simp [after, afterOk, afterError, htx₀] at htx
    | some tx₀ =>
      have hafter : tx = tx₀.after seq c r := by
        cases r <;> simpa [after, afterOk, afterError, Tx.after, htx₀, eq_comm] using htx
      subst hafter
      have hkeep (h : k ∈ tx₀.locks) : k.seq = seq ∨ ∃ tx, some tx₀ = some tx ∧ k ∈ tx.locks :=
        Or.inr ⟨tx₀, rfl, h⟩
      have hlock (k' : RowLock) (h : k ∈ (tx₀.lockRow k').locks) (hseq : k'.seq = seq) :
          k.seq = seq ∨ ∃ tx, some tx₀ = some tx ∧ k ∈ tx.locks := by
        unfold Tx.lockRow at h
        split at h
        · exact hkeep h
        · rcases List.mem_append.mp h with h | h
          · exact hkeep h
          · exact Or.inl (List.mem_singleton.mp h ▸ hseq)
      cases r with
      | error e => exact hkeep hk
      | ok a =>
        cases c with
        | selectForUpdate b =>
          cases a with
          | none => exact hkeep hk
          | some v => exact hlock _ hk rfl
        | insertBalance b => exact hlock _ hk rfl
        | _ => exact hkeep hk
  | _ => cases r <;> exact hold htx

lemma stamped_initial : Stamped Sys.initial where
  opened := by simp [Sys.txOf, Sys.initial]
  committed := by simp [Sys.initial]
  pending := by simp [Sys.initial]
  ordered := List.Pairwise.nil

/-- Locks stay in order when a thread moves that holds what it held, and what is new. -/
lemma Stamped.setThread (h : Stamped s) {th : Thread} (s₁ : Sys)
    (hthreads : s₁.threads = s.threads) (hseq : s₁.seq = s.seq)
    (hcommits : s₁.commits = s.commits)
    (hlocks : ∀ tx, th.state.tx = some tx → ∀ k ∈ tx.locks, k.seq = s.seq ∨
      ∃ tx₀, s.txOf t = some tx₀ ∧ k ∈ tx₀.locks) : Stamped (s₁.setThread t th) := by
  have htxOf : s₁.txOf = s.txOf := by
    funext t'
    rw [Sys.txOf, Sys.txOf, hthreads]
  have hcases (t' : Tid) (tx : Tx) (htx : (s₁.setThread t th).txOf t' = some tx)
      (k : RowLock) (hk : k ∈ tx.locks) :
      k.seq = s.seq ∨ ∃ t₀ tx₀, s.txOf t₀ = some tx₀ ∧ k ∈ tx₀.locks := by
    rw [Sys.txOf_setThread, htxOf] at htx
    rcases eq_or_ne t' t with rfl | hne
    · rw [Function.update_self] at htx
      rcases hlocks tx htx k hk with hnew | ⟨tx₀, htx₀, hk₀⟩
      · exact Or.inl hnew
      · exact Or.inr ⟨t', tx₀, htx₀, hk₀⟩
    · rw [Function.update_of_ne hne] at htx
      exact Or.inr ⟨t', tx, htx, hk⟩
  have hseq' : (s₁.setThread t th).seq = s.seq + 1 := by rw [← hseq]; rfl
  refine ⟨?_, ?_, ?_, ?_⟩
  · intro t' tx htx k hk
    rw [hseq']
    rcases hcases t' tx htx k hk with h' | ⟨t₀, tx₀, htx₀, hk₀⟩
    · omega
    · have := h.opened t₀ tx₀ htx₀ k hk₀
      omega
  · intro c hc k hk
    change c ∈ s₁.commits at hc
    rw [hcommits] at hc
    have := h.committed c hc k hk
    omega
  · intro c hc t' tx htx k hk k' hk' heq
    change c ∈ s₁.commits at hc
    rw [hcommits] at hc
    rcases hcases t' tx htx k' hk' with h' | ⟨t₀, tx₀, htx₀, hk₀⟩
    · have := h.committed c hc k hk
      omega
    · exact h.pending c hc t₀ tx₀ htx₀ k hk k' hk₀ heq
  · show s₁.commits.Pairwise _
    rw [hcommits]
    exact h.ordered

/-- A commit keeps the order: the rows that it gives back were its own until now. -/
lemma Stamped.commit (h : Stamped s) (hinv : Inv cfg s) {th : Thread} {tx : Tx} (s₁ : Sys)
    (htx : s.txOf t = some tx) (hthreads : s₁.threads = s.threads) (hseq : s₁.seq = s.seq)
    (hcommits : s₁.commits = s.commits ++ [(t, tx)]) (hth : th.state.tx = none) :
    Stamped (s₁.setThread t th) := by
  have hseq' : (s₁.setThread t th).seq = s.seq + 1 := by rw [← hseq]; rfl
  have htxOf {t' : Tid} {tx' : Tx} (h' : (s₁.setThread t th).txOf t' = some tx') :
      t' ≠ t ∧ s.txOf t' = some tx' := by
    have heq : s₁.txOf = s.txOf := by
      funext t'
      rw [Sys.txOf, Sys.txOf, hthreads]
    rw [Sys.txOf_setThread, heq, hth] at h'
    rcases eq_or_ne t' t with rfl | hne
    · simp at h'
    · rw [Function.update_of_ne hne] at h'
      exact ⟨hne, h'⟩
  have hmem {c : Tid × Tx} (hc : c ∈ (s₁.setThread t th).commits) :
      c ∈ s.commits ∨ c = (t, tx) := by
    change c ∈ s₁.commits at hc
    rwa [hcommits, List.mem_append, List.mem_singleton] at hc
  refine ⟨?_, ?_, ?_, ?_⟩
  · intro t' tx' htx' k hk
    have := h.opened t' tx' (htxOf htx').2 k hk
    omega
  · intro c hc k hk
    rcases hmem hc with hc | rfl
    · have := h.committed c hc k hk
      omega
    · have := h.opened t tx htx k hk
      omega
  · intro c hc t' tx' htx' k hk k' hk' heq
    obtain ⟨hne, htx'⟩ := htxOf htx'
    rcases hmem hc with hc | rfl
    · exact h.pending c hc t' tx' htx' k hk k' hk' heq
    · -- two transactions do not hold one row
      have h₁ := (hinv.ledger.rowLocks k.account t).mpr ⟨tx, htx, k, hk, rfl⟩
      have h₂ := (hinv.ledger.rowLocks k.account t').mpr ⟨tx', htx', k', hk', heq.symm⟩
      exact absurd (Option.some.inj (h₂.symm.trans h₁)) hne
  · show s₁.commits.Pairwise _
    rw [hcommits]
    refine List.pairwise_append.mpr ⟨h.ordered, List.pairwise_singleton _ _, ?_⟩
    intro c hc c' hc' k hk k' hk' heq
    obtain rfl := List.mem_singleton.mp hc'
    exact h.pending c hc t tx htx k hk k' hk' heq

lemma Stamped.step (h : Stamped s) (hinv : Inv cfg s) (hstep : s.step cfg e = some s') :
    Stamped s' := by
  cases Sys.step_of_eq hstep with
  | spawn req => exact h.setThread s rfl rfl rfl (by simp)
  | @run t choice l c k s₁ r hth hrespond =>
    have hserved := Sys.served_of_eq hrespond
    have htx : s.txOf t = l.tx := Sys.txOf_eq hth
    cases hinv.booking hth hserved with
    | commit htx' hbooks hdb hcommits hl' =>
      refine h.commit hinv s₁ (htx.trans htx') hserved.frame.1 hserved.frame.2.1 hcommits ?_
      rw [hl']
      rfl
    | none hrows hamount hjournals hcommits hbooked hhand =>
      refine h.setThread s₁ hserved.frame.1 hserved.frame.2.1 hcommits fun tx hl k hk => ?_
      rw [htx]
      exact Local.after_locks hl hk
  | crash hth => exact h.setThread { s with locks := _ } rfl rfl rfl (by simp)
  | tick ms => exact ⟨h.opened, h.committed, h.pending, h.ordered⟩

lemma stamped_of_reachable (h : Reachable cfg s) : Stamped s :=
  h.invariant stamped_initial fun _ _ _ hrun hst _ hstep => hst.step (inv_of_reachable hrun) hstep

/-! ## Statements of accounts -/

/-- The place of a row among all locks that were granted. -/
def Tx.lockedAt (tx : Tx) (a : Account) : ℕ :=
  ((tx.locks.find? fun k => k.account = a).map RowLock.seq).getD 0

/-- The legs of an account in the order of the commits, each with the place at which its
transaction has locked the row. -/
def Sys.statement (s : Sys) (a : Account) : List (ℕ × LedgerEntryInput) :=
  s.commits.flatMap fun c =>
    ((c.2.journals.flatMap JournalEntry.legs).filter fun e => e.account = a).map fun e =>
      (c.2.lockedAt a, e)

/-- The legs of an account in the database. -/
def Database.legsOf (db : Database) (a : Account) : List LedgerEntryInput :=
  (db.journals.flatMap JournalEntry.legs).filter fun e => e.account = a

lemma History.statement_map_snd (h : History s) (a : Account) :
    (s.statement a).map Prod.snd = s.db.legsOf a := by
  simp only [Sys.statement, Database.legsOf, h.journals, List.map_flatMap, List.map_map,
    List.flatMap_assoc, List.filter_flatMap]
  simp [Function.comp_def]

lemma Sys.statement_legs (s : Sys) (a : Account) :
    (s.statement a).map (fun p => p.2.leg) =
      legsOf a (s.commits.map fun c => c.2.legs).flatten := by
  simp only [Sys.statement, legsOf, Tx.legs, List.map_flatMap, List.map_map,
    ← List.flatMap_def, List.filter_flatMap, List.filter_map]
  rfl

/-- A booked transaction has locked the row of each of its legs. -/
lemma Books.lockedAt {req : Request} {hand : Option Quote} {tx : Tx} {j : JournalEntry}
    (h : Books req hand tx j) {e : LedgerEntryInput} (he : e ∈ j.legs) :
    ∃ k ∈ tx.locks, k.account = e.account ∧ tx.lockedAt e.account = k.seq := by
  have hmem : (e.account, e.balanceBefore) ∈ tx.locks.map fun k => (k.account, k.amount) :=
    h.locks.mem_iff.mpr (List.mem_map_of_mem he)
  obtain ⟨k₀, hk₀, heq⟩ := List.mem_map.mp hmem
  cases hfind : tx.locks.find? fun k => k.account = e.account with
  | none =>
    exact absurd (congrArg Prod.fst heq) (by simpa using List.find?_eq_none.mp hfind k₀ hk₀)
  | some k =>
    refine ⟨k, List.mem_of_find?_eq_some hfind, by simpa using List.find?_some hfind, ?_⟩
    rw [Tx.lockedAt, hfind]
    rfl

/-- Along the statement of an account the places of the locks increase. -/
lemma statement_sorted (h : History s) (hst : Stamped s) (a : Account) :
    (s.statement a).Pairwise fun p q => p.1 < q.1 := by
  -- a leg of the account, and the lock of its transaction
  have hlock {c : Tid × Tx} (hc : c ∈ s.commits) {p : ℕ × LedgerEntryInput}
      (hp : p ∈ ((c.2.journals.flatMap JournalEntry.legs).filter fun e => e.account = a).map
        fun e => (c.2.lockedAt a, e)) : ∃ k ∈ c.2.locks, k.account = a ∧ p.1 = k.seq := by
    obtain ⟨th, j, -, -, hbooks⟩ := h.booked c hc
    obtain ⟨e, he, rfl⟩ := List.mem_map.mp hp
    simp only [hbooks.journals, List.flatMap_singleton, List.mem_filter, decide_eq_true_eq] at he
    obtain ⟨he, rfl⟩ := he
    exact hbooks.lockedAt he
  refine List.pairwise_flatMap.mpr ⟨fun c hc => ?_, ?_⟩
  · -- a journal has at most one leg on the account
    obtain ⟨th, j, -, -, hbooks⟩ := h.booked c hc
    rw [hbooks.journals, List.flatMap_singleton]
    have hnd : ((j.legs.filter fun e => e.account = a).map LedgerEntryInput.account).Nodup :=
      hbooks.nodup.sublist (List.filter_sublist.map _)
    refine List.pairwise_map.mpr (List.Pairwise.imp_of_mem ?_ (List.pairwise_map.mp hnd))
    intro e e' he he' hne
    simp only [List.mem_filter, decide_eq_true_eq] at he he'
    exact absurd (he.2.trans he'.2.symm) hne
  · refine List.Pairwise.imp_of_mem ?_ hst.ordered
    intro c c' hc hc' hlt p hp q hq
    obtain ⟨k, hk, hka, hpk⟩ := hlock hc hp
    obtain ⟨k', hk', hka', hqk⟩ := hlock hc' hq
    rw [hpk, hqk]
    exact hlt k hk k' hk' (hka.trans hka'.symm)

/-- The ledger reconstructs the balances: every journal is balanced and its legs add up; each
balance is its opening amount with all credits and without all debits; and the legs of an
account, in the order in which the row was locked, form an unbroken statement. -/
theorem ledger_reconstructs_balances (h : Reachable cfg s) :
    (∀ j ∈ s.db.journals,
      (∀ c, sumOf .debit (j.legs.filter fun e => e.currency = c) =
        sumOf .credit (j.legs.filter fun e => e.currency = c)) ∧
      ∀ e ∈ j.legs, 0 < e.amount ∧
        (e.type = .credit → e.balanceAfter = e.balanceBefore + e.amount) ∧
        (e.type = .debit → e.balanceAfter = e.balanceBefore - e.amount)) ∧
    (∀ a, s.db.amount a = Database.opening a + sumOf .credit (s.db.legsOf a) -
      sumOf .debit (s.db.legsOf a)) ∧
    ∀ a, (s.statement a).map Prod.snd = s.db.legsOf a ∧
      ∀ legs : List (ℕ × LedgerEntryInput), legs.Perm (s.statement a) →
        legs.Pairwise (fun p q => p.1 ≤ q.1) →
          Chain (Database.opening a) (legs.map fun p => p.2.leg) := by
  have hhist := history_of_reachable h
  refine ⟨fun j hj => ?_, fun a => ?_, fun a => ⟨hhist.statement_map_snd a, ?_⟩⟩
  · obtain ⟨t, th, tx, hth, -, -, hbooks⟩ := hhist.books_of_mem hj
    constructor
    · intro c
      have hbalanced := hbooks.balanced c
      rw [groupNet_eq] at hbalanced
      omega
    · intro e he
      obtain ⟨hpos, -, -, hafter⟩ := hbooks.sound e he
      refine ⟨hpos, fun htype => ?_, fun htype => ?_⟩ <;>
        simpa [LedgerEntryInput.delta, htype, sub_eq_add_neg] using hafter
  · have hbalance := hhist.posted.balance a
    have hflat : (s.commits.map fun c => c.2.legs).flatten =
        (s.db.journals.flatMap JournalEntry.legs).map LedgerEntryInput.leg := by
      simp only [hhist.journals, ← List.flatMap_def, Tx.legs, List.map_flatMap,
        List.flatMap_assoc]
    rw [hbalance, hflat, net_eq, Database.legsOf]
    ring
  · intro legs hperm hsorted
    have hstrict := statement_sorted hhist (stamped_of_reachable h) a
    have hnodup : ((s.statement a).map Prod.fst).Nodup :=
      List.pairwise_map.mpr (hstrict.imp fun hlt => hlt.ne)
    have heq : legs = s.statement a := by
      refine hperm.eq_of_pairwise (fun p q hp hq hpq hqp => ?_) hsorted
        (hstrict.imp fun hlt => hlt.le)
      exact List.inj_on_of_nodup_map hnodup (hperm.subset hp) hq (le_antisymm hpq hqp)
    rw [heq, Sys.statement_legs]
    exact (hhist.posted.chain a).1

/-- The ledger after a funding: one journal, with its credit of the user. -/
theorem ledger_reconstructs_balances_funded : ∃ s, Reachable {} s ∧ s.db.journals.length = 1 ∧
    s.db.amount ⟨.user 1, .usd⟩ = 0 + sumOf .credit (s.db.legsOf ⟨.user 1, .usd⟩) -
      sumOf .debit (s.db.legsOf ⟨.user 1, .usd⟩) := by
  have hplay : (runAll (Sys.step {}) anyStep Sys.initial fundRun).any
      (fun s => s.db.journals.length = 1) = true := by decide +kernel
  obtain ⟨s, hrun, hs⟩ := exists_of_runAll hplay
  exact ⟨s, hrun, by simpa using hs, (ledger_reconstructs_balances hrun).2.1 ⟨.user 1, .usd⟩⟩

end FxExchange
