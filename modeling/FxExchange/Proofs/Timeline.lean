import FxExchange.Proofs.Books

/-
# The ledger by time

The legs of a journal are dated by the start of their transaction, but the balance before a
leg is that of the moment at which its row was locked.  Sorted by their dates the legs of an
account are a statement of it as long as its row is locked in the order in which the
transactions have started.
-/

namespace FxExchange

open DoubleEntry Transition

variable {cfg : Config} {s s' : Sys} {e : Event} {t : Tid} {a : Account}

/-! ## Dates -/

/-- The legs that the transaction has written bear the time of its start. -/
def Tx.Dated (tx : Tx) : Prop :=
  ∀ j ∈ tx.journals, ∀ log ∈ j.entries, log.createdAt = tx.startedAt

lemma Tx.Dated.after {tx : Tx} (h : tx.Dated) (seq : ℕ) (c : TxCmd) (r : Except Exn c.Ret) :
    (tx.after seq c r).Dated := by
  cases r with
  | error e => exact h
  | ok v =>
    cases c with
    | selectForUpdate b =>
      cases v with
      | none => exact h
      | some amount =>
        simp only [Tx.after, Tx.afterOk, Tx.lockRow]
        split <;> exact h
    | insertBalance b =>
      simp only [Tx.after, Tx.afterOk, Tx.lockRow]
      split <;> exact h
    | insertJournal data =>
      intro j hj log hlog
      rcases List.mem_append.mp hj with hj | hj
      · exact h j hj log hlog
      · obtain rfl := List.mem_singleton.mp hj
        cases hlog
    | insertEntries id entries =>
      intro j hj log hlog
      obtain ⟨j', hj', rfl⟩ := List.mem_map.mp hj
      split at hlog
      · rcases List.mem_append.mp hlog with hlog | hlog
        · exact h j' hj' log hlog
        · obtain ⟨entry, -, rfl⟩ := List.mem_map.mp hlog
          rfl
      · exact h j' hj' log hlog
    | _ => exact h

/-- Every transaction of a thread is dated, the one that is open and the one it has committed. -/
lemma dated_of_reachable (h : Reachable cfg s) {th : Thread} (hth : s.threads t = some th)
    {tx : Tx} (htx : th.state.tx = some tx ∨ th.state.trail.booked = some tx) : tx.Dated := by
  refine forall_threads (P := fun l => ∀ tx, l.tx = some tx ∨ l.trail.booked = some tx → tx.Dated)
    h (fun req tx htx => ?_) (fun l hl tx htx => ?_)
    (fun s t l c s₁ r hl hguard hserved tx htx => ?_) hth tx htx
  · rcases htx with htx | htx <;> cases htx
  · rcases htx with htx | htx
    · cases htx
    · exact hl tx (Or.inr htx)
  · cases hserved.txOrigin htx with
    | old hold => exact hl tx hold
    | start time =>
      intro j hj
      cases hj
    | @abort x hx => exact hl x (Or.inl hx)
    | @statement x c locks r hx hc hexec => exact (hl x (Or.inl hx)).after _ _ _

/-! ## Statements by time -/

/-- The legs of an account in the database. -/
def Database.logsOf (db : Database) (a : Account) : List TransactionLog :=
  (db.journals.flatMap JournalEntry.entries).filter fun log => log.account = a

/-- The legs of the account, sorted by their dates, form a chain from its opening amount. -/
def Database.Chronological (db : Database) (a : Account) : Prop :=
  ∀ logs : List TransactionLog, logs.Perm (db.logsOf a) →
    logs.Pairwise (fun log log' => log.createdAt ≤ log'.createdAt) →
      Chain (Database.opening a) (logs.map fun log => log.leg)

/-- The transaction has locked the row of the account. -/
def Tx.Locks (tx : Tx) (a : Account) : Prop := a ∈ tx.locks.map RowLock.account

instance (tx : Tx) (a : Account) : Decidable (tx.Locks a) := inferInstanceAs (Decidable (_ ∈ _))

/-- A transaction that has locked the row of the account and commits has started after those
that have had the row before. -/
def StartsInOrder (a : Account) (s : Sys) : Event → Prop
  | .run t .ok =>
    match s.next t with
    | some .commit => ∀ tx ∈ s.txOf t, tx.Locks a →
        ∀ c ∈ s.commits, c.2.Locks a → c.2.startedAt < tx.startedAt
    | _ => True
  | _ => True

instance (a : Account) (s : Sys) (e : Event) : Decidable (StartsInOrder a s e) := by
  unfold StartsInOrder
  split
  · split <;> infer_instance
  · infer_instance

/-- The transactions that have locked the row have started in the order of their commits. -/
lemma started_in_order (h : Runs cfg (StartsInOrder a) Sys.initial s) :
    s.commits.Pairwise fun c c' => c.2.Locks a → c'.2.Locks a →
      c.2.startedAt < c'.2.startedAt := by
  refine h.invariant (I := fun s => s.commits.Pairwise fun c c' => c.2.Locks a → c'.2.Locks a →
    c.2.startedAt < c'.2.startedAt) List.Pairwise.nil fun s e s' hrun hI hok hstep => ?_
  cases Sys.step_of_eq hstep with
  | @run t choice l c k s₁ r hth hrespond =>
    show s₁.commits.Pairwise _
    cases Sys.served_of_eq hrespond with
    | @commit tx htx haborted =>
      have hopen : s.txOf t = some tx := (Sys.txOf_eq hth).trans htx
      have hnext : s.next t = some .commit := by simp [Sys.next, hth, Thread.next]
      refine List.pairwise_append.mpr ⟨hI, List.pairwise_singleton _ _, fun c hc c' hc' => ?_⟩
      obtain rfl := List.mem_singleton.mp hc'
      cases choice with
      | ok =>
        simp only [StartsInOrder, hnext] at hok
        exact fun hbefore hafter => hok tx hopen hafter c hc hbefore
      | fail => simp [Sys.respond, Sys.fail] at hrespond
      | rates r => simp [Sys.respond] at hrespond
    | _ => exact hI
  | _ => exact hI

lemma History.logsOf_eq (h : History s) (a : Account) :
    s.db.logsOf a = s.commits.flatMap fun c =>
      (c.2.journals.flatMap JournalEntry.entries).filter fun log => log.account = a := by
  simp only [Database.logsOf, h.journals, List.flatMap_assoc, List.filter_flatMap]

lemma History.logsOf_legs (h : History s) (a : Account) :
    (s.db.logsOf a).map (fun log => log.leg) =
      legsOf a (s.commits.map fun c => c.2.legs).flatten := by
  simp only [h.logsOf_eq, legsOf, Tx.legs, JournalEntry.legs, List.map_flatMap, List.map_map,
    ← List.flatMap_def, List.filter_flatMap, List.filter_map]
  rfl

/-- The legs of an account, in the order of the commits, are in the order of their dates. -/
lemma logsOf_sorted (h : Runs cfg (StartsInOrder a) Sys.initial s) :
    (s.db.logsOf a).Pairwise fun log log' => log.createdAt < log'.createdAt := by
  have hreach := reachable_of_runs h
  have hhist := history_of_reachable hreach
  -- a leg of the account is dated by its transaction, which has locked the row
  have hlog {c : Tid × Tx} (hc : c ∈ s.commits) {log : TransactionLog}
      (hlog : log ∈ (c.2.journals.flatMap JournalEntry.entries).filter fun log =>
        log.account = a) : log.createdAt = c.2.startedAt ∧ c.2.Locks a := by
    obtain ⟨th, j, hth, hbooked, hbooks⟩ := hhist.booked c hc
    obtain ⟨hmem, hacct⟩ := List.mem_filter.mp hlog
    rw [hbooks.journals, List.flatMap_singleton] at hmem
    refine ⟨dated_of_reachable hreach hth (Or.inr hbooked) j (by simp [hbooks.journals]) log hmem,
      ?_⟩
    obtain ⟨k, hk, hacct', -⟩ := hbooks.lockedAt (List.mem_map_of_mem hmem)
    exact List.mem_map.mpr ⟨k, hk, hacct'.trans (of_decide_eq_true hacct)⟩
  rw [hhist.logsOf_eq]
  refine List.pairwise_flatMap.mpr ⟨fun c hc => ?_, ?_⟩
  · -- a journal has at most one leg on the account
    obtain ⟨th, j, -, -, hbooks⟩ := hhist.booked c hc
    rw [hbooks.journals, List.flatMap_singleton]
    have hnd : (j.entries.map fun log => log.account).Nodup := by
      have hlegs := hbooks.nodup
      rw [JournalEntry.legs, List.map_map] at hlegs
      exact hlegs
    refine List.Pairwise.imp_of_mem ?_
      ((List.pairwise_map.mp hnd).sublist List.filter_sublist)
    intro log log' hmem hmem' hne
    exact absurd ((of_decide_eq_true (List.mem_filter.mp hmem).2).trans
      (of_decide_eq_true (List.mem_filter.mp hmem').2).symm) hne
  · refine List.Pairwise.imp_of_mem ?_ (started_in_order h)
    intro c c' hc hc' hlt log hmem log' hmem'
    obtain ⟨hdate, hlocks⟩ := hlog hc hmem
    obtain ⟨hdate', hlocks'⟩ := hlog hc' hmem'
    rw [hdate, hdate']
    exact hlt hlocks hlocks'

/-- Where the transactions lock the row of an account in the order of their starts, its legs
sorted by time are an unbroken statement. -/
theorem chronological_of_runs (h : Runs cfg (StartsInOrder a) Sys.initial s) :
    s.db.Chronological a := by
  intro logs hperm hsorted
  have hhist := history_of_reachable (reachable_of_runs h)
  have hstrict := logsOf_sorted h
  have hnodup : ((s.db.logsOf a).map TransactionLog.createdAt).Nodup :=
    List.pairwise_map.mpr (hstrict.imp fun hlt => hlt.ne)
  have heq : logs = s.db.logsOf a := by
    refine hperm.eq_of_pairwise (fun log log' hlog hlog' hle hge => ?_) hsorted
      (hstrict.imp fun hlt => hlt.le)
    exact List.inj_on_of_nodup_map hnodup (hperm.subset hlog) hlog' (le_antisymm hle hge)
  rw [heq, hhist.logsOf_legs]
  exact (hhist.posted.chain a).1

/-- Two users are funded, one after the other. -/
def successiveFundings : List Event :=
  fundRun ++ [.tick 1, .spawn (.fundWallet 2 "USD" (.integer 300) "fund")] ++ serve 20 18

/-- The statement of the house after the two. -/
theorem chronological_of_runs_two : ∃ s, Reachable {} s ∧ s.db.journals.length = 2 ∧
    s.db.Chronological ⟨.house, .usd⟩ := by
  have hplay : (runAll (Sys.step {}) (StartsInOrder ⟨.house, .usd⟩) Sys.initial
      successiveFundings).any (fun s => s.db.journals.length = 2) = true := by decide +kernel
  obtain ⟨s, hrun, hs⟩ := exists_of_runAll hplay
  exact ⟨s, reachable_of_runs hrun, of_decide_eq_true hs, chronological_of_runs hrun⟩

/-- Two users are funded, and the transaction that has started first is the second one to lock
the row of the house. -/
def overlappingFundings : List Event :=
  .spawn (.fundWallet 1 "USD" (.integer 500) "fund") :: serve 1 6 ++
    [.tick 1, .spawn (.fundWallet 2 "USD" (.integer 300) "fund")] ++ serve 8 18 ++ serve 1 12

/-- The house pays 300 and then 500, but the 500 are dated first. -/
theorem overtaken_statement : ∃ s, Runs {} NoFailure Sys.initial s ∧
    (s.db.logsOf ⟨.house, .usd⟩).map (fun log => (log.createdAt, log.balanceBefore,
      log.balanceAfter)) = [(1, seed, seed - 300), (0, seed - 300, seed - 800)] ∧
    ¬ s.db.Chronological ⟨.house, .usd⟩ := by
  have hplay : (runAll (Sys.step {}) NoFailure Sys.initial overlappingFundings).any
      (fun s => (s.db.logsOf ⟨.house, .usd⟩).map (fun log => (log.createdAt, log.balanceBefore,
        log.balanceAfter)) = [(1, seed, seed - 300), (0, seed - 300, seed - 800)]) = true := by
    decide +kernel
  obtain ⟨s, hrun, hs⟩ := exists_of_runAll hplay
  have hlogs := of_decide_eq_true hs
  refine ⟨s, hrun, hlogs, fun hchrono => ?_⟩
  obtain ⟨first, second, hpair⟩ : ∃ first second, s.db.logsOf ⟨.house, .usd⟩ = [first, second] :=
    List.length_eq_two.mp (by simpa using congrArg List.length hlogs)
  simp only [hpair, List.map_cons, List.map_nil, List.cons.injEq, Prod.mk.injEq, and_true] at hlogs
  obtain ⟨⟨hdate, -⟩, hdate', hbefore, -⟩ := hlogs
  have hchain := hchrono [second, first] (by rw [hpair]; exact List.Perm.swap _ _ _)
    (by simp [hdate, hdate'])
  -- the one that is dated first does not start from the opening amount
  have hopening : second.balanceBefore = seed := hchain.1
  rw [hbefore] at hopening
  exact absurd hopening (by decide)

end FxExchange
