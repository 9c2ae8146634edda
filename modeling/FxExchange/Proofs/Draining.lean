import FxExchange.Proofs.Leases

/-
# Draining the outbox

Whatever has happened to the relay before, and whoever has died: one sweep when the claims are
stale, and then polls that are left alone, publish what is outstanding.  Each poll takes the next
batch of the oldest rows, and each row is published once more.
-/

namespace FxExchange

open Transition

/-! ## Sorting what is selected -/

section Sorting

variable {α : Type} {r : α → α → Prop} [DecidableRel r]

lemma orderedInsert_of_forall_rel {a : α} {l : List α} (h : ∀ b ∈ l, r a b) :
    l.orderedInsert r a = a :: l := by
  cases l with
  | nil => rfl
  | cons b l => rw [List.orderedInsert_cons, if_pos (h b List.mem_cons_self)]

variable [IsTrans α r]

lemma filter_orderedInsert {p : α → Bool} {a : α} {l : List α} (hl : l.Pairwise r) :
    (l.orderedInsert r a).filter p =
      if p a then (l.filter p).orderedInsert r a else l.filter p := by
  induction l with
  | nil =>
    rw [List.orderedInsert_nil, List.filter_singleton]
    cases p a <;> rfl
  | cons b l ih =>
    have hl' := List.pairwise_cons.mp hl
    by_cases hab : r a b
    · have hall : ∀ c ∈ (b :: l).filter p, r a c := by
        intro c hc
        rcases List.mem_cons.mp (List.mem_of_mem_filter hc) with rfl | hc
        · exact hab
        · exact trans_of r hab (hl'.1 c hc)
      rw [List.orderedInsert_cons, if_pos hab, List.filter_cons (x := a),
        orderedInsert_of_forall_rel hall]
    · rw [List.orderedInsert_cons, if_neg hab, List.filter_cons, ih hl'.2, List.filter_cons]
      by_cases hb : p b <;> by_cases ha : p a <;> simp [hb, ha, hab]

/-- Sorting keeps the order of what is selected. -/
lemma filter_insertionSort [Std.Total r] {p : α → Bool} (l : List α) :
    (l.insertionSort r).filter p = (l.filter p).insertionSort r := by
  induction l with
  | nil => rfl
  | cons a l ih =>
    rw [List.insertionSort_cons, filter_orderedInsert (List.pairwise_insertionSort r l), ih,
      List.filter_cons]
    split <;> rfl

end Sorting

/-- What is not among the first ones are the others. -/
lemma filter_notMem_take {α β : Type} [DecidableEq β] {f : α → β} {l : List α}
    (hnodup : (l.map f).Nodup) (k : ℕ) :
    l.filter (fun a => f a ∉ (l.take k).map f) = l.drop k := by
  have hapart : ∀ a ∈ l.drop k, f a ∉ (l.take k).map f := by
    rw [← List.take_append_drop k l, List.map_append, List.nodup_append] at hnodup
    intro a ha hin
    exact hnodup.2.2 (f a) hin (f a) (List.mem_map_of_mem ha) rfl
  have htaken : (l.take k).filter (fun a => f a ∉ (l.take k).map f) = [] := by
    refine List.filter_eq_nil_iff.mpr fun a ha => ?_
    simpa only [decide_not, Bool.not_eq_true', decide_eq_false_iff_not, not_not] using
      List.mem_map_of_mem ha
  have hleft : (l.drop k).filter (fun a => f a ∉ (l.take k).map f) = l.drop k := by
    refine List.filter_eq_self.mpr fun a ha => ?_
    simpa using hapart a ha
  calc l.filter (fun a => f a ∉ (l.take k).map f)
      = (l.take k ++ l.drop k).filter (fun a => f a ∉ (l.take k).map f) := by
        rw [List.take_append_drop]
    _ = l.drop k := by rw [List.filter_append, htaken, hleft, List.nil_append]

/-! ## The backlog -/

namespace OutboxRow

/-- The PENDING rows, the oldest first. -/
def backlog (table : List OutboxRow) : List OutboxRow :=
  (table.filter fun row => row.status = .pending).insertionSort
    fun row row' => row.createdAt ≤ row'.createdAt

/-- The table when the first `k` rows of the backlog have been published. -/
def drain (k now : ℕ) (table : List OutboxRow) : List OutboxRow :=
  updateWhere (fun row => row.id ∈ ((backlog table).take k).map fun row => row.id)
    (markPublished now) table

end OutboxRow

open OutboxRow (backlog drain)

variable {table : List OutboxRow} {now k m : ℕ}

instance : Std.Total fun row row' : OutboxRow => row.createdAt ≤ row'.createdAt :=
  ⟨fun row row' => Nat.le_total row.createdAt row'.createdAt⟩

instance : IsTrans OutboxRow fun row row' => row.createdAt ≤ row'.createdAt :=
  ⟨fun _ _ _ => Nat.le_trans⟩

lemma mem_backlog {row : OutboxRow} :
    row ∈ backlog table ↔ row ∈ table ∧ row.status = .pending := by
  unfold backlog
  rw [List.mem_insertionSort, List.mem_filter, decide_eq_true_eq]

lemma claimable_eq_backlog (limit : ℕ) : OutboxRow.claimable limit [] table =
    ((backlog table).take limit).map fun row => row.id := by
  simp [OutboxRow.claimable, backlog]

lemma backlog_ids_nodup (hids : (table.map fun row => row.id).Nodup) :
    ((backlog table).map fun row => row.id).Nodup := by
  have hperm : (backlog table).Perm (table.filter fun row => row.status = .pending) :=
    List.perm_insertionSort _ _
  rw [(hperm.map fun row => row.id).nodup_iff]
  exact hids.sublist (List.filter_sublist.map _)

lemma filter_updateWhere {p q : OutboxRow → Bool} {f : OutboxRow → OutboxRow}
    (h : ∀ row, q (f row) = false) (table : List OutboxRow) :
    (updateWhere p f table).filter q = (table.filter q).filter fun row => !p row := by
  unfold updateWhere
  induction table with
  | nil => rfl
  | cons row table ih =>
    rw [List.map_cons, List.filter_cons, ih, List.filter_cons]
    by_cases hp : p row <;> by_cases hq : q row <;> simp [hp, hq, h]

/-- Two updates one after the other, the second of which takes the place of the first. -/
lemma updateWhere_updateWhere {p q : OutboxRow → Bool} {f g : OutboxRow → OutboxRow}
    (hp : ∀ row, p (g row) = p row) (hf : ∀ row, f (g row) = f row) (table : List OutboxRow)
    (hg : ∀ row ∈ table, g row = f row ∨ (q row = true → p row = true)) :
    updateWhere p f (updateWhere q g table) = updateWhere (fun row => q row || p row) f table := by
  unfold updateWhere
  rw [List.map_map]
  refine List.map_congr_left fun row hrow => ?_
  simp only [Function.comp_apply]
  by_cases hq : q row = true
  · by_cases hpr : p row = true
    · simp [hq, hpr, hp, hf]
    · have hsame := (hg row hrow).resolve_right fun h => hpr (h hq)
      rw [if_pos hq, hp, if_neg hpr, if_pos (by rw [hq, Bool.true_or]), hsame]
  · simp [hq]

lemma updateWhere_congr {p q : OutboxRow → Bool} {f : OutboxRow → OutboxRow}
    (h : ∀ row ∈ table, p row = q row) : updateWhere p f table = updateWhere q f table := by
  unfold updateWhere
  refine List.map_congr_left fun row hrow => ?_
  rw [h row hrow]

/-- The rows that have been updated. -/
lemma filter_updateWhere_self {p : OutboxRow → Bool} {f : OutboxRow → OutboxRow}
    (hp : ∀ row, p (f row) = p row) (table : List OutboxRow) :
    (updateWhere p f table).filter p = (table.filter p).map f := by
  unfold updateWhere
  induction table with
  | nil => rfl
  | cons row table ih =>
    rw [List.map_cons, List.filter_cons, ih, List.filter_cons]
    by_cases hpr : p row <;> simp [hpr, hp]

lemma markPublished_markPublished (row : OutboxRow) :
    (row.markPublished now).markPublished now = row.markPublished now := rfl

/-- What is left of the backlog. -/
lemma backlog_drain (hids : (table.map fun row => row.id).Nodup) :
    backlog (drain k now table) = (backlog table).drop k := by
  rw [← filter_notMem_take (backlog_ids_nodup hids) k]
  conv_lhs => rw [backlog, drain, filter_updateWhere (fun row => rfl), ← filter_insertionSort]
  exact List.filter_congr fun row _ => (decide_not ..).symm

lemma drain_ids : (drain k now table).map (fun row => row.id) = table.map fun row => row.id := by
  unfold drain updateWhere
  rw [List.map_map]
  refine List.map_congr_left fun row _ => ?_
  simp only [Function.comp_apply]
  split <;> rfl

/-- Batch after batch is one batch. -/
lemma drain_drain (hids : (table.map fun row => row.id).Nodup) :
    drain m now (drain k now table) = drain (k + m) now table := by
  have hids_eq : ((backlog table).take (k + m)).map (fun row => row.id) =
      ((backlog table).take k).map (fun row => row.id) ++
        (((backlog table).drop k).take m).map fun row => row.id := by
    rw [List.take_add, List.map_append]
  rw [drain, backlog_drain hids, drain, drain, hids_eq, updateWhere_updateWhere
    (g := OutboxRow.markPublished now) (fun row => rfl) markPublished_markPublished
    _ (fun row _ => .inl rfl)]
  simp only [List.mem_append, Bool.decide_or]

lemma drain_zero : drain 0 now table = table := by
  simp [drain, updateWhere]

/-- When the whole backlog has been published, nothing is pending. -/
lemma not_pending_of_drain (hids : (table.map fun row => row.id).Nodup)
    (hk : (backlog table).length ≤ k) {row : OutboxRow} (hrow : row ∈ drain k now table) :
    row.status ≠ .pending := by
  intro hpending
  have hleft := mem_backlog.mpr ⟨hrow, hpending⟩
  rw [backlog_drain hids, List.drop_eq_nil_of_le hk] at hleft
  cases hleft

/-! ## A worker that is left alone -/

section Work

variable {cfg : Config} {o : OutboxConfig} {w : Relay}

/-- What a worker gets done while nothing fails and no row is locked: with the table, and with
what has been published. -/
def work (now : ℕ) (done : List OutboxRow × List Message) (c : OutboxCmd) :
    (List OutboxRow × List Message) × Except Exn c.Ret :=
  (((execOutbox done.1 now [] c).1, c.messages ++ done.2), .ok (execOutbox done.1 now [] c).2)

/-- Time passes, polls and sweeps begin, and the workers from the `n`-th on do their work: nothing
fails, and no row is locked by others. -/
def Smooth (n : ℕ) (_ : Relay) : RelayEvent → Prop
  | .sys (.tick _) => True
  | .poll => True
  | .sweep => True
  | .run b locked delivery => n ≤ b ∧ locked = [] ∧ delivery = .ok
  | _ => False

variable (cfg) in
/-- A worker comes to its end. -/
lemma exists_runs_work {n b : ℕ} (hle : n ≤ b) {l : Lease} {p : Processor Unit}
    (hworker : w.workers[b]? = some ⟨l, p, true⟩) : ∃ w', RelayRuns cfg o (Smooth n) w w' ∧
      w'.sys = w.sys ∧
      (w'.table, w'.published) = (p.perform (work w.sys.now) (w.table, w.published)).1 ∧
      w'.workers.length = w.workers.length := by
  induction p generalizing w l with
  | pure a => exact ⟨w, .refl, rfl, rfl, rfl⟩
  | throw e => exact ⟨w, .refl, rfl, rfl, rfl⟩
  | call c k ih =>
    have hlt : b < w.workers.length := (List.getElem?_eq_some_iff.mp hworker).1
    have hstep : w.step cfg o (.run b [] .ok) = some { (w.serve [] c .ok).1 with
        workers := w.workers.set b ⟨l.after c (w.serve [] c .ok).2, k (w.serve [] c .ok).2,
          true⟩ } := by
      simp only [Relay.step, hworker, Option.bind_some, Relay.runWorker]
    have hfirst : RelayRuns cfg o (Smooth n) w { (w.serve [] c .ok).1 with
        workers := w.workers.set b ⟨l.after c (w.serve [] c .ok).2, k (w.serve [] c .ok).2,
          true⟩ } := Runs.refl.tail (e := .run b [] .ok) ⟨hle, rfl, rfl⟩ hstep
    obtain ⟨w', hrun, hsys, hdone, hlength⟩ := ih (w.serve [] c .ok).2
      (w := { (w.serve [] c .ok).1 with
        workers := w.workers.set b ⟨l.after c (w.serve [] c .ok).2, k (w.serve [] c .ok).2,
          true⟩ }) (List.getElem?_set_self hlt)
    exact ⟨w', hfirst.trans hrun, hsys, hdone, hlength.trans List.length_set⟩

/-! ## A poll and a sweep -/

lemma perform_publishEntry (entry : OutboxRow) (table : List OutboxRow)
    (published : List Message) : (publishEntry o entry).perform (work now) (table, published) =
      ((updateWhere (fun row => row.id = entry.id) (OutboxRow.markPublished now) table,
        entry.message :: published), .ok ()) := by
  simp only [publishEntry, Processor.issue, Prog.perform_tryCatch, Prog.perform_bind,
    Prog.perform_command, work, execOutbox, OutboxCmd.messages, List.nil_append,
    List.singleton_append]

lemma perform_publishEntries (entries : List OutboxRow) (table : List OutboxRow)
    (published : List Message) :
    (publishEntries o entries).perform (work now) (table, published) =
      ((updateWhere (fun row => row.id ∈ entries.map fun row => row.id)
          (OutboxRow.markPublished now) table,
        (entries.map OutboxRow.message).reverse ++ published), .ok ()) := by
  induction entries generalizing table published with
  | nil => simp [publishEntries, updateWhere]
  | cons entry entries ih =>
    rw [publishEntries, Prog.perform_bind, perform_publishEntry]
    simp only
    rw [ih, updateWhere_updateWhere (g := OutboxRow.markPublished now) (fun row => rfl)
      markPublished_markPublished _ (fun row _ => .inl rfl)]
    simp

variable (now o) in
/-- A poll publishes the next batch of the backlog. -/
lemma perform_processOutbox (hids : (table.map fun row => row.id).Nodup)
    (published : List Message) : ∃ new, new.Perm (((backlog table).take o.batchSize).map
        OutboxRow.message) ∧
      ((processOutbox o).perform (work now) (table, published)).1 =
        (drain o.batchSize now table, new ++ published) := by
  let taken := fun row : OutboxRow =>
    decide (row.id ∈ ((backlog table).take o.batchSize).map fun row => row.id)
  have hclaimed : (updateWhere taken (OutboxRow.claim now) table).filter taken =
      (table.filter taken).map (OutboxRow.claim now) :=
    filter_updateWhere_self (f := OutboxRow.claim now) (fun row => rfl) table
  have hperm : (table.filter taken).Perm ((backlog table).take o.batchSize) := by
    refine (List.perm_ext_iff_of_nodup ?_ ?_).mpr fun row => ?_
    · exact (List.Nodup.of_map _ hids).filter _
    · exact (List.Nodup.of_map _ (backlog_ids_nodup hids)).sublist (List.take_sublist ..)
    · rw [List.mem_filter, decide_eq_true_eq, List.mem_map]
      constructor
      · rintro ⟨hrow, row', hrow', hid⟩
        have hin := (mem_backlog.mp (List.mem_of_mem_take hrow')).1
        rwa [← row_eq_of_id hids hin hrow hid]
      · exact fun hrow => ⟨(mem_backlog.mp (List.mem_of_mem_take hrow)).1, row, hrow, rfl⟩
  have hsame : ∀ row ∈ table, decide (row.id ∈ List.map ((fun row => row.id) ∘
      OutboxRow.claim now) (table.filter taken)) = taken row := by
    intro row hrow
    rw [Bool.eq_iff_iff, decide_eq_true_eq, List.mem_map]
    constructor
    · rintro ⟨row', hrow', hid⟩
      obtain ⟨hin, htaken⟩ := List.mem_filter.mp hrow'
      rwa [← row_eq_of_id hids hin hrow hid]
    · exact fun htaken => ⟨row, List.mem_filter.mpr ⟨hrow, htaken⟩, rfl⟩
  refine ⟨((table.filter taken).map OutboxRow.message).reverse,
    (List.reverse_perm _).trans (hperm.map _), ?_⟩
  rw [processOutbox, Prog.perform_bind, Processor.issue, Prog.perform_command]
  simp only [work, execOutbox, claimable_eq_backlog]
  rw [hclaimed, perform_publishEntries]
  simp only [OutboxCmd.messages, List.nil_append, List.map_map]
  refine Prod.ext ?_ rfl
  show updateWhere _ _ (updateWhere taken (OutboxRow.claim now) table) = _
  rw [updateWhere_updateWhere (g := OutboxRow.claim now) (fun row => rfl) (fun row => rfl) _ ?_,
    drain]
  · refine updateWhere_congr fun row hrow => ?_
    rw [hsame row hrow, Bool.or_self]
  · intro row hrow
    rw [hsame row hrow]
    exact .inr id

variable (cfg) in
/-- A poll that is left alone. -/
lemma exists_runs_poll {n : ℕ} (hle : n ≤ w.workers.length)
    (hids : (w.table.map fun row => row.id).Nodup) : ∃ w' new, RelayRuns cfg o (Smooth n) w w' ∧
      w'.sys = w.sys ∧ w'.workers.length = w.workers.length + 1 ∧
      new.Perm (((backlog w.table).take o.batchSize).map OutboxRow.message) ∧
      w'.table = drain o.batchSize w.sys.now w.table ∧ w'.published = new ++ w.published := by
  have hfirst : RelayRuns cfg o (Smooth n) w
      { w with workers := w.workers ++ [⟨{}, processOutbox o, true⟩] } :=
    Runs.refl.tail (e := .poll) trivial rfl
  obtain ⟨w', hrun, hsys, hdone, hlength⟩ := exists_runs_work cfg (o := o) hle
    (w := { w with workers := w.workers ++ [⟨{}, processOutbox o, true⟩] })
    List.getElem?_concat_length
  obtain ⟨new, hperm, hpoll⟩ := perform_processOutbox w.sys.now o hids w.published
  obtain ⟨htable, hpublished⟩ := Prod.ext_iff.mp (hdone.trans hpoll)
  exact ⟨w', new, hfirst.trans hrun, hsys, hlength.trans List.length_append, hperm, htable,
    hpublished⟩

variable (cfg) in
/-- Polls one after the other. -/
lemma exists_runs_polls {n : ℕ} (hle : n ≤ w.workers.length)
    (hids : (w.table.map fun row => row.id).Nodup) (k : ℕ) : ∃ w' new,
      RelayRuns cfg o (Smooth n) w w' ∧ w'.sys = w.sys ∧
      w'.workers.length = w.workers.length + k ∧
      new.Perm (((backlog w.table).take (k * o.batchSize)).map OutboxRow.message) ∧
      w'.table = drain (k * o.batchSize) w.sys.now w.table ∧
      w'.published = new ++ w.published := by
  induction k with
  | zero =>
    refine ⟨w, [], .refl, rfl, rfl, ?_, ?_, rfl⟩
    · rw [Nat.zero_mul, List.take_zero]
      exact .refl _
    · rw [Nat.zero_mul, drain_zero]
  | succ k ih =>
    obtain ⟨w₁, new₁, hrun₁, hsys₁, hlength₁, hperm₁, htable₁, hpublished₁⟩ := ih
    have hids₁ : (w₁.table.map fun row => row.id).Nodup := by
      rw [htable₁, drain_ids]
      exact hids
    obtain ⟨w₂, new₂, hrun₂, hsys₂, hlength₂, hperm₂, htable₂, hpublished₂⟩ :=
      exists_runs_poll cfg (o := o) (n := n) (by omega) hids₁
    refine ⟨w₂, new₂ ++ new₁, hrun₁.trans hrun₂, hsys₂.trans hsys₁, by omega, ?_, ?_, ?_⟩
    · rw [htable₁, backlog_drain hids] at hperm₂
      rw [Nat.succ_mul, List.take_add, List.map_append]
      exact (hperm₂.append hperm₁).trans List.perm_append_comm
    · rw [htable₂, htable₁, hsys₁, drain_drain hids, ← Nat.succ_mul]
    · rw [hpublished₂, hpublished₁, List.append_assoc]

variable (cfg) in
/-- A sweep that is left alone. -/
lemma exists_runs_sweep {n : ℕ} (hle : n ≤ w.workers.length) : ∃ w',
    RelayRuns cfg o (Smooth n) w w' ∧ w'.sys = w.sys ∧
      w'.workers.length = w.workers.length + 1 ∧ w'.published = w.published ∧
      w'.table = updateWhere (OutboxRow.stuck w.sys.now o.staleAfterMs) OutboxRow.recover
        w.table := by
  have hfirst : RelayRuns cfg o (Smooth n) w
      { w with workers := w.workers ++ [⟨{}, recoverStuckEntries o, true⟩] } :=
    Runs.refl.tail (e := .sweep) trivial rfl
  obtain ⟨w', hrun, hsys, hdone, hlength⟩ := exists_runs_work cfg (o := o) hle
    (w := { w with workers := w.workers ++ [⟨{}, recoverStuckEntries o, true⟩] })
    List.getElem?_concat_length
  have hsweep : ((recoverStuckEntries o).perform (work w.sys.now) (w.table, w.published)).1 =
      (updateWhere (OutboxRow.stuck w.sys.now o.staleAfterMs) OutboxRow.recover w.table,
        w.published) := by
    simp only [recoverStuckEntries, Processor.issue, Prog.perform_tryCatch, Prog.perform_bind,
      Prog.perform_command, work, execOutbox, OutboxCmd.messages, List.nil_append,
      Prog.perform_pure]
  obtain ⟨htable, hpublished⟩ := Prod.ext_iff.mp (hdone.trans hsweep)
  exact ⟨w', hfirst.trans hrun, hsys, hlength.trans List.length_append, hpublished, htable⟩

end Work

/-! ## Claims -/

section Claims

variable {cfg : Config} {o : OutboxConfig} {w w' : Relay} {ok : Relay → RelayEvent → Prop}

/-- A statement leaves no claim that is older than itself... -/
lemma claimedAt_exec {locked : List Uuid} {c : OutboxCmd}
    (h : ∀ row ∈ table, ∀ time ∈ row.claimedAt, time ≤ now) :
    ∀ row ∈ (execOutbox table now locked c).1, ∀ time ∈ row.claimedAt, time ≤ now := by
  intro row' hrow' time htime
  cases c with
  | publish message => exact h row' hrow' time htime
  | claimPendingEntries limit =>
    obtain ⟨row, hrow, ⟨-, rfl⟩ | ⟨-, rfl⟩⟩ := mem_updateWhere hrow'
    · obtain rfl := Option.some.inj htime
      exact le_rfl
    · exact h row' hrow time htime
  | recoverStuckEntries staleAfterMs =>
    obtain ⟨row, hrow, ⟨-, rfl⟩ | ⟨-, rfl⟩⟩ := mem_updateWhere hrow'
    · cases htime
    · exact h row' hrow time htime
  | markPublished id =>
    obtain ⟨row, hrow, ⟨-, rfl⟩ | ⟨-, rfl⟩⟩ := mem_updateWhere hrow'
    · cases htime
    · exact h row' hrow time htime
  | markFailed id error retryCount maxRetries =>
    obtain ⟨row, hrow, ⟨-, rfl⟩ | ⟨-, rfl⟩⟩ := mem_updateWhere hrow'
    · cases htime
    · exact h row' hrow time htime

/-- No claim is from the future. -/
lemma claimedAt_of_runs (h : RelayRuns cfg o ok Relay.initial w) :
    ∀ row ∈ w.table, ∀ time ∈ row.claimedAt, time ≤ w.sys.now := by
  refine h.invariant (I := fun w => ∀ row ∈ w.table, ∀ time ∈ row.claimedAt, time ≤ w.sys.now)
    ?_ fun w e w' _ hI _ hstep => ?_
  · intro row hrow
    cases hrow
  · cases Relay.step_of_eq hstep with
    | @sys e s' new hsys hnew =>
      have hnow : w.sys.now ≤ s'.now := by
        cases Sys.step_of_eq hsys with
        | run hth hrespond => exact (Sys.served_of_eq hrespond).frame.2.2.ge
        | tick ms => exact Nat.le_add_right _ _
        | _ => exact le_rfl
      intro row hrow time htime
      rcases List.mem_append.mp hrow with hrow | hrow
      · exact (hI row hrow time htime).trans hnow
      · obtain ⟨entry, -, rfl⟩ := List.mem_map.mp hrow
        cases htime
    | @run b locked delivery l c k hworker =>
      cases delivery with
      | fail => exact hI
      | ok => exact claimedAt_exec hI
      | lost => exact claimedAt_exec hI
    | poll => exact hI
    | sweep => exact hI
    | crash hworker => exact hI

end Claims

/-! ## Everything that is outstanding -/

namespace OutboxRow

/-- The row has still to be published. -/
def unfinished (row : OutboxRow) : Bool := row.status = .pending || row.status = .processing

/-- The rows that have still to be published, the oldest first. -/
def outstanding (table : List OutboxRow) : List OutboxRow :=
  (table.filter unfinished).insertionSort fun row row' => row.createdAt ≤ row'.createdAt

/-- The row without its claim. -/
def release (row : OutboxRow) : OutboxRow :=
  if row.status = .processing then row.recover else row

/-- The table when the first `k` outstanding rows have been published, and the others wait. -/
def settle (k now : ℕ) (table : List OutboxRow) : List OutboxRow := table.map fun row =>
  if row.id ∈ ((outstanding table).take k).map fun row => row.id then row.markPublished now
  else row.release

lemma release_frame (row : OutboxRow) : row.release.id = row.id ∧
    row.release.createdAt = row.createdAt ∧ row.release.message = row.message ∧
    ∀ now, row.release.markPublished now = row.markPublished now := by
  unfold release
  split <;> exact ⟨rfl, rfl, rfl, fun _ => rfl⟩

lemma release_pending (row : OutboxRow) :
    decide (row.release.status = .pending) = row.unfinished := by
  unfold release unfinished
  by_cases hstatus : row.status = .processing
  · simp [hstatus, recover]
  · simp [hstatus]

lemma release_status (row : OutboxRow) : row.release.status ≠ .processing := by
  unfold release
  split
  · simp [recover]
  · assumption

end OutboxRow

open OutboxRow (outstanding release settle release_frame)

lemma backlog_release : backlog (table.map release) = (outstanding table).map release := by
  have hpending : table.filter ((fun row => decide (row.status = .pending)) ∘ release) =
      table.filter OutboxRow.unfinished :=
    List.filter_congr fun row _ => row.release_pending
  unfold backlog outstanding
  rw [List.filter_map, hpending]
  refine (List.map_insertionSort _ _ release _ fun row _ row' _ => ?_).symm
  rw [(release_frame row).2.1, (release_frame row').2.1]

lemma drain_release : drain k now (table.map release) = settle k now table := by
  have hids : ((backlog (table.map release)).take k).map (fun row => row.id) =
      ((outstanding table).take k).map fun row => row.id := by
    rw [backlog_release, ← List.map_take, List.map_map]
    exact List.map_congr_left fun row _ => (release_frame row).1
  unfold drain settle updateWhere
  rw [hids, List.map_map]
  refine List.map_congr_left fun row _ => ?_
  simp only [Function.comp_apply, (release_frame row).1, (release_frame row).2.2.2,
    decide_eq_true_eq]

/-- A sweep that comes when all claims are stale. -/
lemma sweep_eq_release (hclaimed : ∀ row ∈ table, row.status = .processing →
    row.claimedAt ≠ none) (htime : ∀ row ∈ table, ∀ time ∈ row.claimedAt, time ≤ now)
    {stale : ℕ} : updateWhere (OutboxRow.stuck (now + stale + 1) stale) OutboxRow.recover table =
      table.map release := by
  unfold updateWhere release
  refine List.map_congr_left fun row hrow => ?_
  by_cases hprocessing : row.status = .processing
  · obtain ⟨time, hclaim⟩ := Option.ne_none_iff_exists'.mp (hclaimed row hrow hprocessing)
    have hle := htime row hrow time hclaim
    have hstuck : row.stuck (now + stale + 1) stale = true := by
      simp only [OutboxRow.stuck, hprocessing, hclaim, Option.any_some, decide_eq_true_eq,
        true_and]
      omega
    rw [if_pos hstuck, if_pos hprocessing]
  · rw [if_neg hprocessing, if_neg (by simp [OutboxRow.stuck, hprocessing])]

/-- From whatever state the relay is in: when the claims are stale, one sweep and `k` polls, all
left alone, publish the oldest `k` batches of the outstanding rows, each row once, and put the
other claims back.  With enough polls nothing is outstanding. -/
theorem outbox_drains {cfg : Config} {o : OutboxConfig} {w : Relay}
    {ok : Relay → RelayEvent → Prop} (hmax : 1 ≤ o.maxRetries)
    (h : RelayRuns cfg o ok Relay.initial w) (k : ℕ) : ∃ w' new,
      RelayRuns cfg o (Smooth w.workers.length) w w' ∧
      w'.workers.length = w.workers.length + (k + 1) ∧
      w'.published = new ++ w.published ∧
      new.Perm (((outstanding w.table).take (k * o.batchSize)).map OutboxRow.message) ∧
      w'.table = settle (k * o.batchSize) (w.sys.now + o.staleAfterMs + 1) w.table ∧
      ((outstanding w.table).length ≤ k * o.batchSize →
        ∀ row ∈ w'.table, row.status = .published ∨ row.status = .failed) := by
  have hinv := relayInv_of_runs h
  -- the claims become stale
  have htick : RelayRuns cfg o (Smooth w.workers.length) w
      { w with sys := { w.sys with now := w.sys.now + (o.staleAfterMs + 1) } } := by
    refine Runs.refl.tail (e := .sys (.tick (o.staleAfterMs + 1))) trivial ?_
    simp [Relay.step, Sys.step]
  obtain ⟨w₁, hrun₁, hsys₁, hlength₁, hpublished₁, htable₁⟩ :=
    exists_runs_sweep cfg (o := o) (n := w.workers.length)
      (w := { w with sys := { w.sys with now := w.sys.now + (o.staleAfterMs + 1) } }) le_rfl
  replace hlength₁ : w₁.workers.length = w.workers.length + 1 := hlength₁
  have hreleased : w₁.table = w.table.map release :=
    htable₁.trans (sweep_eq_release (fun row hrow hprocessing =>
      ((hinv.sound hmax row hrow).processing hprocessing).1) (claimedAt_of_runs h))
  have hids : (w₁.table.map fun row => row.id).Nodup := by
    have hsame : w₁.table.map (fun row => row.id) = w.table.map fun row => row.id := by
      rw [hreleased, List.map_map]
      exact List.map_congr_left fun row _ => (release_frame row).1
    rw [hsame]
    exact hinv.ids_nodup
  obtain ⟨w', new, hrun', hsys', hlength', hperm, htable', hpublished'⟩ :=
    exists_runs_polls cfg (o := o) (n := w.workers.length) (by rw [hlength₁]; omega)
      hids k
  have hmessages : ((outstanding w.table).take (k * o.batchSize)).map
      (OutboxRow.message ∘ release) =
        ((outstanding w.table).take (k * o.batchSize)).map OutboxRow.message :=
    List.map_congr_left fun row _ => (release_frame row).2.2.1
  have hfinal : w'.table = drain (k * o.batchSize) (w.sys.now + o.staleAfterMs + 1)
      (w.table.map release) := by
    rw [htable', hreleased, hsys₁, Nat.add_assoc]
  refine ⟨w', new, (htick.trans hrun₁).trans hrun', by rw [hlength', hlength₁]; omega, by
    rw [hpublished', hpublished₁], ?_, by rw [hfinal, drain_release], fun henough row hrow => ?_⟩
  · rwa [hreleased, backlog_release, ← List.map_take, List.map_map, hmessages] at hperm
  · rw [hfinal] at hrow
    have hlength : (backlog (w.table.map release)).length ≤ k * o.batchSize := by
      rw [backlog_release, List.length_map]
      exact henough
    have hpending := not_pending_of_drain (hreleased ▸ hids) hlength hrow
    have hprocessing : row.status ≠ .processing := by
      obtain ⟨row', hrow', ⟨-, rfl⟩ | ⟨-, rfl⟩⟩ := mem_updateWhere hrow
      · simp [OutboxRow.markPublished]
      · obtain ⟨row'', -, rfl⟩ := List.mem_map.mp hrow'
        exact row''.release_status
    cases hstatus : row.status with
    | pending => exact absurd hstatus hpending
    | processing => exact absurd hstatus hprocessing
    | published => exact .inl rfl
    | failed => exact .inr rfl

/-- A replica has claimed a row and died. -/
def abandonedRun : List RelayEvent := fundRun.map .sys ++ [.poll, .run 0 [] .ok, .crash 0]

theorem outbox_drains_abandoned : ∃ w w', RelayRuns {} {} anyStep Relay.initial w ∧
    (∃ row ∈ w.table, row.status = .processing) ∧
    RelayRuns {} {} (Smooth w.workers.length) w w' ∧
    ∀ row ∈ w'.table, row.status = .published ∨ row.status = .failed := by
  have hplay : (runAll (Relay.step {} {}) anyStep Relay.initial abandonedRun).any (fun w =>
      (∃ row ∈ w.table, row.status = .processing) ∧ (outstanding w.table).length ≤ 50) = true := by
    decide +kernel
  obtain ⟨w, hrun, hw⟩ := exists_of_runAll hplay
  simp only [Bool.decide_and, Bool.and_eq_true, decide_eq_true_eq] at hw
  obtain ⟨w', new, hrun', -, -, -, -, hdone⟩ :=
    outbox_drains (by decide) hrun 1
  exact ⟨w, w', hrun, hw.1, hrun', hdone hw.2⟩

end FxExchange
