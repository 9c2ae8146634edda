import FxExchange.Proofs.Leases

/-
# The retry budget

How often the publishing of a row may fail.  A worker counts on from the row as it was when it
claimed it, so the count is right as long as nobody else marks the row in the meantime: as long
as sweeps take rows from dead workers only.  A slow worker overwrites what has been counted since
its row was swept, and so reopens a row that has used up its retries.
-/

namespace FxExchange

open Transition

variable {cfg : Config} {o : OutboxConfig} {w w' : Relay} {e : RelayEvent} {α β : Type}

/-! ## Counting -/

/-- The row that is published. -/
def OutboxCmd.publishes : OutboxCmd → Option Uuid
  | publish message => some message.outboxId
  | _ => none

/-- The row of which the step records a failed attempt. -/
def Relay.recordedBy (w : Relay) : RelayEvent → Option Uuid
  | .run _ _ .fail => none
  | .run b _ _ => (w.next b).bind OutboxCmd.records
  | _ => none

/-- The row for which the step is a publish call that fails. -/
def Relay.failedBy (w : Relay) : RelayEvent → Option Uuid
  | .run _ _ .ok => none
  | .run b _ _ => (w.next b).bind OutboxCmd.publishes
  | _ => none

/-- Count one more for the row, if there is one. -/
def tally (count : Uuid → ℕ) (row : Option Uuid) (id : Uuid) : ℕ :=
  if row = some id then count id + 1 else count id

/-- The relay with the failures that there have been; these are history variables. -/
structure Tallied where
  relay : Relay
  /-- How many failed attempts to publish a row have been recorded. -/
  recorded : Uuid → ℕ
  /-- How many publish calls for a row have failed. -/
  failed : Uuid → ℕ

namespace Tallied

/-- Nothing has happened. -/
def initial : Tallied where
  relay := .initial
  recorded := fun _ => 0
  failed := fun _ => 0

/-- A step of the relay, counted. -/
def step (cfg : Config) (o : OutboxConfig) (x : Tallied) (e : RelayEvent) : Option Tallied :=
  (x.relay.step cfg o e).map fun relay =>
    { relay
      recorded := tally x.recorded (x.relay.recordedBy e)
      failed := tally x.failed (x.relay.failedBy e) }

end Tallied

/-- Runs of the relay with the failures counted, all of whose steps satisfy `ok`. -/
abbrev TalliedRuns (cfg : Config) (o : OutboxConfig) (ok : Relay → RelayEvent → Prop) :
    Tallied → Tallied → Prop :=
  Transition.Runs (Tallied.step cfg o) fun x e => ok x.relay e

variable {x x' : Tallied}

lemma Tallied.step_of_eq (h : x.step cfg o e = some x') :
    x.relay.step cfg o e = some x'.relay ∧ x'.recorded = tally x.recorded (x.relay.recordedBy e) ∧
      x'.failed = tally x.failed (x.relay.failedBy e) := by
  obtain ⟨relay, hrelay, rfl⟩ := Option.map_eq_some_iff.mp h
  exact ⟨hrelay, rfl, rfl⟩

/-- The relay does not see the counts. -/
lemma Tallied.relay_runs {ok : Relay → RelayEvent → Prop} (h : TalliedRuns cfg o ok x x') :
    RelayRuns cfg o ok x.relay x'.relay := by
  induction h with
  | refl => exact Runs.refl
  | tail _ hok hstep ih => exact ih.tail hok (step_of_eq hstep).1

lemma tally_self (count : Uuid → ℕ) (id : Uuid) : tally count (some id) id = count id + 1 :=
  if_pos rfl

lemma tally_of_ne {count : Uuid → ℕ} {row : Option Uuid} {id : Uuid} (h : row ≠ some id) :
    tally count row id = count id := if_neg h

lemma le_tally (count : Uuid → ℕ) (row : Option Uuid) (id : Uuid) :
    count id ≤ tally count row id := by
  unfold tally
  split
  · exact Nat.le_succ _
  · exact le_rfl

lemma recorded_mono {ok : Relay → RelayEvent → Prop} (h : TalliedRuns cfg o ok x x') (id : Uuid) :
    x.recorded id ≤ x'.recorded id := by
  induction h with
  | refl => exact le_rfl
  | tail _ _ hstep ih =>
    rw [(Tallied.step_of_eq hstep).2.1]
    exact ih.trans (le_tally _ _ _)

/-! ## When the counts are right -/

/-- To record a failed attempt does not fail, and the worker does not die before. -/
def Recordable (w : Relay) : RelayEvent → Prop
  | .run b _ .fail => (w.next b).bind OutboxCmd.records = none
  | .crash b => (w.next b).bind OutboxCmd.records = none
  | _ => True

/-- Moreover, every failed attempt is recorded. -/
def FailuresRecorded (w : Relay) (e : RelayEvent) : Prop := SweepsDead w e ∧ Recordable w e

instance (w : Relay) : DecidablePred (Recordable w)
  | .run b _ .fail => inferInstanceAs (Decidable ((w.next b).bind OutboxCmd.records = none))
  | .crash b => inferInstanceAs (Decidable ((w.next b).bind OutboxCmd.records = none))
  | .run _ _ .ok => isTrue trivial
  | .run _ _ .lost => isTrue trivial
  | .sys _ => isTrue trivial
  | .poll => isTrue trivial
  | .sweep => isTrue trivial

instance (w : Relay) : DecidablePred (FailuresRecorded w) := fun e =>
  inferInstanceAs (Decidable (SweepsDead w e ∧ Recordable w e))

/-! ## What the workers issue -/

/-- A property of the programs holds of all workers, if the processor starts with it and every
command hands it on. -/
lemma forall_workers {ok : Relay → RelayEvent → Prop} {P : Lease → Processor Unit → Prop}
    (h : RelayRuns cfg o ok Relay.initial w) (hpoll : P {} (processOutbox o))
    (hsweep : P {} (recoverStuckEntries o))
    (hcall : ∀ (w : Relay) locked delivery l c k, P l (.call c k) →
      P (l.after c (w.serve locked c delivery).2) (k (w.serve locked c delivery).2))
    {b : ℕ} {worker : Worker} (hworker : w.workers[b]? = some worker)
    (halive : worker.alive = true) : P worker.lease worker.prog := by
  revert b worker
  refine h.invariant (I := fun w => ∀ {b : ℕ} {worker : Worker}, w.workers[b]? = some worker →
    worker.alive = true → P worker.lease worker.prog) (by simp [Relay.initial])
    fun w e w' _ hP _ hstep b worker' hworker' halive => ?_
  cases Relay.moves_of_step hstep hworker' with
  | stays he hworker => exact hP hworker halive
  | starts hp =>
    rcases hp with rfl | rfl
    · exact hpoll
    · exact hsweep
  | dies hdead =>
    rw [hdead] at halive
    cases halive
  | runs he hworker => exact hcall w _ _ _ _ _ (hP hworker rfl)

/-- What a worker issues it may issue. -/
lemma attempting_of_runs {ok : Relay → RelayEvent → Prop}
    (h : RelayRuns cfg o ok Relay.initial w) {b : ℕ} {l : Lease} {c : OutboxCmd}
    {k : Except Exn c.Ret → Processor Unit}
    (hworker : w.workers[b]? = some ⟨l, .call c k, true⟩) :
    leaseGuard o l c ∧ attemptGuard l c := by
  have hwp := forall_workers (P := fun l p => p.wp (attempting o) (fun _ _ => True) l) h
    wp_processOutbox_attempting wp_recoverStuckEntries_attempting
    (fun w locked delivery l c k hp => hp.2 _ _ rfl) hworker rfl
  exact hwp.1

/-! ## What is recorded -/

/-- Only a statement that is carried out records anything. -/
lemma Relay.recordedBy_eq_none
    (he : ∀ b locked delivery, e = .run b locked delivery → delivery = .fail) :
    w.recordedBy e = none := by
  cases e with
  | run b locked delivery =>
    obtain rfl := he b locked delivery rfl
    rfl
  | _ => rfl

lemma Relay.recordedBy_run {b : ℕ} {locked : List Uuid} {delivery : Delivery} {c : OutboxCmd}
    (hdelivery : delivery ≠ .fail) (hnext : w.next b = some c) :
    w.recordedBy (.run b locked delivery) = c.records := by
  cases delivery with
  | fail => exact absurd rfl hdelivery
  | _ => exact (congrArg (Option.bind · OutboxCmd.records) hnext).trans (Option.bind_some ..)

lemma Relay.exists_recorder {id : Uuid} (h : w.recordedBy e = some id) :
    ∃ b locked delivery c, e = .run b locked delivery ∧ w.next b = some c ∧
      c.records = some id := by
  unfold recordedBy at h
  split at h
  · cases h
  · rename_i b locked delivery hdelivery
    obtain ⟨c, hc, hid⟩ := Option.bind_eq_some_iff.mp h
    exact ⟨b, locked, delivery, c, rfl, hc, hid⟩
  · cases h

/-! ## The counts -/

/-- The count of a row is that of its recorded failures, and whoever has claimed it knows it. -/
structure Tallied.Budget (o : OutboxConfig) (x : Tallied) : Prop where
  count : ∀ row ∈ x.relay.table, row.retryCount = x.recorded row.id
  fresh : ∀ id, (∀ row ∈ x.relay.table, row.id ≠ id) → x.recorded id = 0
  left : ∀ row ∈ x.relay.table, row.status = .pending ∨ row.status = .processing →
    row.retryCount = 0 ∨ row.retryCount < o.maxRetries
  snapshot : ∀ (b : ℕ) (worker : Worker), x.relay.workers[b]? = some worker →
    ∀ row ∈ worker.lease.claimed, worker.Holds row.id →
      row.retryCount = x.recorded row.id ∧ (row.retryCount = 0 ∨ row.retryCount < o.maxRetries)

namespace Tallied.Budget

/-- What is recorded for a row is what its count has become. -/
lemma count_step (h : x.Budget o) (hrun : RelayRuns cfg o SweepsDead Relay.initial x.relay)
    (hstep : x.step cfg o e = some x') {row' : OutboxRow} (hrow' : row' ∈ x'.relay.table) :
    row'.retryCount = x'.recorded row'.id := by
  obtain ⟨hrelay, hrecorded, -⟩ := Tallied.step_of_eq hstep
  rw [hrecorded]
  cases (relayInv_of_runs hrun).row_of_step hrelay hrow' with
  | same hrow he =>
    rw [Relay.recordedBy_eq_none he, tally_of_ne (Option.some_ne_none _).symm, h.count row' hrow]
  | new hstatus hcount hnew he =>
    rw [Relay.recordedBy_eq_none fun b locked delivery heq => absurd heq (he b locked delivery),
      tally_of_ne (Option.some_ne_none _).symm, hcount, h.fresh _ hnew]
  | @made b locked delivery c row he hdelivery hnext hrow hmakes =>
    rw [he, Relay.recordedBy_run hdelivery hnext, hmakes.id_eq]
    cases hmakes with
    | same hc => rw [tally_of_ne hc, h.count row' hrow]
    | markFailed =>
      -- it counts on from the row as it was claimed, which is as it is
      obtain ⟨l, k, hworker⟩ := Relay.exists_of_next hnext
      obtain ⟨⟨hheld, -⟩, row₀, hrow₀, hid, hcount⟩ := attempting_of_runs hrun hworker
      have hsnapshot := (h.snapshot b _ hworker row₀ hrow₀ ⟨rfl, hid.symm ▸ hheld⟩).1
      show _ = tally x.recorded (some row.id) row.id
      rw [tally_self, ← hid, ← hsnapshot]
      exact hcount
    | _ => exact (h.count row hrow).trans (tally_of_ne (by rintro ⟨⟩)).symm

/-- Whoever records a failure for a row holds it, so that the row is in the table. -/
lemma fresh_step (h : x.Budget o) (hrun : RelayRuns cfg o SweepsDead Relay.initial x.relay)
    (hstep : x.step cfg o e = some x') {id : Uuid} (hid : ∀ row ∈ x'.relay.table, row.id ≠ id) :
    x'.recorded id = 0 := by
  obtain ⟨hrelay, hrecorded, -⟩ := Tallied.step_of_eq hstep
  have hinv := relayInv_of_runs hrun
  have hnew : ∀ row ∈ x.relay.table, row.id ≠ id := by
    intro row hrow heq
    obtain ⟨row', hrow', hid', -⟩ := hinv.keeps hrelay row hrow
    exact hid row' hrow' (hid'.trans heq)
  rw [hrecorded, tally_of_ne, h.fresh id hnew]
  intro hby
  obtain ⟨b, -, -, c, -, hnext, hid⟩ := Relay.exists_recorder hby
  obtain ⟨error, retryCount, maxRetries, rfl⟩ := OutboxCmd.records_eq_some hid
  obtain ⟨worker, hworker, hholds⟩ := hinv.holds_of_next hnext fun l hl => hl.1
  obtain ⟨row, hrow, heq⟩ :=
    (leased_of_runs hrun).known worker (List.mem_of_getElem? hworker) id hholds
  exact hnew row hrow heq

lemma left_step (h : x.Budget o) (hrun : RelayRuns cfg o SweepsDead Relay.initial x.relay)
    (hstep : x.step cfg o e = some x') {row' : OutboxRow} (hrow' : row' ∈ x'.relay.table)
    (hstatus : row'.status = .pending ∨ row'.status = .processing) :
    row'.retryCount = 0 ∨ row'.retryCount < o.maxRetries := by
  obtain ⟨hrelay, -, -⟩ := Tallied.step_of_eq hstep
  cases (relayInv_of_runs hrun).row_of_step hrelay hrow' with
  | same hrow => exact h.left row' hrow hstatus
  | new _ hcount => exact Or.inl hcount
  | @made b locked delivery c row he hdelivery hnext hrow hmakes =>
    cases hmakes with
    | same => exact h.left row' hrow hstatus
    | claim hpending => exact h.left row hrow (Or.inl hpending)
    | recover hstuck => exact h.left row hrow (Or.inr (of_decide_eq_true hstuck).1)
    | markPublished => rcases hstatus with hstatus | hstatus <;> cases hstatus
    | @markFailed error retryCount maxRetries =>
      obtain ⟨l, k, hworker⟩ := Relay.exists_of_next hnext
      obtain rfl := (attempting_of_runs hrun hworker).1.2
      refine Or.inr (not_le.mp fun hmax => ?_)
      have hfailed : o.maxRetries ≤ retryCount := hmax
      simp [OutboxRow.markFailed, hfailed] at hstatus

/-- Nobody counts while a worker holds the row. -/
lemma snapshot_step (h : x.Budget o) (hrun : RelayRuns cfg o SweepsDead Relay.initial x.relay)
    (hstep : x.step cfg o e = some x') {b : ℕ} {worker' : Worker}
    (hworker' : x'.relay.workers[b]? = some worker') {row : OutboxRow}
    (hrow : row ∈ worker'.lease.claimed) (hholds : worker'.Holds row.id) :
    row.retryCount = x'.recorded row.id ∧ (row.retryCount = 0 ∨ row.retryCount < o.maxRetries) := by
  obtain ⟨hrelay, hrecorded, -⟩ := Tallied.step_of_eq hstep
  have hinv := relayInv_of_runs hrun
  cases Relay.held_of_step hrelay hworker' hholds with
  | kept hworker hholds₀ hclaimed hkept =>
    have hnot : x.relay.recordedBy e ≠ some row.id := by
      intro hby
      obtain ⟨b', locked, delivery, c, he, hnext, hid⟩ := Relay.exists_recorder hby
      exact ((leased_of_runs hrun).not_marked hinv hworker hholds₀ hkept he hnext).1 hid
    rw [hclaimed] at hrow
    rw [hrecorded, tally_of_ne hnot]
    exact h.snapshot b _ hworker row hrow hholds₀
  | claimed he hnext hclaimed hid =>
    subst he
    rw [hclaimed] at hrow
    obtain ⟨hin, -, row₀, hrow₀, -, hpending, hcount⟩ := of_claimed hinv.ids_nodup hrow
    rw [← Relay.table_of_run hrelay hnext] at hin
    exact ⟨h.count_step hrun hstep hin, hcount ▸ h.left row₀ hrow₀ (Or.inl hpending)⟩

theorem step (h : x.Budget o) (hrun : RelayRuns cfg o SweepsDead Relay.initial x.relay)
    (hstep : x.step cfg o e = some x') : x'.Budget o where
  count _ hrow' := h.count_step hrun hstep hrow'
  fresh _ hid := h.fresh_step hrun hstep hid
  left _ hrow' hstatus := h.left_step hrun hstep hrow' hstatus
  snapshot _ _ hworker' _ hrow hholds := h.snapshot_step hrun hstep hworker' hrow hholds

end Tallied.Budget

theorem budget_of_runs (h : TalliedRuns cfg o SweepsDead Tallied.initial x) : x.Budget o := by
  refine h.invariant (I := Tallied.Budget o) ?_ fun x e x' hrun hbudget _ hstep =>
    hbudget.step (Tallied.relay_runs hrun) hstep
  constructor <;> simp [Tallied.initial, Relay.initial]

/-! ## Failures that are recorded -/

/-- When a publish call fails, the next command is to record it. -/
def RecordsNext : Processor α → Prop
  | .pure _ => True
  | .throw _ => True
  | .call (.publish message) k => (∀ r, RecordsNext (k r)) ∧
      ∀ e, ∃ c k', k (.error e) = .call c k' ∧ c.records = some message.outboxId
  | .call _ k => ∀ r, RecordsNext (k r)

lemma RecordsNext.bind {p : Processor α} {f : α → Processor β} (hp : RecordsNext p)
    (hf : ∀ a, RecordsNext (f a)) : RecordsNext (p >>= f) := by
  show RecordsNext (p.bind f)
  induction p with
  | pure a => exact hf a
  | throw e => trivial
  | call c k ih =>
    cases c with
    | publish message =>
      refine ⟨fun r => ih r (hp.1 r), fun e => ?_⟩
      obtain ⟨c, k', hk, hc⟩ := hp.2 e
      exact ⟨c, fun r => (k' r).bind f, congrArg (Prog.bind · f) hk, hc⟩
    | _ => exact fun r => ih r (hp r)

lemma recordsNext_publishEntry (entry : OutboxRow) : RecordsNext (publishEntry o entry) := by
  refine ⟨fun r => ?_, fun e => ⟨_, _, rfl, rfl⟩⟩
  cases r with
  | error e => exact fun r => by cases r <;> trivial
  | ok a =>
    rintro (e | b)
    · exact fun r => by cases r <;> trivial
    · trivial

lemma recordsNext_publishEntries (entries : List OutboxRow) :
    RecordsNext (publishEntries o entries) := by
  induction entries with
  | nil => trivial
  | cons entry entries ih => exact (recordsNext_publishEntry entry).bind fun _ => ih

lemma recordsNext_processOutbox : RecordsNext (processOutbox o) := by
  rintro (e | rows)
  · trivial
  · exact recordsNext_publishEntries rows

lemma recordsNext_recoverStuckEntries : RecordsNext (recoverStuckEntries o) := by
  rintro (e | n) <;> trivial

lemma recordsNext_of_runs {ok : Relay → RelayEvent → Prop}
    (h : RelayRuns cfg o ok Relay.initial w) {b : ℕ} {l : Lease} {message : Message}
    {k : Except Exn Unit → Processor Unit}
    (hworker : w.workers[b]? = some ⟨l, .call (.publish message) k, true⟩) (e : Exn) :
    ∃ c k', k (.error e) = .call c k' ∧ c.records = some message.outboxId := by
  have hshape := forall_workers (P := fun _ p => RecordsNext p) h recordsNext_processOutbox
    recordsNext_recoverStuckEntries (fun w locked delivery l c k hp => by
      cases c with
      | publish message => exact hp.1 _
      | _ => exact hp _) hworker rfl
  exact hshape.2 e

/-- Nobody is about to record a failed attempt for a row that is about to be published. -/
lemma Relay.Leased.not_recording (h : w.Leased) {ok : Relay → RelayEvent → Prop}
    (hrun : RelayRuns cfg o ok Relay.initial w) {b : ℕ} {message : Message}
    (hnext : w.next b = some (.publish message)) (b' : ℕ) :
    (w.next b').bind OutboxCmd.records ≠ some message.outboxId := by
  intro hrecords
  obtain ⟨c, hnext', hid⟩ := Option.bind_eq_some_iff.mp hrecords
  obtain ⟨error, retryCount, maxRetries, rfl⟩ := OutboxCmd.records_eq_some hid
  obtain ⟨l, k, hworker⟩ := exists_of_next hnext
  obtain ⟨l', k', hworker'⟩ := exists_of_next hnext'
  obtain ⟨row, -, rfl, hheld⟩ := (attempting_of_runs hrun hworker).2
  have hheld' := (attempting_of_runs hrun hworker').1.1
  obtain rfl := h.apart b b' _ _ row.id hworker hworker' ⟨rfl, hheld⟩ ⟨rfl, hheld'⟩
  rw [hnext] at hnext'
  cases hnext'

/-- A worker that the step is not about stays as it is. -/
lemma Relay.next_of_step (hstep : w.step cfg o e = some w') {b : ℕ} {c : OutboxCmd}
    (hnext : w.next b = some c) (hrun : ∀ locked delivery, e ≠ .run b locked delivery)
    (hcrash : e ≠ .crash b) : w'.next b = some c := by
  obtain ⟨l, k, hworker⟩ := exists_of_next hnext
  have hlt : b < w.workers.length := (List.getElem?_eq_some_iff.mp hworker).1
  have hsame : w'.workers[b]? = w.workers[b]? := by
    cases Relay.step_of_eq hstep with
    | sys _ _ => rfl
    | poll => exact List.getElem?_append_left hlt
    | sweep => exact List.getElem?_append_left hlt
    | run => exact List.getElem?_set_ne fun heq => hrun _ _ (by rw [heq])
    | crash => exact List.getElem?_set_ne fun heq => hcrash (by rw [heq])
  rw [next, hsame]
  exact hnext

/-- Every failed publish call has been recorded, or is about to be. -/
def Tallied.Settled (x : Tallied) : Prop :=
  ∀ id, x.failed id ≤ x.recorded id ∨ (x.failed id = x.recorded id + 1 ∧
    ∃ b, (x.relay.next b).bind OutboxCmd.records = some id)

lemma Relay.exists_failed {id : Uuid} (h : w.failedBy e = some id) :
    ∃ b locked delivery message, e = .run b locked delivery ∧ delivery ≠ .ok ∧
      w.next b = some (.publish message) ∧ message.outboxId = id := by
  unfold failedBy at h
  split at h
  · cases h
  · rename_i b locked delivery hdelivery
    obtain ⟨c, hc, hid⟩ := Option.bind_eq_some_iff.mp h
    cases c with
    | publish message =>
      exact ⟨b, locked, delivery, message, rfl, hdelivery, hc, Option.some.inj hid⟩
    | _ => cases hid
  · cases h

lemma Relay.serve_of_ne_ok (w : Relay) (locked : List Uuid) (c : OutboxCmd) {delivery : Delivery}
    (hdelivery : delivery ≠ .ok) : (w.serve locked c delivery).2 = .error .unavailable := by
  cases delivery with
  | ok => exact absurd rfl hdelivery
  | _ => rfl

/-- A publish call that has failed is recorded next. -/
lemma Relay.records_of_failedBy {ok : Relay → RelayEvent → Prop}
    (hrun : RelayRuns cfg o ok Relay.initial w) (hstep : w.step cfg o e = some w') {id : Uuid}
    (hid : w.failedBy e = some id) : ∃ b message, w.next b = some (.publish message) ∧
      message.outboxId = id ∧ w.recordedBy e = none ∧
      (w'.next b).bind OutboxCmd.records = some id := by
  obtain ⟨b, locked, delivery, message, rfl, hdelivery, hnext, rfl⟩ := exists_failed hid
  refine ⟨b, message, hnext, rfl, ?_, ?_⟩
  · cases delivery with
    | fail => rfl
    | _ => exact congrArg (Option.bind · OutboxCmd.records) hnext
  · cases Relay.step_of_eq hstep with
    | @run b locked delivery l c k hworker =>
      obtain rfl := Option.some.inj ((next_eq hworker).symm.trans hnext)
      obtain ⟨c, k', hk, hc⟩ := recordsNext_of_runs hrun hworker .unavailable
      have hworker' : (w.workers.set b ⟨l.after (.publish message)
          (w.serve locked (.publish message) delivery).2,
          k (w.serve locked (.publish message) delivery).2, true⟩)[b]? =
            some ⟨l, .call c k', true⟩ := by
        rw [List.getElem?_set_self (List.getElem?_eq_some_iff.mp hworker).1,
          w.serve_of_ne_ok locked _ hdelivery, hk]
        rfl
      rw [next]
      exact (congrArg (fun worker => (worker.bind Worker.next).bind OutboxCmd.records)
        hworker').trans hc

lemma Tallied.Settled.step (h : x.Settled)
    (hrun : RelayRuns cfg o FailuresRecorded Relay.initial x.relay)
    (hok : FailuresRecorded x.relay e) (hstep : x.step cfg o e = some x') : x'.Settled := by
  obtain ⟨hrelay, hrecorded, hfailed⟩ := Tallied.step_of_eq hstep
  have hleased := leased_of_runs (hrun.mono fun _ _ => And.left)
  intro id
  rw [hrecorded, hfailed]
  by_cases hid : x.relay.failedBy e = some id
  · obtain ⟨b, message, hnext, rfl, hnone, hrecords⟩ := Relay.records_of_failedBy hrun hrelay hid
    rw [hid, hnone, tally_self, tally_of_ne (Option.some_ne_none _).symm]
    rcases h message.outboxId with hle | ⟨-, b', hb'⟩
    · rcases hle.lt_or_eq with hlt | heq
      · exact Or.inl hlt
      · exact Or.inr ⟨congrArg (· + 1) heq, b, hrecords⟩
    · exact absurd hb' (hleased.not_recording hrun hnext b')
  · rw [tally_of_ne hid]
    by_cases hby : x.relay.recordedBy e = some id
    · rw [hby, tally_self]
      rcases h id with hle | ⟨heq, -⟩
      · exact Or.inl (hle.trans (Nat.le_succ _))
      · exact Or.inl heq.le
    · rw [tally_of_ne hby]
      rcases h id with hle | ⟨heq, b, hb⟩
      · exact Or.inl hle
      · -- the worker does not die, and does not record it yet
        refine Or.inr ⟨heq, b, ?_⟩
        obtain ⟨c, hc, hcid⟩ := Option.bind_eq_some_iff.mp hb
        rw [Relay.next_of_step hrelay hc ?_ ?_]
        · exact hcid
        · rintro locked delivery rfl
          cases delivery with
          | fail => exact Option.some_ne_none id (hb.symm.trans hok.2)
          | _ => exact hby hb
        · rintro rfl
          exact Option.some_ne_none id (hb.symm.trans hok.2)

lemma settled_of_runs (h : TalliedRuns cfg o FailuresRecorded Tallied.initial x) : x.Settled := by
  refine h.invariant (I := Tallied.Settled) (fun id => Or.inl le_rfl)
    fun x e x' hrun hsettled hok hstep => hsettled.step (Tallied.relay_runs hrun) hok hstep

/-! ## The budget -/

lemma Relay.exists_of_publishes {b : ℕ} {id : Uuid}
    (h : (w.next b).bind OutboxCmd.publishes = some id) :
    ∃ message, w.next b = some (.publish message) ∧ message.outboxId = id := by
  obtain ⟨c, hnext, hid⟩ := Option.bind_eq_some_iff.mp h
  cases c with
  | publish message => exact ⟨message, hnext, Option.some.inj hid⟩
  | _ => cases hid

/-- While sweeps take rows from dead workers only, `retryCount` never decreases, it is the number
of failed attempts that have been recorded, and a row is published again only while fewer than
`maxRetries` have been; if every failure is recorded, only while fewer publish calls have
failed. -/
theorem retry_budget (h : TalliedRuns cfg o SweepsDead Tallied.initial x) :
    (∀ row ∈ x.relay.table, row.retryCount = x.recorded row.id) ∧
    (∀ x', TalliedRuns cfg o SweepsDead x x' → ∀ row ∈ x.relay.table,
      ∃ row' ∈ x'.relay.table, row'.id = row.id ∧ row.retryCount ≤ row'.retryCount) ∧
    (∀ b id, (x.relay.next b).bind OutboxCmd.publishes = some id →
      x.recorded id = 0 ∨ x.recorded id < o.maxRetries) ∧
    (TalliedRuns cfg o FailuresRecorded Tallied.initial x → ∀ b id,
      (x.relay.next b).bind OutboxCmd.publishes = some id →
        x.failed id = 0 ∨ x.failed id < o.maxRetries) := by
  have hrun : RelayRuns cfg o SweepsDead Relay.initial x.relay := Tallied.relay_runs h
  have hbudget := budget_of_runs h
  have hleft (b : ℕ) (id : Uuid) (hid : (x.relay.next b).bind OutboxCmd.publishes = some id) :
      x.recorded id = 0 ∨ x.recorded id < o.maxRetries := by
    obtain ⟨message, hnext, rfl⟩ := Relay.exists_of_publishes hid
    obtain ⟨l, k, hworker⟩ := Relay.exists_of_next hnext
    obtain ⟨row, hrow, rfl, hheld⟩ := (attempting_of_runs hrun hworker).2
    obtain ⟨hcount, hlt⟩ := hbudget.snapshot b _ hworker row hrow ⟨rfl, hheld⟩
    rwa [hcount] at hlt
  refine ⟨hbudget.count, fun x' h' row hrow => ?_, hleft, fun hall b id hid => ?_⟩
  · obtain ⟨row', hrow', hid⟩ : ∃ row' ∈ x'.relay.table, row'.id = row.id := by
      refine h'.invariant (I := fun x' => ∃ row' ∈ x'.relay.table, row'.id = row.id)
        ⟨row, hrow, rfl⟩ ?_
      rintro x₁ e x₂ hrun₁ ⟨row₁, hrow₁, hid₁⟩ - hstep
      have hinv := relayInv_of_runs (hrun.trans (Tallied.relay_runs hrun₁))
      obtain ⟨row₂, hrow₂, hid₂, -⟩ := hinv.keeps (Tallied.step_of_eq hstep).1 row₁ hrow₁
      exact ⟨row₂, hrow₂, hid₂.trans hid₁⟩
    refine ⟨row', hrow', hid, ?_⟩
    rw [hbudget.count row hrow, (budget_of_runs (h.trans h')).count row' hrow', hid]
    exact recorded_mono h' row.id
  · have hle : x.failed id ≤ x.recorded id := by
      rcases settled_of_runs hall id with hle | ⟨-, b', hb'⟩
      · exact hle
      · obtain ⟨message, hnext, rfl⟩ := Relay.exists_of_publishes hid
        exact absurd hb' ((leased_of_runs hrun).not_recording hrun hnext b')
    rcases hleft b id hid with hzero | hlt
    · exact Or.inl (Nat.le_zero.mp (hzero ▸ hle))
    · exact Or.inr (hle.trans_lt hlt)

/-- The next worker claims the row, and its publish call fails. -/
def failedAttempt (b : ℕ) : List RelayEvent :=
  [.poll, .run b [] .ok, .run b [] .fail, .run b [] .ok]

/-- A row has failed once and is about to be published again. -/
theorem retry_budget_second_attempt : ∃ x row b, TalliedRuns {} {} SweepsDead Tallied.initial x ∧
    row ∈ x.relay.table ∧ row.retryCount = 1 ∧ x.recorded row.id = 1 ∧
    (x.relay.next b).bind OutboxCmd.publishes = some row.id ∧ x.failed row.id < 5 := by
  have hplay : (runAll (Tallied.step {} {}) (fun x e => FailuresRecorded x.relay e) Tallied.initial
      (fundRun.map .sys ++ failedAttempt 0 ++ [.poll, .run 1 [] .ok])).any (fun x =>
        ∃ row ∈ x.relay.table, row.retryCount = 1 ∧ x.failed row.id = 1 ∧
          (x.relay.next 1).bind OutboxCmd.publishes = some row.id) = true := by decide +kernel
  obtain ⟨x, hrun, hx⟩ := exists_of_runAll hplay
  obtain ⟨row, hrow, hcount, hfailed, hnext⟩ := of_decide_eq_true hx
  have hrun' : TalliedRuns {} {} SweepsDead Tallied.initial x := hrun.mono fun _ _ => And.left
  obtain ⟨hrecorded, -, -, hbound⟩ := retry_budget hrun'
  refine ⟨x, row, 1, hrun', hrow, hcount, (hrecorded row hrow).symm.trans hcount, hnext, ?_⟩
  rcases hbound hrun 1 row.id hnext with hzero | hlt
  · rw [hzero] at hfailed
    cases hfailed
  · exact hlt

/-- A replica is slow, and its claim is swept; five attempts of other replicas fail. -/
def exhaustedRun : List RelayEvent :=
  fundRun.map .sys ++ [.poll, .run 0 [] .ok, .sys (.tick 60001), .sweep, .run 1 [] .ok] ++
    failedAttempt 2 ++ failedAttempt 3 ++ failedAttempt 4 ++ failedAttempt 5 ++ failedAttempt 6

/-- The row has used up its retries when the publish call of the slow replica fails, too.  That
sets its count back to 1, and it is published again after six failures. -/
theorem retry_count_overwritten : ∃ x x' row row',
    TalliedRuns {} {} anyStep Tallied.initial x ∧ TalliedRuns {} {} anyStep x x' ∧
    row ∈ x.relay.table ∧ row' ∈ x'.relay.table ∧ row'.id = row.id ∧ row.status = .failed ∧
    row'.retryCount < row.retryCount ∧ row'.retryCount ≠ x'.recorded row'.id ∧
    (x'.relay.next 7).bind OutboxCmd.publishes = some row.id ∧ 5 < x'.recorded row.id ∧
    5 < x'.failed row.id := by
  have hplay : (runAll (Tallied.step {} {}) anyStep Tallied.initial exhaustedRun).any (fun x =>
      (runAll (Tallied.step {} {}) anyStep x
        [.run 0 [] .fail, .run 0 [] .ok, .poll, .run 7 [] .ok]).any fun x' =>
          ∃ row ∈ x.relay.table, ∃ row' ∈ x'.relay.table, row'.id = row.id ∧
            row.status = .failed ∧ row'.retryCount < row.retryCount ∧
            row'.retryCount ≠ x'.recorded row'.id ∧
            (x'.relay.next 7).bind OutboxCmd.publishes = some row.id ∧
            5 < x'.recorded row.id ∧ 5 < x'.failed row.id) = true := by decide +kernel
  obtain ⟨x, hrun, hx⟩ := exists_of_runAll hplay
  obtain ⟨x', hrun', hx'⟩ := exists_of_runAll hx
  obtain ⟨row, hrow, row', hrow', hrest⟩ := of_decide_eq_true hx'
  exact ⟨x, x', row, row', hrun, hrun', hrow, hrow', hrest⟩

end FxExchange
