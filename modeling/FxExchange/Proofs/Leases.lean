import FxExchange.Proofs.Relay

/-
# Terminal rows of the outbox

A row that is PUBLISHED or FAILED stays so as long as a row has one worker at a time: a sweep
takes rows from dead workers only, and a worker that has marked a row as published learns
of it.  A sweep that takes a row from a slow worker gives it two, and the later mark of the
one overwrites that of the other.
-/

namespace FxExchange

open Transition

variable {cfg : Config} {o : OutboxConfig} {w w' : Relay} {e : RelayEvent}

/-! ## When a row has one worker at a time -/

/-- The command that a worker issues next. -/
def Relay.next (w : Relay) (b : ℕ) : Option OutboxCmd := w.workers[b]?.bind Worker.next

/-- A sweep takes no row that a living worker has claimed and not marked yet. -/
def Relay.sparesLiving (w : Relay) : OutboxCmd → Bool
  | .recoverStuckEntries staleAfterMs => ∀ row ∈ w.table,
      row.stuck w.sys.now staleAfterMs = true → ∀ worker ∈ w.workers, worker.alive = true →
        row.id ∉ worker.lease.held
  | _ => true

/-- The command marks an entry as published. -/
def OutboxCmd.marksPublished : OutboxCmd → Bool
  | markPublished _ => true
  | _ => false

/-- Sweeps take rows from dead workers only, and no mark as published is carried out without
its answer arriving. -/
def Undisturbed (w : Relay) : RelayEvent → Prop
  | .run b _ .ok => ∀ c ∈ w.next b, w.sparesLiving c = true
  | .run b _ .lost => ∀ c ∈ w.next b, w.sparesLiving c = true ∧ c.marksPublished = false
  | _ => True

instance (w : Relay) : DecidablePred (Undisturbed w)
  | .run b _ .ok => inferInstanceAs (Decidable (∀ c ∈ w.next b, w.sparesLiving c = true))
  | .run b _ .lost => inferInstanceAs (Decidable
      (∀ c ∈ w.next b, w.sparesLiving c = true ∧ c.marksPublished = false))
  | .run _ _ .fail => isTrue trivial
  | .sys _ => isTrue trivial
  | .poll => isTrue trivial
  | .sweep => isTrue trivial
  | .crash _ => isTrue trivial

/-- Sweeps take rows from dead workers only. -/
def SweepsDead (w : Relay) : RelayEvent → Prop
  | .run _ _ .fail => True
  | .run b _ _ => ∀ c ∈ w.next b, w.sparesLiving c = true
  | _ => True

instance (w : Relay) : DecidablePred (SweepsDead w)
  | .run b _ .ok => inferInstanceAs (Decidable (∀ c ∈ w.next b, w.sparesLiving c = true))
  | .run b _ .lost => inferInstanceAs (Decidable (∀ c ∈ w.next b, w.sparesLiving c = true))
  | .run _ _ .fail => isTrue trivial
  | .sys _ => isTrue trivial
  | .poll => isTrue trivial
  | .sweep => isTrue trivial
  | .crash _ => isTrue trivial

/-- Fewer steps are undisturbed. -/
lemma Undisturbed.sweepsDead (h : Undisturbed w e) : SweepsDead w e := by
  cases e with
  | run b locked delivery =>
    cases delivery with
    | ok => exact h
    | lost => exact fun c hc => (h c hc).1
    | fail => trivial
  | _ => trivial

lemma SweepsDead.spares {b : ℕ} {locked : List Uuid} {delivery : Delivery} {c : OutboxCmd}
    (h : SweepsDead w (.run b locked delivery)) (hdelivery : delivery ≠ .fail)
    (hnext : w.next b = some c) : w.sparesLiving c = true := by
  cases delivery with
  | fail => exact absurd rfl hdelivery
  | _ => exact h c hnext

/-! ## What a step does to a worker -/

/-- The workers after one of them has been replaced. -/
lemma worker_of_set {l : List Worker} {b b' : ℕ} {worker worker' : Worker}
    (h : (l.set b worker)[b']? = some worker') :
    (b' = b ∧ worker' = worker) ∨ (b' ≠ b ∧ l[b']? = some worker') := by
  rw [List.getElem?_set] at h
  split at h
  · split at h
    · exact Or.inl ⟨‹b = b'›.symm, (Option.some.inj h).symm⟩
    · cases h
  · exact Or.inr ⟨Ne.symm ‹_›, h⟩

/-- What a worker can be after a step. -/
inductive Worker.Moves (o : OutboxConfig) (w : Relay) (e : RelayEvent) (b : ℕ) : Worker → Prop
  | stays {worker : Worker} (he : ∀ locked delivery, e ≠ .run b locked delivery)
      (hworker : w.workers[b]? = some worker) : Moves o w e b worker
  | starts {p : Processor Unit} (hp : p = processOutbox o ∨ p = recoverStuckEntries o) :
    Moves o w e b ⟨{}, p, true⟩
  | dies {worker : Worker} (hdead : worker.alive = false) : Moves o w e b worker
  | runs {locked : List Uuid} {delivery : Delivery} {l : Lease} {c : OutboxCmd}
      {k : Except Exn c.Ret → Processor Unit} (he : e = .run b locked delivery)
      (hworker : w.workers[b]? = some ⟨l, .call c k, true⟩) :
      Moves o w e b
        ⟨l.after c (w.serve locked c delivery).2, k (w.serve locked c delivery).2, true⟩

lemma Relay.moves_of_step (hstep : w.step cfg o e = some w') {b : ℕ} {worker' : Worker}
    (hworker' : w'.workers[b]? = some worker') : worker'.Moves o w e b := by
  -- the worker that is started comes last
  have hstarted {p : Processor Unit} (hp : p = processOutbox o ∨ p = recoverStuckEntries o)
      (he : ∀ locked delivery, e ≠ .run b locked delivery)
      (hin : (w.workers ++ [⟨{}, p, true⟩])[b]? = some worker') : worker'.Moves o w e b := by
    rw [List.getElem?_append] at hin
    split at hin
    · exact .stays he hin
    · rw [List.mem_singleton.mp (List.mem_of_getElem? hin)]
      exact .starts hp
  cases Relay.step_of_eq hstep with
  | sys _ _ => exact .stays (by simp) hworker'
  | poll => exact hstarted (Or.inl rfl) (by simp) hworker'
  | sweep => exact hstarted (Or.inr rfl) (by simp) hworker'
  | run hworker =>
    rcases worker_of_set hworker' with ⟨rfl, rfl⟩ | ⟨hne, hold⟩
    · exact .runs rfl hworker
    · refine .stays (fun locked delivery he => ?_) hold
      cases he
      exact hne rfl
  | crash hworker =>
    rcases worker_of_set hworker' with ⟨-, rfl⟩ | ⟨-, hold⟩
    · exact .dies rfl
    · exact .stays (by simp) hold

/-- The command that a worker issues next, with what it goes on with. -/
lemma Relay.exists_of_next {b : ℕ} {c : OutboxCmd} (h : w.next b = some c) :
    ∃ l k, w.workers[b]? = some ⟨l, .call c k, true⟩ := by
  obtain ⟨worker, hworker, hnext⟩ := Option.bind_eq_some_iff.mp h
  obtain ⟨l, p, alive⟩ := worker
  unfold Worker.next at hnext
  split at hnext
  · rename_i c' k halive hprog
    obtain rfl := Option.some.inj hnext
    obtain rfl : alive = true := halive
    obtain rfl : p = .call c' k := hprog
    exact ⟨l, k, hworker⟩
  · cases hnext

/-! ## What a statement does to the status of a row -/

/-- The statement may change the status of the row. -/
def OutboxCmd.Touches (now : ℕ) (row : OutboxRow) : OutboxCmd → Prop
  | claimPendingEntries _ => row.status = .pending
  | recoverStuckEntries staleAfterMs => row.stuck now staleAfterMs = true
  | markPublished id => row.id = id
  | markFailed id _ _ _ => row.id = id
  | publish _ => False

/-- A row after a statement. -/
lemma exists_updateWhere {p : OutboxRow → Bool} {f : OutboxRow → OutboxRow}
    {table : List OutboxRow} {row : OutboxRow} (hrow : row ∈ table)
    (hid : ∀ row, (f row).id = row.id) : ∃ row' ∈ updateWhere p f table, row'.id = row.id ∧
      (row'.status = row.status ∨ p row = true) := by
  refine ⟨_, List.mem_map_of_mem hrow, ?_⟩
  split
  · exact ⟨hid row, Or.inr ‹_›⟩
  · exact ⟨rfl, Or.inl rfl⟩

lemma exists_execOutbox {table : List OutboxRow} (now : ℕ) (locked : List Uuid) (c : OutboxCmd)
    (hids : (table.map fun row => row.id).Nodup) {row : OutboxRow} (hrow : row ∈ table) :
    ∃ row' ∈ (execOutbox table now locked c).1, row'.id = row.id ∧
      (row'.status = row.status ∨ c.Touches now row) := by
  cases c with
  | claimPendingEntries limit =>
    obtain ⟨row', hrow', hid, hstatus⟩ := exists_updateWhere
      (p := fun row => row.id ∈ OutboxRow.claimable limit locked table) (f := OutboxRow.claim now)
      hrow fun _ => rfl
    refine ⟨row', hrow', hid, hstatus.imp_right fun hp => ?_⟩
    obtain ⟨row₀, hrow₀, hid₀, hpending⟩ := exists_of_claimable (of_decide_eq_true hp)
    obtain rfl := row_eq_of_id hids hrow₀ hrow hid₀
    exact hpending
  | recoverStuckEntries staleAfterMs => exact exists_updateWhere hrow fun _ => rfl
  | markPublished id =>
    obtain ⟨row', hrow', hid, hstatus⟩ := exists_updateWhere (p := fun row => row.id = id)
      (f := OutboxRow.markPublished now) hrow fun _ => rfl
    exact ⟨row', hrow', hid, hstatus.imp_right fun hp => show row.id = id from of_decide_eq_true hp⟩
  | markFailed id error retryCount maxRetries =>
    obtain ⟨row', hrow', hid, hstatus⟩ := exists_updateWhere (p := fun row => row.id = id)
      (f := OutboxRow.markFailed error retryCount maxRetries) hrow fun _ => rfl
    exact ⟨row', hrow', hid, hstatus.imp_right fun hp => show row.id = id from of_decide_eq_true hp⟩
  | publish message => exact ⟨row, hrow, rfl, Or.inl rfl⟩

/-- The row whose failed attempt the statement records. -/
def OutboxCmd.records : OutboxCmd → Option Uuid
  | markFailed id _ _ _ => some id
  | _ => none

lemma OutboxCmd.records_eq_some {c : OutboxCmd} {id : Uuid} (h : c.records = some id) :
    ∃ error retryCount maxRetries, c = .markFailed id error retryCount maxRetries := by
  unfold records at h
  split at h
  · obtain rfl := Option.some.inj h
    exact ⟨_, _, _, rfl⟩
  · cases h

/-- What a statement makes of a row. -/
inductive OutboxCmd.Makes (now : ℕ) (row : OutboxRow) : OutboxCmd → OutboxRow → Prop
  | same {c : OutboxCmd} (hc : c.records ≠ some row.id) : Makes now row c row
  | claim {limit : ℕ} (hpending : row.status = .pending) :
    Makes now row (.claimPendingEntries limit) (row.claim now)
  | recover {staleAfterMs : ℕ} (hstuck : row.stuck now staleAfterMs = true) :
    Makes now row (.recoverStuckEntries staleAfterMs) row.recover
  | markPublished : Makes now row (.markPublished row.id) (row.markPublished now)
  | markFailed {error : String} {retryCount maxRetries : ℕ} :
    Makes now row (.markFailed row.id error retryCount maxRetries)
      (row.markFailed error retryCount maxRetries)

lemma OutboxCmd.Makes.id_eq {now : ℕ} {row row' : OutboxRow} {c : OutboxCmd}
    (h : c.Makes now row row') : row'.id = row.id := by
  cases h <;> rfl

lemma exists_makes {table : List OutboxRow} {now : ℕ} {locked : List Uuid} {c : OutboxCmd}
    (hids : (table.map fun row => row.id).Nodup) {row' : OutboxRow}
    (h : row' ∈ (execOutbox table now locked c).1) : ∃ row ∈ table, c.Makes now row row' := by
  cases c with
  | claimPendingEntries limit =>
    obtain ⟨row, hrow, ⟨hp, rfl⟩ | ⟨-, rfl⟩⟩ := mem_updateWhere h
    · obtain ⟨row₀, hrow₀, hid, hpending⟩ := exists_of_claimable (of_decide_eq_true hp)
      obtain rfl := row_eq_of_id hids hrow₀ hrow hid
      exact ⟨row₀, hrow, .claim hpending⟩
    · exact ⟨row', hrow, .same (by rintro ⟨⟩)⟩
  | recoverStuckEntries staleAfterMs =>
    obtain ⟨row, hrow, ⟨hp, rfl⟩ | ⟨-, rfl⟩⟩ := mem_updateWhere h
    · exact ⟨row, hrow, .recover hp⟩
    · exact ⟨row', hrow, .same (by rintro ⟨⟩)⟩
  | markPublished id =>
    obtain ⟨row, hrow, ⟨hp, rfl⟩ | ⟨-, rfl⟩⟩ := mem_updateWhere h
    · obtain rfl : row.id = id := of_decide_eq_true hp
      exact ⟨row, hrow, .markPublished⟩
    · exact ⟨row', hrow, .same (by rintro ⟨⟩)⟩
  | markFailed id error retryCount maxRetries =>
    obtain ⟨row, hrow, ⟨hp, rfl⟩ | ⟨hp, rfl⟩⟩ := mem_updateWhere h
    · obtain rfl : row.id = id := of_decide_eq_true hp
      exact ⟨row, hrow, .markFailed⟩
    · refine ⟨row', hrow, .same fun hid => ?_⟩
      exact of_decide_eq_false hp (Option.some.inj hid).symm
  | publish message => exact ⟨row', h, .same (by rintro ⟨⟩)⟩

/-- How a row has come into the table. -/
inductive Relay.Row (w : Relay) (e : RelayEvent) (row' : OutboxRow) : Prop
  | same (hrow : row' ∈ w.table)
      (he : ∀ b locked delivery, e = .run b locked delivery → delivery = .fail) : Row w e row'
  /-- It is inserted. -/
  | new (hstatus : row'.status = .pending) (hcount : row'.retryCount = 0)
      (hnew : ∀ row ∈ w.table, row.id ≠ row'.id)
      (he : ∀ b locked delivery, e ≠ .run b locked delivery) : Row w e row'
  /-- A statement is carried out. -/
  | made {b : ℕ} {locked : List Uuid} {delivery : Delivery} {c : OutboxCmd} {row : OutboxRow}
      (he : e = .run b locked delivery) (hdelivery : delivery ≠ .fail) (hnext : w.next b = some c)
      (hrow : row ∈ w.table) (hmakes : c.Makes w.sys.now row row') : Row w e row'

/-! ## Who holds a row -/

/-- The worker is alive, and has claimed the row and not marked it yet. -/
structure Worker.Holds (worker : Worker) (id : Uuid) : Prop where
  alive : worker.alive = true
  held : id ∈ worker.lease.held

/-- Every row that is held is PROCESSING and held by one worker. -/
structure Relay.Owned (w : Relay) : Prop where
  processing : ∀ worker ∈ w.workers, ∀ id, worker.Holds id →
    ∃ row ∈ w.table, row.id = id ∧ row.status = .processing
  nodup : ∀ worker ∈ w.workers, worker.alive = true → worker.lease.held.Nodup
  apart : ∀ (b b' : ℕ) (worker worker' : Worker) (id : Uuid), w.workers[b]? = some worker →
    w.workers[b']? = some worker' → worker.Holds id → worker'.Holds id → b = b'

/-- What the rows of the table become: their ids stay, and a status changes only where `P`
allows it. -/
def Keeps (P : OutboxRow → Prop) (table table' : List OutboxRow) : Prop :=
  ∀ row ∈ table, ∃ row' ∈ table', row'.id = row.id ∧ (row'.status = row.status ∨ P row)

/-- Only statements that are carried out touch rows. -/
def Relay.Touched (w : Relay) (row : OutboxRow) : RelayEvent → Prop
  | .run b _ delivery => delivery ≠ .fail ∧ ∃ c ∈ w.next b, c.Touches w.sys.now row
  | _ => False

lemma Relay.next_eq {b : ℕ} {l : Lease} {c : OutboxCmd} {k : Except Exn c.Ret → Processor Unit}
    (hworker : w.workers[b]? = some ⟨l, .call c k, true⟩) : w.next b = some c := by
  rw [next, hworker]
  rfl

lemma Relay.Inv.keeps (h : Relay.Inv cfg o w) (hstep : w.step cfg o e = some w') :
    Keeps (fun row => w.Touched row e) w.table w'.table := by
  intro row hrow
  cases Relay.step_of_eq hstep with
  | sys _ _ => exact ⟨row, List.mem_append_left _ hrow, rfl, Or.inl rfl⟩
  | @run b locked delivery l c k hworker =>
    have hexec := exists_execOutbox w.sys.now locked c h.ids_nodup hrow
    obtain ⟨row', hrow', hid, hstatus⟩ := hexec
    cases delivery with
    | fail => exact ⟨row, hrow, rfl, Or.inl rfl⟩
    | ok => exact ⟨row', hrow', hid, hstatus.imp_right fun htouches =>
        ⟨by simp, c, Relay.next_eq hworker, htouches⟩⟩
    | lost => exact ⟨row', hrow', hid, hstatus.imp_right fun htouches =>
        ⟨by simp, c, Relay.next_eq hworker, htouches⟩⟩
  | _ => exact ⟨row, hrow, rfl, Or.inl rfl⟩

/-- A worker whose next command is for the holder of a row holds it. -/
lemma Relay.Inv.holds_of_next (h : Relay.Inv cfg o w) {b : ℕ} {c : OutboxCmd} {id : Uuid}
    (hc : w.next b = some c) (hguard : ∀ l, leaseGuard o l c → id ∈ l.held) :
    ∃ worker, w.workers[b]? = some worker ∧ worker.Holds id := by
  obtain ⟨l, k, hworker⟩ := Relay.exists_of_next hc
  have hwp := h.programs _ (List.mem_of_getElem? hworker) rfl
  exact ⟨_, hworker, rfl, hguard _ hwp.1⟩

lemma Relay.Inv.row_of_step (h : Relay.Inv cfg o w) (hstep : w.step cfg o e = some w')
    {row' : OutboxRow} (hrow' : row' ∈ w'.table) : w.Row e row' := by
  have hids' := (h.step hstep).ids_nodup
  cases Relay.step_of_eq hstep with
  | @sys e s' new hsys hnew =>
    rcases List.mem_append.mp hrow' with hrow | hrow
    · exact .same hrow (by simp)
    · -- an inserted row is PENDING and has not been tried
      obtain ⟨entry, hentry, rfl⟩ := List.mem_map.mp hrow
      obtain ⟨hstatus, hcount⟩ := new_of_outbox (h.reachable.tail trivial hsys)
        (hnew ▸ List.mem_append_right _ hentry : entry ∈ s'.db.outbox)
      refine .new hstatus hcount (fun row hin hid => ?_) (by simp)
      rw [List.map_append] at hids'
      exact (List.nodup_append.mp hids').2.2 _ (List.mem_map_of_mem hin) _
        (List.mem_map_of_mem hrow) hid
  | @run b locked delivery l c k hworker =>
    have hnext := Relay.next_eq hworker
    cases delivery with
    | fail =>
      refine .same hrow' fun _ _ _ he => ?_
      cases he
      rfl
    | ok =>
      obtain ⟨row, hrow, hmakes⟩ := exists_makes h.ids_nodup hrow'
      exact .made rfl (by simp) hnext hrow hmakes
    | lost =>
      obtain ⟨row, hrow, hmakes⟩ := exists_makes h.ids_nodup hrow'
      exact .made rfl (by simp) hnext hrow hmakes
  | _ => exact .same hrow' (by simp)

/-- A row that is held is not PENDING, and held by one worker. -/
structure Relay.Leased (w : Relay) : Prop where
  known : ∀ worker ∈ w.workers, ∀ id, worker.Holds id → ∃ row ∈ w.table, row.id = id
  waits : ∀ worker ∈ w.workers, ∀ row ∈ w.table, worker.Holds row.id → row.status ≠ .pending
  nodup : ∀ worker ∈ w.workers, worker.alive = true → worker.lease.held.Nodup
  apart : ∀ (b b' : ℕ) (worker worker' : Worker) (id : Uuid), w.workers[b]? = some worker →
    w.workers[b']? = some worker' → worker.Holds id → worker'.Holds id → b = b'

/-- Only a claim that succeeds gives rows to a worker. -/
lemma Lease.held_after {l : Lease} {c : OutboxCmd} {r : Except Exn c.Ret}
    (hc : (∃ e, r = .error e) ∨ ∀ limit, c ≠ .claimPendingEntries limit) :
    (l.after c r).held.Sublist l.held := by
  cases r with
  | error e => cases c <;> first | exact List.Sublist.refl _ | exact List.nil_sublist _
  | ok a =>
    have hne : ∀ limit, c ≠ .claimPendingEntries limit := hc.resolve_left (by simp)
    cases c with
    | claimPendingEntries limit => exact absurd rfl (hne limit)
    | markPublished id => exact List.erase_sublist
    | markFailed id error retryCount maxRetries => exact List.erase_sublist
    | _ => exact List.Sublist.refl _

/-- What a command leaves of the rows that were claimed. -/
lemma Lease.claimed_after {l : Lease} {c : OutboxCmd} {r : Except Exn c.Ret}
    (hc : (∃ e, r = .error e) ∨ ∀ limit, c ≠ .claimPendingEntries limit) :
    (l.after c r).claimed = l.claimed := by
  cases r with
  | error e => cases c <;> rfl
  | ok a =>
    cases c with
    | claimPendingEntries limit => exact absurd rfl (hc.resolve_left (by simp) limit)
    | _ => rfl

/-- Who has marked a row holds it no longer, nor who has tried to record a failed attempt. -/
lemma Lease.released {l : Lease} {c : OutboxCmd} {r : Except Exn c.Ret} {id : Uuid}
    (hnodup : l.held.Nodup)
    (hc : c.records = some id ∨ c = .markPublished id ∧ ∃ a, r = .ok a) :
    id ∉ (l.after c r).held := by
  rcases hc with hc | ⟨rfl, a, rfl⟩
  · obtain ⟨error, retryCount, maxRetries, rfl⟩ := OutboxCmd.records_eq_some hc
    cases r with
    | ok a => exact hnodup.not_mem_erase
    | error e => exact List.not_mem_nil
  · exact hnodup.not_mem_erase

/-- A statement that is carried out is a claim, or it has failed or is another one. -/
lemma Relay.serve_cases (w : Relay) (locked : List Uuid) (c : OutboxCmd) (delivery : Delivery) :
    (delivery = .ok ∧ ∃ limit, c = .claimPendingEntries limit) ∨
      (∃ e, (w.serve locked c delivery).2 = .error e) ∨
        ∀ limit, c ≠ .claimPendingEntries limit := by
  cases delivery with
  | ok =>
    cases c with
    | claimPendingEntries limit => exact Or.inl ⟨rfl, limit, rfl⟩
    | _ => exact Or.inr (Or.inr fun _ => OutboxCmd.noConfusion)
  | lost => exact Or.inr (Or.inl ⟨_, rfl⟩)
  | fail => exact Or.inr (Or.inl ⟨_, rfl⟩)

/-- How a worker has come to hold a row. -/
inductive Relay.Held (w : Relay) (e : RelayEvent) (b : ℕ) (worker' : Worker) (id : Uuid) : Prop
  /-- It held it before, and has not given it up. -/
  | kept {worker : Worker} (hworker : w.workers[b]? = some worker) (hholds : worker.Holds id)
      (hclaimed : worker'.lease.claimed = worker.lease.claimed)
      (hkept : ∀ locked delivery l c k, e = .run b locked delivery →
        w.workers[b]? = some ⟨l, .call c k, true⟩ →
          id ∈ (l.after c (w.serve locked c delivery).2).held) : Held w e b worker' id
  /-- It has claimed it. -/
  | claimed {locked : List Uuid} {limit : ℕ} (he : e = .run b locked .ok)
      (hnext : w.next b = some (.claimPendingEntries limit))
      (hclaimed : worker'.lease.claimed =
        (execOutbox w.table w.sys.now locked (.claimPendingEntries limit)).2)
      (hid : id ∈ worker'.lease.claimed.map fun row => row.id) : Held w e b worker' id

lemma Relay.held_of_step (hstep : w.step cfg o e = some w') {b : ℕ} {worker' : Worker}
    (hworker' : w'.workers[b]? = some worker') {id : Uuid} (hholds : worker'.Holds id) :
    w.Held e b worker' id := by
  cases Relay.moves_of_step hstep hworker' with
  | stays he hworker =>
    exact .kept hworker hholds rfl fun locked delivery _ _ _ heq => absurd heq (he locked delivery)
  | starts hp => exact absurd hholds.held List.not_mem_nil
  | dies hdead =>
    rw [hholds.alive] at hdead
    cases hdead
  | @runs locked delivery l c k he hworker =>
    subst he
    rcases w.serve_cases locked c delivery with ⟨rfl, limit, rfl⟩ | hother
    · exact .claimed rfl (Relay.next_eq hworker) rfl hholds.held
    · refine .kept hworker ⟨rfl, (Lease.held_after hother).subset hholds.held⟩
        (Lease.claimed_after hother) fun _ _ l' c' k' he hworker' => ?_
      cases he
      rw [hworker] at hworker'
      cases hworker'
      exact hholds.held

/-- A row that is claimed is PROCESSING, and was PENDING. -/
lemma of_claimed {table : List OutboxRow} {now limit : ℕ} {locked : List Uuid} {row : OutboxRow}
    (hids : (table.map fun row => row.id).Nodup)
    (h : row ∈ (execOutbox table now locked (.claimPendingEntries limit)).2) :
    row ∈ (execOutbox table now locked (.claimPendingEntries limit)).1 ∧
      row.status = .processing ∧ ∃ row₀ ∈ table, row₀.id = row.id ∧ row₀.status = .pending ∧
        row₀.retryCount = row.retryCount := by
  obtain ⟨hrow, hin⟩ := List.mem_filter.mp h
  obtain ⟨row₀, hrow₀, ⟨hp, rfl⟩ | ⟨hp, rfl⟩⟩ := mem_updateWhere hrow
  · obtain ⟨row₁, hrow₁, hid, hpending⟩ := exists_of_claimable (of_decide_eq_true hp)
    obtain rfl := row_eq_of_id hids hrow₁ hrow₀ hid
    exact ⟨hrow, rfl, row₁, hrow₁, rfl, hpending, rfl⟩
  · rw [hin] at hp
    cases hp

lemma Relay.table_of_run {b : ℕ} {locked : List Uuid} {c : OutboxCmd}
    (hstep : w.step cfg o (.run b locked .ok) = some w') (hnext : w.next b = some c) :
    w'.table = (execOutbox w.table w.sys.now locked c).1 := by
  cases Relay.step_of_eq hstep with
  | run hworker =>
    rw [Relay.next_eq hworker] at hnext
    obtain rfl := Option.some.inj hnext
    rfl

/-- A row that has just been claimed is PROCESSING. -/
lemma Relay.Inv.processing_of_claimed (h : Relay.Inv cfg o w) {b limit : ℕ} {locked : List Uuid}
    (hstep : w.step cfg o (.run b locked .ok) = some w')
    (hnext : w.next b = some (.claimPendingEntries limit)) {id : Uuid} (hid : id ∈
      (execOutbox w.table w.sys.now locked (.claimPendingEntries limit)).2.map fun row => row.id)
    {row' : OutboxRow} (hrow' : row' ∈ w'.table) (heq : row'.id = id) :
    row'.status = .processing := by
  obtain ⟨row, hrow, rfl⟩ := List.mem_map.mp hid
  obtain ⟨hin, hprocessing, -⟩ := of_claimed h.ids_nodup hrow
  rw [← Relay.table_of_run hstep hnext] at hin
  obtain rfl := row_eq_of_id (h.step hstep).ids_nodup hin hrow' heq.symm
  exact hprocessing

namespace Relay.Leased

/-- Whoever keeps a row, nobody marks it: neither is a failed attempt recorded for it, nor does
anybody learn that it is published. -/
lemma not_marked (h : w.Leased) (hinv : Relay.Inv cfg o w) {b b' : ℕ} {worker : Worker}
    (hworker : w.workers[b]? = some worker) {id : Uuid} (hholds : worker.Holds id)
    (hkept : ∀ locked delivery l c k, e = .run b locked delivery →
      w.workers[b]? = some ⟨l, .call c k, true⟩ →
        id ∈ (l.after c (w.serve locked c delivery).2).held)
    {locked : List Uuid} {delivery : Delivery} {c : OutboxCmd} (he : e = .run b' locked delivery)
    (hnext : w.next b' = some c) :
    c.records ≠ some id ∧ ¬ (c = .markPublished id ∧ delivery = .ok) := by
  subst he
  -- whoever marks the row holds it
  have hsame (hguard : ∀ l, leaseGuard o l c → id ∈ l.held) : b' = b := by
    obtain ⟨worker', hworker', hholds'⟩ := hinv.holds_of_next hnext hguard
    exact h.apart b' b worker' worker id hworker' hworker hholds' hholds
  obtain ⟨l, k, hworker'⟩ := exists_of_next hnext
  have hnodup := h.nodup _ (List.mem_of_getElem? hworker') rfl
  refine ⟨fun hc => ?_, ?_⟩
  · obtain ⟨error, retryCount, maxRetries, rfl⟩ := OutboxCmd.records_eq_some hc
    obtain rfl := hsame fun l hl => hl.1
    exact Lease.released hnodup (Or.inl hc) (hkept locked delivery l _ k rfl hworker')
  · rintro ⟨rfl, rfl⟩
    obtain rfl := hsame fun l hl => hl.1
    exact Lease.released hnodup (Or.inr ⟨rfl, _, rfl⟩) (hkept locked .ok l _ k rfl hworker')

/-- A row that has just been claimed was held by nobody. -/
lemma free (h : w.Leased) (hids : (w.table.map fun row => row.id).Nodup) {now limit : ℕ}
    {locked : List Uuid} {id : Uuid} (hid : id ∈
      (execOutbox w.table now locked (.claimPendingEntries limit)).2.map fun row => row.id)
    {b : ℕ} {worker : Worker} (hworker : w.workers[b]? = some worker) : ¬ worker.Holds id := by
  intro hholds
  obtain ⟨row, hrow, rfl⟩ := List.mem_map.mp hid
  obtain ⟨-, -, row₀, hrow₀, hid₀, hpending, -⟩ := of_claimed hids hrow
  exact h.waits worker (List.mem_of_getElem? hworker) row₀ hrow₀ (hid₀ ▸ hholds) hpending

/-- A row that a worker keeps stays as it is, unless it is published by a worker that does not
learn of it. -/
lemma row_of_kept (h : w.Leased) (hinv : Relay.Inv cfg o w) (hok : SweepsDead w e)
    (hstep : w.step cfg o e = some w') {b : ℕ} {worker : Worker}
    (hworker : w.workers[b]? = some worker) {row' : OutboxRow} (hrow' : row' ∈ w'.table)
    (hholds : worker.Holds row'.id)
    (hkept : ∀ locked delivery l c k, e = .run b locked delivery →
      w.workers[b]? = some ⟨l, .call c k, true⟩ →
        row'.id ∈ (l.after c (w.serve locked c delivery).2).held) :
    row' ∈ w.table ∨ row'.status = .published ∧ ∃ b' locked, e = .run b' locked .lost ∧
      w.next b' = some (.markPublished row'.id) := by
  have hmem := List.mem_of_getElem? hworker
  cases hinv.row_of_step hstep hrow' with
  | same hrow => exact Or.inl hrow
  | new _ _ hnew =>
    obtain ⟨row, hrow, hid⟩ := h.known worker hmem row'.id hholds
    exact absurd hid (hnew row hrow)
  | @made b' locked delivery c row he hdelivery hnext hrow hmakes =>
    have hnot := h.not_marked hinv hworker hholds hkept he hnext
    subst he
    cases hmakes with
    | same => exact Or.inl hrow
    | claim hpending => exact absurd hpending (h.waits worker hmem row hrow hholds)
    | recover hstuck =>
      -- the sweep has spared the row
      have hspares := of_decide_eq_true (hok.spares hdelivery hnext) row hrow hstuck worker hmem
        hholds.alive
      exact absurd hholds.held hspares
    | markPublished =>
      cases delivery with
      | ok => exact absurd ⟨rfl, rfl⟩ hnot.2
      | lost => exact Or.inr ⟨rfl, b', locked, rfl, hnext⟩
      | fail => exact absurd rfl hdelivery
    | markFailed => exact absurd rfl hnot.1

lemma step_known (h : w.Leased) (hinv : Relay.Inv cfg o w) (hstep : w.step cfg o e = some w')
    {b : ℕ} {worker' : Worker} (hworker' : w'.workers[b]? = some worker') {id : Uuid}
    (hholds : worker'.Holds id) : ∃ row ∈ w'.table, row.id = id := by
  cases held_of_step hstep hworker' hholds with
  | kept hworker hholds₀ =>
    obtain ⟨row, hrow, hid⟩ := h.known _ (List.mem_of_getElem? hworker) id hholds₀
    obtain ⟨row', hrow', hid', -⟩ := hinv.keeps hstep row hrow
    exact ⟨row', hrow', hid'.trans hid⟩
  | claimed he hnext hclaimed hid =>
    subst he
    obtain ⟨row, hrow, rfl⟩ := List.mem_map.mp hid
    rw [hclaimed] at hrow
    refine ⟨row, ?_, rfl⟩
    rw [Relay.table_of_run hstep hnext]
    exact (of_claimed hinv.ids_nodup hrow).1

lemma step_waits (h : w.Leased) (hinv : Relay.Inv cfg o w) (hok : SweepsDead w e)
    (hstep : w.step cfg o e = some w') {b : ℕ} {worker' : Worker}
    (hworker' : w'.workers[b]? = some worker') {row' : OutboxRow} (hrow' : row' ∈ w'.table)
    (hholds : worker'.Holds row'.id) : row'.status ≠ .pending := by
  cases held_of_step hstep hworker' hholds with
  | kept hworker hholds₀ hclaimed hkept =>
    rcases h.row_of_kept hinv hok hstep hworker hrow' hholds₀ hkept with hrow | ⟨hpublished, -⟩
    · exact h.waits _ (List.mem_of_getElem? hworker) row' hrow hholds₀
    · rw [hpublished]
      exact OutboxStatus.noConfusion
  | claimed he hnext hclaimed hid =>
    subst he
    rw [hinv.processing_of_claimed hstep hnext (hclaimed ▸ hid) hrow' rfl]
    exact OutboxStatus.noConfusion

lemma step_nodup (h : w.Leased) (hinv : Relay.Inv cfg o w) (hstep : w.step cfg o e = some w')
    {b : ℕ} {worker' : Worker} (hworker' : w'.workers[b]? = some worker')
    (halive : worker'.alive = true) : worker'.lease.held.Nodup := by
  cases Relay.moves_of_step hstep hworker' with
  | stays he hworker => exact h.nodup worker' (List.mem_of_getElem? hworker) halive
  | starts hp => exact List.nodup_nil
  | dies hdead =>
    rw [halive] at hdead
    cases hdead
  | @runs locked delivery l c k he hworker =>
    rcases w.serve_cases locked c delivery with ⟨rfl, limit, rfl⟩ | hother
    · subst he
      have hids' := (hinv.step hstep).ids_nodup
      rw [Relay.table_of_run hstep (Relay.next_eq hworker)] at hids'
      exact hids'.sublist (List.filter_sublist.map _)
    · exact (h.nodup _ (List.mem_of_getElem? hworker) rfl).sublist (Lease.held_after hother)

lemma step_apart (h : w.Leased) (hinv : Relay.Inv cfg o w) (hstep : w.step cfg o e = some w')
    {b b' : ℕ} {worker worker' : Worker} (hworker : w'.workers[b]? = some worker)
    (hworker' : w'.workers[b']? = some worker') {id : Uuid} (hholds : worker.Holds id)
    (hholds' : worker'.Holds id) : b = b' := by
  cases held_of_step hstep hworker hholds with
  | kept hworker₁ hheld₁ =>
    cases held_of_step hstep hworker' hholds' with
    | kept hworker₂ hheld₂ => exact h.apart b b' _ _ id hworker₁ hworker₂ hheld₁ hheld₂
    | claimed he hnext hclaimed hid =>
      rw [hclaimed] at hid
      exact absurd hheld₁ (h.free hinv.ids_nodup hid hworker₁)
  | claimed he hnext hclaimed hid =>
    cases held_of_step hstep hworker' hholds' with
    | kept hworker₂ hheld₂ =>
      rw [hclaimed] at hid
      exact absurd hheld₂ (h.free hinv.ids_nodup hid hworker₂)
    | claimed he₂ =>
      rw [he] at he₂
      cases he₂
      rfl

/-- As long as sweeps spare the living, rows have one holder. -/
theorem step (h : w.Leased) (hinv : Relay.Inv cfg o w) (hok : SweepsDead w e)
    (hstep : w.step cfg o e = some w') : w'.Leased where
  known worker' hin id hholds := by
    obtain ⟨b, hworker'⟩ := List.mem_iff_getElem?.mp hin
    exact h.step_known hinv hstep hworker' hholds
  waits worker' hin row' hrow' hholds := by
    obtain ⟨b, hworker'⟩ := List.mem_iff_getElem?.mp hin
    exact h.step_waits hinv hok hstep hworker' hrow' hholds
  nodup worker' hin halive := by
    obtain ⟨b, hworker'⟩ := List.mem_iff_getElem?.mp hin
    exact h.step_nodup hinv hstep hworker' halive
  apart b b' worker worker' id hworker hworker' hholds hholds' :=
    h.step_apart hinv hstep hworker hworker' hholds hholds'

end Relay.Leased

theorem leased_of_runs (h : RelayRuns cfg o SweepsDead Relay.initial w) : w.Leased := by
  refine h.invariant (I := Relay.Leased) ?_ fun w e w' hrun hleased hok hstep =>
    hleased.step (relayInv_of_runs hrun) hok hstep
  constructor <;> simp [Relay.initial]

namespace Relay.Owned

lemma leased (h : w.Owned) (hinv : Relay.Inv cfg o w) : w.Leased := by
  refine ⟨fun worker hworker id hholds => ?_, fun worker hworker row hrow hholds => ?_, h.nodup,
    h.apart⟩
  · obtain ⟨row, hrow, hid, -⟩ := h.processing worker hworker id hholds
    exact ⟨row, hrow, hid⟩
  · obtain ⟨row₀, hrow₀, hid, hprocessing⟩ := h.processing worker hworker row.id hholds
    obtain rfl := row_eq_of_id hinv.ids_nodup hrow₀ hrow hid
    rw [hprocessing]
    exact OutboxStatus.noConfusion

/-- Every undisturbed step keeps the rows owned. -/
theorem step (h : w.Owned) (hinv : Relay.Inv cfg o w) (hok : Undisturbed w e)
    (hstep : w.step cfg o e = some w') : w'.Owned := by
  have hleased := h.leased hinv
  have hleased' := hleased.step hinv hok.sweepsDead hstep
  refine ⟨fun worker' hin id hholds => ?_, hleased'.nodup, hleased'.apart⟩
  obtain ⟨b, hb⟩ := List.mem_iff_getElem?.mp hin
  obtain ⟨row', hrow', rfl⟩ := hleased'.known worker' hin id hholds
  refine ⟨row', hrow', rfl, ?_⟩
  cases held_of_step hstep hb hholds with
  | kept hworker hholds₀ hclaimed hkept =>
    rcases hleased.row_of_kept hinv hok.sweepsDead hstep hworker hrow' hholds₀ hkept with
      hrow | ⟨-, b', locked, rfl, hnext⟩
    · obtain ⟨row₀, hrow₀, heq, hprocessing⟩ :=
        h.processing _ (List.mem_of_getElem? hworker) row'.id hholds₀
      obtain rfl := row_eq_of_id hinv.ids_nodup hrow₀ hrow heq
      exact hprocessing
    · -- its answer has arrived
      exact absurd (hok _ hnext).2 (by simp [OutboxCmd.marksPublished])
  | claimed he hnext hclaimed hid =>
    subst he
    exact hinv.processing_of_claimed hstep hnext (hclaimed ▸ hid) hrow' rfl

end Relay.Owned

/-! ## Terminal rows -/

lemma owned_of_runs (h : RelayRuns cfg o Undisturbed Relay.initial w) : w.Owned := by
  refine h.invariant (I := Relay.Owned) ?_ fun w e w' hrun howned hok hstep =>
    howned.step (relayInv_of_runs hrun) hok hstep
  constructor <;> simp [Relay.initial]

/-- PUBLISHED and FAILED. -/
def OutboxStatus.terminal : OutboxStatus → Bool
  | published => true
  | failed => true
  | _ => false

/-- An undisturbed step does not touch a terminal row. -/
lemma Relay.Owned.not_touched (h : w.Owned) (hinv : Relay.Inv cfg o w) (hok : Undisturbed w e)
    {row : OutboxRow} (hrow : row ∈ w.table) (hterminal : row.status.terminal = true) :
    ¬ w.Touched row e := by
  intro htouched
  cases e with
  | run b locked delivery =>
    obtain ⟨hdelivery, c, hc, htouches⟩ := htouched
    -- whoever marks the row holds it, and then it is PROCESSING
    have hmark (hguard : ∀ l, leaseGuard o l c → row.id ∈ l.held) : False := by
      obtain ⟨worker, hworker, hholds⟩ := hinv.holds_of_next hc hguard
      obtain ⟨row₀, hrow₀, hid, hprocessing⟩ :=
        h.processing worker (List.mem_of_getElem? hworker) row.id hholds
      obtain rfl := row_eq_of_id hinv.ids_nodup hrow₀ hrow hid
      rw [hprocessing] at hterminal
      cases hterminal
    cases c with
    | claimPendingEntries limit =>
      rw [show row.status = .pending from htouches] at hterminal
      cases hterminal
    | recoverStuckEntries staleAfterMs =>
      rw [(of_decide_eq_true htouches).1] at hterminal
      cases hterminal
    | markPublished id =>
      obtain rfl : row.id = id := htouches
      exact hmark fun l hl => hl.1
    | markFailed id error retryCount maxRetries =>
      obtain rfl : row.id = id := htouches
      exact hmark fun l hl => hl.1
    | publish message => exact htouches
  | _ => exact htouched

/-- The rows that are terminal in `w` have the same status in `w'`. -/
def Relay.TerminalIn (w w' : Relay) : Prop :=
  ∀ row ∈ w.table, row.status.terminal = true → ∃ row' ∈ w'.table, row'.id = row.id ∧
    row'.status = row.status ∧ ∀ row'' ∈ w'.table, row''.id = row.id → row'' = row'

/-- While sweeps take rows from dead workers only and every worker that has marked a row as
published learns of it, PUBLISHED and FAILED are terminal. -/
theorem terminal_states_stay (h : RelayRuns cfg o Undisturbed Relay.initial w)
    (h' : RelayRuns cfg o Undisturbed w w') : w.TerminalIn w' := by
  intro row hrow hterminal
  have hrun : RelayRuns cfg o Undisturbed Relay.initial w' := h.trans h'
  obtain ⟨row', hrow', hid, hstatus⟩ : ∃ row' ∈ w'.table, row'.id = row.id ∧
      row'.status = row.status := by
    refine h'.invariant (I := fun w' => ∃ row' ∈ w'.table, row'.id = row.id ∧
      row'.status = row.status) ⟨row, hrow, rfl, rfl⟩ ?_
    rintro w₁ e w₂ hrun₁ ⟨row₁, hrow₁, hid₁, hstatus₁⟩ hok hstep
    have hreach := h.trans hrun₁
    have hinv := relayInv_of_runs hreach
    obtain ⟨row₂, hrow₂, hid₂, hstatus₂ | htouched⟩ := hinv.keeps hstep row₁ hrow₁
    · exact ⟨row₂, hrow₂, hid₂.trans hid₁, hstatus₂.trans hstatus₁⟩
    · exact absurd htouched ((owned_of_runs hreach).not_touched hinv hok hrow₁
        (hstatus₁ ▸ hterminal))
  exact ⟨row', hrow', hid, hstatus, fun row'' hrow'' hid'' =>
    row_eq_of_id (relayInv_of_runs hrun).ids_nodup hrow'' hrow' (hid''.trans hid.symm)⟩

/-- A published row is met by a sweep and by a poll, and stays published. -/
theorem terminal_states_stay_published : ∃ w w', RelayRuns {} {} Undisturbed Relay.initial w ∧
    RelayRuns {} {} Undisturbed w w' ∧ (∃ row ∈ w.table, row.status = .published) ∧
    w.TerminalIn w' := by
  have hplay : (runAll (Relay.step {} {}) Undisturbed Relay.initial relayRun).any (fun w =>
      (∃ row ∈ w.table, row.status = .published) ∧
        (runAll (Relay.step {} {}) Undisturbed w
          [.sys (.tick 60001), .sweep, .run 1 [] .ok, .poll, .run 2 [] .ok]).any
            fun w' => w'.workers.length = 3) = true := by decide +kernel
  obtain ⟨w, hrun, hw⟩ := exists_of_runAll hplay
  simp only [Bool.decide_and, Bool.and_eq_true, decide_eq_true_eq] at hw
  obtain ⟨hpublished, hplay'⟩ := hw
  obtain ⟨w', hrun', -⟩ := exists_of_runAll hplay'
  exact ⟨w, w', hrun, hrun', hpublished, terminal_states_stay hrun hrun'⟩

/-- A replica is slow: its claim is swept and published by another one, and then its own
publish call fails. -/
def slowRun : List RelayEvent :=
  fundRun.map .sys ++ [.poll, .run 0 [] .ok, .sys (.tick 60001), .sweep, .run 1 [] .ok, .poll,
    .run 2 [] .ok, .run 2 [] .ok, .run 2 [] .ok]

theorem published_row_reopened : ∃ w w', RelayRuns {} {} anyStep Relay.initial w ∧
    RelayRuns {} {} anyStep w w' ∧ ¬ w.TerminalIn w' := by
  have hplay : (runAll (Relay.step {} {}) anyStep Relay.initial slowRun).any (fun w =>
      (∃ row ∈ w.table, row.status = .published) ∧
        (runAll (Relay.step {} {}) anyStep w [.run 0 [] .fail, .run 0 [] .ok]).any
          fun w' => ∀ row ∈ w'.table, row.status = .pending) = true := by decide +kernel
  obtain ⟨w, hrun, hw⟩ := exists_of_runAll hplay
  simp only [Bool.decide_and, Bool.and_eq_true, decide_eq_true_eq] at hw
  obtain ⟨⟨row, hrow, hpublished⟩, hplay'⟩ := hw
  obtain ⟨w', hrun', hpending⟩ := exists_of_runAll hplay'
  refine ⟨w, w', hrun, hrun', fun hterminal => ?_⟩
  obtain ⟨row', hrow', -, hstatus, -⟩ := hterminal row hrow (by rw [hpublished]; rfl)
  rw [of_decide_eq_true hpending row' hrow', hpublished] at hstatus
  cases hstatus

end FxExchange
