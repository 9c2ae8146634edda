import FxExchange.Model.System
import Mathlib.Data.List.Sort

/-
# The outbox relay

`common/outbox/outbox.service.ts` and `common/outbox/outbox.processor.ts`.  The rows that
the operations insert are claimed, published to the broker and marked by any number of
workers: a worker is one call of `processOutbox` or of the recovery sweep, of whatever
replica.  The operations run next to them, in the system of `Model/System`.
-/

namespace FxExchange

open Prog (tryCatch)

/-! ## Rows -/

/-- A row of `outbox_entries` with the columns that only the relay writes. -/
structure OutboxRow extends OutboxEntry where
  lastError : Option String := none
  publishedAt : Option ℕ := none
  claimedAt : Option ℕ := none
  deriving DecidableEq, Repr

/-- The row that an inserted entry becomes. -/
def OutboxEntry.row (entry : OutboxEntry) : OutboxRow := { entry with }

/-- What is published for an entry, with the headers `x-outbox-id` and `x-retry-count`. -/
structure Message where
  routingKey : String
  payload : JournalCreated
  outboxId : Uuid
  retryCount : ℕ
  deriving DecidableEq, Repr

/-- What is published for an entry. -/
def OutboxRow.message (entry : OutboxRow) : Message :=
  { routingKey := entry.eventType, payload := entry.payload, outboxId := entry.id
    retryCount := entry.retryCount }

/-! ## `common/outbox/outbox.service.ts` -/

/-- The statements of the service, and the call of the broker. -/
inductive OutboxCmd
  | claimPendingEntries (limit : ℕ)
  | recoverStuckEntries (staleAfterMs : ℕ)
  | markPublished (id : Uuid)
  | markFailed (id : Uuid) (error : String) (retryCount maxRetries : ℕ)
  /-- `amqpConnection.publish`. -/
  | publish (message : Message)

/-- The answer to a command. -/
@[simp] abbrev OutboxCmd.Ret : OutboxCmd → Type
  | claimPendingEntries _ => List OutboxRow
  | recoverStuckEntries _ => ℕ
  | markPublished _ => Unit
  | markFailed _ _ _ _ => Unit
  | publish _ => Unit

/-- The messages of a command. -/
def OutboxCmd.messages : OutboxCmd → List Message
  | publish message => [message]
  | _ => []

namespace OutboxRow

/-- The first `limit` PENDING rows in the order of `createdAt`, those left out that another
statement has locked (`SKIP LOCKED`). -/
def claimable (limit : ℕ) (locked : List Uuid) (table : List OutboxRow) : List Uuid :=
  (((table.filter fun row => row.status = .pending ∧ row.id ∉ locked).insertionSort
    fun row row' => row.createdAt ≤ row'.createdAt).take limit).map fun row => row.id

/-- What claiming does to a row. -/
def claim (now : ℕ) (row : OutboxRow) : OutboxRow :=
  { row with status := .processing, claimedAt := some now }

/-- The row is PROCESSING, and its claim is older than `staleAfterMs`. -/
def stuck (now staleAfterMs : ℕ) (row : OutboxRow) : Bool :=
  row.status = .processing ∧ row.claimedAt.any fun claimedAt => claimedAt + staleAfterMs < now

/-- What the recovery of a stuck entry does to its row. -/
def recover (row : OutboxRow) : OutboxRow := { row with status := .pending, claimedAt := none }

/-- What `markPublished` does to the row. -/
def markPublished (now : ℕ) (row : OutboxRow) : OutboxRow :=
  { row with status := .published, publishedAt := some now, claimedAt := none }

/-- What `markFailed` does to the row: it is tried again until there have been too many
failures. -/
def markFailed (error : String) (retryCount maxRetries : ℕ) (row : OutboxRow) : OutboxRow :=
  { row with
    status := if maxRetries ≤ retryCount then .failed else .pending
    lastError := some error
    retryCount
    claimedAt := none }

end OutboxRow

/-- `UPDATE … WHERE p`. -/
def updateWhere (p : OutboxRow → Bool) (f : OutboxRow → OutboxRow) (table : List OutboxRow) :
    List OutboxRow := table.map fun row => if p row then f row else row

/-- What a statement does to the table, and its answer. -/
def execOutbox (table : List OutboxRow) (now : ℕ) (locked : List Uuid) :
    (c : OutboxCmd) → List OutboxRow × c.Ret
  | .claimPendingEntries limit =>
    let ids := OutboxRow.claimable limit locked table
    let claimed := updateWhere (fun row => row.id ∈ ids) (OutboxRow.claim now) table
    (claimed, claimed.filter fun row => row.id ∈ ids)
  | .recoverStuckEntries staleAfterMs =>
    (updateWhere (OutboxRow.stuck now staleAfterMs) OutboxRow.recover table,
      table.countP (OutboxRow.stuck now staleAfterMs))
  | .markPublished id =>
    (updateWhere (fun row => row.id = id) (OutboxRow.markPublished now) table, ())
  | .markFailed id error retryCount maxRetries =>
    (updateWhere (fun row => row.id = id) (OutboxRow.markFailed error retryCount maxRetries) table,
      ())
  | .publish _ => (table, ())

/-! ## `common/outbox/outbox.processor.ts` -/

/-- `OUTBOX_MAX_RETRIES`, `OUTBOX_BATCH_SIZE` and `OUTBOX_STALE_AFTER_MS`. -/
structure OutboxConfig where
  maxRetries : ℕ := 5
  batchSize : ℕ := 50
  staleAfterMs : ℕ := 60000

/-- The functions of the processor. -/
abbrev Processor (α : Type) : Type := Prog OutboxCmd.Ret Exn α

/-- Issue one command; its failure is thrown. -/
def Processor.issue (c : OutboxCmd) : Processor c.Ret := Prog.command c

open Processor (issue)

/-- `OutboxProcessor.publishEntry`: publishes one entry, and marks what has come of it. -/
def publishEntry (cfg : OutboxConfig) (entry : OutboxRow) : Processor Unit :=
  tryCatch
    (do
      issue (.publish entry.message)
      issue (.markPublished entry.id))
    fun error => issue (.markFailed entry.id error.message (entry.retryCount + 1) cfg.maxRetries)

/-- The loop of `processOutbox`. -/
def publishEntries (cfg : OutboxConfig) : List OutboxRow → Processor Unit
  | [] => pure ()
  | entry :: entries => do
    publishEntry cfg entry
    publishEntries cfg entries

/-- `OutboxProcessor.processOutbox`: one poll. -/
def processOutbox (cfg : OutboxConfig) : Processor Unit := do
  let claimed ← issue (.claimPendingEntries cfg.batchSize)
  publishEntries cfg claimed

/-- `OutboxProcessor.recoverStuckEntries`: one sweep. -/
def recoverStuckEntries (cfg : OutboxConfig) : Processor Unit :=
  tryCatch
    (do
      let _ ← issue (.recoverStuckEntries cfg.staleAfterMs)
      pure ())
    fun _ => pure ()

/-! ## The relay in operation -/

/-- What a worker has to do with rows; a history variable. -/
structure Lease where
  /-- The rows as they were when it claimed them. -/
  claimed : List OutboxRow := []
  /-- The rows that it has claimed and not marked yet. -/
  held : List Uuid := []
  /-- The rows whose publish call has resolved. -/
  delivered : List Uuid := []

namespace Lease

/-- What the worker has done after a good answer. -/
def afterOk (l : Lease) : (c : OutboxCmd) → c.Ret → Lease
  | .claimPendingEntries _, rows => { l with claimed := rows, held := rows.map fun row => row.id }
  | .recoverStuckEntries _, _ => l
  | .markPublished id, _ => { l with held := l.held.erase id }
  | .markFailed id _ _ _, _ => { l with held := l.held.erase id }
  | .publish message, _ => { l with delivered := message.outboxId :: l.delivered }

/-- When a failure cannot be recorded either, the loop ends. -/
def afterError (l : Lease) : OutboxCmd → Lease
  | .markFailed _ _ _ _ => { l with held := [] }
  | _ => l

/-- What the worker has done after a command and its answer. -/
def after (l : Lease) (c : OutboxCmd) : Except Exn c.Ret → Lease
  | .ok a => l.afterOk c a
  | .error _ => l.afterError c

end Lease

/-- A poll or a sweep that is under way. -/
structure Worker where
  lease : Lease
  prog : Processor Unit
  /-- Its process has not died. -/
  alive : Bool := true

/-- The command that a worker issues next. -/
def Worker.next (worker : Worker) : Option OutboxCmd :=
  match worker.alive, worker.prog with
  | true, .call c _ => some c
  | _, _ => none

/-- The operations and the workers, over the outbox table and what has been published. -/
structure Relay where
  sys : Sys
  table : List OutboxRow
  workers : List Worker
  /-- The messages whose publish call has resolved. -/
  published : List Message

/-- What becomes of a command: it is carried out, it fails without effect, or it is carried
out and its answer does not arrive. -/
inductive Delivery
  | ok | fail | lost
  deriving DecidableEq, Repr

/-- The operations or a worker move. -/
inductive RelayEvent
  /-- The operations move. -/
  | sys (e : Event)
  /-- A replica calls `processOutbox`. -/
  | poll
  /-- A replica calls `recoverStuckEntries`. -/
  | sweep
  /-- A worker issues its next command while the rows `locked` are locked by others. -/
  | run (worker : ℕ) (locked : List Uuid) (delivery : Delivery)
  /-- The process of a worker dies. -/
  | crash (worker : ℕ)

namespace Relay

/-- Nothing has happened. -/
def initial : Relay where
  sys := .initial
  table := []
  workers := []
  published := []

/-- The effect and the answer of a command of a worker. -/
def serve (w : Relay) (locked : List Uuid) (c : OutboxCmd) :
    Delivery → Relay × Except Exn c.Ret
  | .ok => ({ w with
      table := (execOutbox w.table w.sys.now locked c).1
      published := c.messages ++ w.published }, .ok (execOutbox w.table w.sys.now locked c).2)
  | .lost => ({ w with table := (execOutbox w.table w.sys.now locked c).1 }, .error .unavailable)
  | .fail => (w, .error .unavailable)

/-- The next command of a worker and what it goes on with. -/
def runWorker (w : Relay) (b : ℕ) (locked : List Uuid) (delivery : Delivery) :
    Worker → Option Relay
  | ⟨l, .call c k, true⟩ =>
    let r := w.serve locked c delivery
    some { r.1 with workers := w.workers.set b ⟨l.after c r.2, k r.2, true⟩ }
  | _ => none

/-- What comes of an event, if it can happen. -/
def step (cfg : Config) (o : OutboxConfig) (w : Relay) : RelayEvent → Option Relay
  | .sys e => (w.sys.step cfg e).map fun sys =>
    -- what the operations have committed is in the table
    { w with
      sys
      table := w.table ++
        (sys.db.outbox.drop w.sys.db.outbox.length).map OutboxEntry.row }
  | .poll => some { w with workers := w.workers ++ [⟨{}, processOutbox o, true⟩] }
  | .sweep => some { w with workers := w.workers ++ [⟨{}, recoverStuckEntries o, true⟩] }
  | .run b locked delivery => w.workers[b]?.bind (w.runWorker b locked delivery)
  | .crash b => w.workers[b]?.map fun worker =>
    { w with workers := w.workers.set b { worker with alive := false } }

end Relay

end FxExchange
