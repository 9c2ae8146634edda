import FxExchange.Lib.Transition
import FxExchange.Model.Store

/-
# The running system

Any number of requests, each a thread that serves its program one command at a time, over
one Postgres and one Redis.  An event is a new request, one command of one thread, the death
of a process, or the passing of time; in which order they come is left open, and so is which
commands fail.  A command that fails has had no effect; a commit that fails, or a process
that dies, leaves the end of its transaction to the server, which rolls it back.

Each thread keeps a `Trail` of what it has come across, and the system a list of the
committed transactions.  These are history variables: no program and no store reads them.
-/

namespace FxExchange

/-! ## Threads -/

/-- What a request has come across so far. -/
structure Trail where
  /-- It holds the wallet lock, as far as it knows. -/
  inLock : Bool := false
  /-- Its look-up of the idempotency key before the wallet lock found no journal. -/
  missed : Bool := false
  /-- Its look-up under the wallet lock found no journal. -/
  missedInLock : Bool := false
  /-- What its last look-up of the idempotency key found. -/
  found : Option JournalEntry := none
  rates : Option VersionedRates := none
  /-- The quote that it has read from Redis and not put back. -/
  hand : Option Quote := none
  /-- An id that it has drawn for a quote and not used yet. -/
  uuid : Option Uuid := none
  /-- The quote that it has issued. -/
  issued : Option Quote := none
  /-- The last answer of `Date.now()`. -/
  clock : ℕ := 0
  /-- GETDEL has failed. -/
  fellBack : Bool := false
  /-- The transaction that it has committed. -/
  booked : Option Tx := none
  /-- The rejected order that it has saved. -/
  rejected : Option Order := none

/-- What belongs to a request: its open transaction and its trail. -/
structure Local where
  req : Request
  tx : Option Tx := none
  trail : Trail := {}

namespace Local

/-- What a request remembers of a command that has succeeded. -/
def afterOk (l : Local) (seq : ℕ) : (c : Cmd) → c.Ret → Local
  | .pool (.findByIdempotencyKey _ _), found =>
    { l with trail := { l.trail with
        found
        missed := if l.trail.inLock then l.trail.missed else found.isNone
        missedInLock := if l.trail.inLock then found.isNone else l.trail.missedInLock } }
  | .pool (.saveOrder o), id => { l with trail := { l.trail with rejected := some (o.row id) } }
  | .pool _, _ => l
  | .startTransaction, time => { l with tx := some { startedAt := time } }
  | .tx c, a => { l with tx := l.tx.map fun tx => tx.afterOk seq c a }
  | .commit, _ =>
    { l with tx := none, trail := { l.trail with booked := l.tx.filter fun tx => !tx.aborted } }
  | .rollback, _ => { l with tx := none }
  | .redis (.getdel _), quote => { l with trail := { l.trail with hand := quote } }
  | .redis (.get _), quote => { l with trail := { l.trail with hand := quote } }
  | .redis (.set _ quote _), _ =>
    -- a quote that was in hand has been put back, any other one is new
    { l with trail := { l.trail with
        hand := none
        uuid := if l.trail.hand.isSome then l.trail.uuid else none
        issued := if l.trail.hand.isSome then l.trail.issued else some quote } }
  | .redis (.acquire _ _), _ => { l with trail := { l.trail with inLock := true } }
  | .redis (.release _), _ => { l with trail := { l.trail with inLock := false } }
  | .redis _, _ => l
  | .getRates, rates => { l with trail := { l.trail with rates := some rates } }
  | .now, clock => { l with trail := { l.trail with clock } }
  | .uuid, id => { l with trail := { l.trail with uuid := some id } }

/-- What a request remembers of a command that has failed. -/
def afterError (l : Local) : Cmd → Local
  | .tx _ => { l with tx := l.tx.map fun tx => { tx with aborted := true } }
  | .commit => { l with tx := none }
  | .rollback => { l with tx := none }
  | .redis (.getdel _) => { l with trail := { l.trail with fellBack := true } }
  | _ => l

/-- What the operation knows after a command and its answer. -/
def after (l : Local) (seq : ℕ) (c : Cmd) : Except Exn c.Ret → Local
  | .ok a => l.afterOk seq c a
  | .error _ => l.afterError c

end Local

/-- A request being served.  When its program has come to an end, that is its answer. -/
structure Thread where
  state : Local
  prog : Service Response
  /-- Its process has not died. -/
  alive : Bool := true

/-- What the request has answered, once it has. -/
def Thread.answer (th : Thread) : Option (Except Exn Response) :=
  match th.alive, th.prog with
  | true, .pure a => some (.ok a)
  | true, .throw e => some (.error e)
  | _, _ => none

/-- The response of `fundWallet`, `convertFunds` or `executeTrade`. -/
def Thread.operation (th : Thread) : Option OperationResponse :=
  match th.answer with
  | some (.ok (.operation r)) => some r
  | _ => none

/-- What `consumeQuote` has returned to its caller. -/
def Thread.consumed (th : Thread) : Option (Option Quote) :=
  match th.answer with
  | some (.ok (.consumed found)) => some found
  | _ => none

lemma Thread.answer_of_operation {th : Thread} {r : OperationResponse}
    (h : th.operation = some r) : th.answer = some (.ok (.operation r)) := by
  unfold operation at h
  split at h
  · rename_i r' hanswer
    rw [hanswer, Option.some.inj h]
  · cases h

lemma Thread.answer_of_consumed {th : Thread} {found : Option Quote}
    (h : th.consumed = some found) : th.answer = some (.ok (.consumed found)) := by
  unfold consumed at h
  split at h
  · rename_i found' hanswer
    rw [hanswer, Option.some.inj h]
  · cases h

/-- What the request has failed with. -/
def Thread.failure (th : Thread) : Option Exn :=
  match th.answer with
  | some (.error e) => some e
  | _ => none

lemma Thread.answer_of_failure {th : Thread} {e : Exn} (h : th.failure = some e) :
    th.answer = some (.error e) := by
  unfold failure at h
  split at h
  · rename_i e' hanswer
    rw [hanswer, Option.some.inj h]
  · cases h

/-- The command that a thread issues next. -/
def Thread.next (th : Thread) : Option Cmd :=
  match th.alive, th.prog with
  | true, .call c _ => some c
  | _, _ => none

/-- A thread that has no command to issue has answered. -/
lemma Thread.exists_answer {th : Thread} (halive : th.alive = true) (hnext : th.next = none) :
    ∃ a, th.answer = some a := by
  obtain ⟨l, prog, alive⟩ := th
  obtain rfl : alive = true := halive
  cases prog with
  | pure a => exact ⟨_, rfl⟩
  | throw e => exact ⟨_, rfl⟩
  | call c k => cases hnext

/-! ## Steps -/

/-- The database, Redis and the locks, with the operations that are under way. -/
structure Sys where
  db : Database
  redis : Redis
  locks : Locks
  now : ℕ
  /-- The next new identifier. -/
  seq : ℕ
  threads : Tid → Option Thread
  /-- The transactions that were committed, in order. -/
  commits : List (Tid × Tx)

namespace Sys

/-- The migrated system before the first request. -/
def initial : Sys where
  db := .migrated
  redis := .empty
  locks := .empty
  now := 0
  seq := 1
  threads := fun _ => none
  commits := []

/-- The effect and the answer of a command of `t` whose open transaction is `tx`; there is
none while the command waits. -/
def exec (s : Sys) (t : Tid) (tx : Option Tx) : (c : Cmd) → Option (Sys × Except Exn c.Ret)
  | .pool c => some ({ s with db := (execPool s.db s.seq c).1 }, (execPool s.db s.seq c).2)
  | .startTransaction => some (s, .ok s.now)
  | .tx c =>
    match tx with
    | none => some (s, .error .unavailable)
    | some tx =>
      if tx.aborted then some (s, .error .unavailable)
      else (execTx s.db s.locks t s.seq tx c).map fun r => ({ s with locks := r.1 }, r.2)
  | .commit =>
    match tx with
    | none => some (s, .error .unavailable)
    | some tx =>
      -- committing a transaction in which a statement has failed rolls it back
      if tx.aborted then some ({ s with locks := s.locks.releaseAll t }, .ok ())
      else
        some ({ s with
          db := s.db.apply tx
          locks := s.locks.releaseAll t
          commits := s.commits ++ [(t, tx)] }, .ok ())
  | .rollback => some ({ s with locks := s.locks.releaseAll t }, .ok ())
  | .redis c => (execRedis s.redis s.now t c).map fun r => ({ s with redis := r.1 }, r.2)
  | .getRates => none
  | .now => some (s, .ok s.now)
  | .uuid => some (s, .ok s.seq)

/-- A command of `t` that fails. -/
def fail (s : Sys) (t : Tid) : Cmd → Option Sys
  | .now => none
  | .uuid => none
  | .commit => some { s with locks := s.locks.releaseAll t }
  | .rollback => some { s with locks := s.locks.releaseAll t }
  | _ => some s

end Sys

/-- What the surroundings do with a command: serve it, fail it, or, where it is the FX
provider that is asked, answer with these rates. -/
inductive Choice
  | ok
  | fail
  | rates (r : VersionedRates)

/-- Something happens: an operation arrives or moves, or time passes. -/
inductive Event
  /-- A request arrives; its thread has the next identifier. -/
  | spawn (req : Request)
  /-- A thread issues its next command. -/
  | run (t : Tid) (choice : Choice)
  /-- The process of a thread dies. -/
  | crash (t : Tid)
  /-- Milliseconds pass. -/
  | tick (ms : ℕ)

namespace Sys

/-- What a command does, and its answer; `getRates` is handed some rates. -/
def respond (s : Sys) (t : Tid) (tx : Option Tx) (c : Cmd) :
    Choice → Option (Sys × Except Exn c.Ret)
  | .ok => s.exec t tx c
  | .fail => (s.fail t c).map fun s' => (s', .error .unavailable)
  | .rates r =>
    match c with
    | .getRates => some (s, .ok r)
    | _ => none

/-- Thread `t` is `th` from now on. -/
def setThread (s : Sys) (t : Tid) (th : Thread) : Sys :=
  { s with seq := s.seq + 1, threads := Function.update s.threads t (some th) }

/-- The command that a thread issues next. -/
def next (s : Sys) (t : Tid) : Option Cmd := (s.threads t).bind Thread.next

/-- The next command of a thread and what it goes on with. -/
def runThread (s : Sys) (t : Tid) (choice : Choice) : Thread → Option Sys
  | ⟨l, .call c k, true⟩ =>
    (s.respond t l.tx c choice).map fun r =>
      r.1.setThread t ⟨l.after s.seq c r.2, k r.2, true⟩
  | _ => none

/-- What is left of a thread whose process has died. -/
def crashThread (s : Sys) (t : Tid) : Thread → Option Sys
  | ⟨l, .call c k, true⟩ =>
    some ({ s with locks := s.locks.releaseAll t }.setThread t
      ⟨{ l with tx := none }, .call c k, false⟩)
  | _ => none

/-- What comes of an event, if it can happen. -/
def step (cfg : Config) (s : Sys) : Event → Option Sys
  | .spawn req => some (s.setThread s.seq { state := { req }, prog := req.program cfg })
  | .run t choice => (s.threads t).bind (s.runThread t choice)
  | .crash t => (s.threads t).bind (s.crashThread t)
  | .tick ms => some { s with now := s.now + ms }

end Sys

/-- Runs of the system, all of whose steps satisfy `ok`. -/
abbrev Runs (cfg : Config) (ok : Sys → Event → Prop) : Sys → Sys → Prop :=
  Transition.Runs (Sys.step cfg) ok

/-- A state that the migrated system can come to. -/
def Reachable (cfg : Config) (s : Sys) : Prop :=
  Runs cfg Transition.anyStep Sys.initial s

lemma reachable_of_runs {cfg : Config} {ok : Sys → Event → Prop} {s : Sys}
    (h : Runs cfg ok Sys.initial s) : Reachable cfg s := h.mono fun _ _ _ => trivial

/-- Nothing fails and no process dies. -/
def NoFailure (_ : Sys) : Event → Prop
  | .run _ .fail => False
  | .crash _ => False
  | _ => True

instance (s : Sys) : DecidablePred (NoFailure s)
  | .run _ .fail => isFalse id
  | .crash _ => isFalse id
  | .run _ .ok => isTrue trivial
  | .run _ (.rates _) => isTrue trivial
  | .spawn _ => isTrue trivial
  | .tick _ => isTrue trivial

/-! ## Events of concrete runs -/

/-- The next `n` commands of a thread, all of which succeed. -/
def serve (t : Tid) (n : ℕ) : List Event := List.replicate n (.run t .ok)

/-- Rates at which all currencies are worth the same. -/
def parRates : VersionedRates where
  version := "v1"
  base := "USD"
  timestamp := "2025-01-01T00:00:00.000Z"
  rates := some fun _ => .finite 1 "1"

/-- User 1 gets 500 subunits of USD from the house. -/
def fundRun : List Event := .spawn (.fundWallet 1 "USD" (.integer 500) "fund") :: serve 1 18

end FxExchange
