import FxExchange.Lib.Custody
import FxExchange.Lib.Interleaving
import FxExchange.Model.Entities

/-
# Fetching and caching the rates

`fx/fx.service.ts`: `FxService.getRates` with its two caches, as a program over the commands
that it issues to Redis and to the provider.  A sequence of calls runs one program after the
other over what Redis holds; what the surroundings do to the commands of a call is up to them.
-/

namespace FxExchange

/-- The cache keys `fx:rates:fresh` and `fx:rates:fallback`. -/
inductive CacheKey
  | fresh | fallback
  deriving DecidableEq, Repr

/-- A value in a JSON body, as far as arithmetic tells values apart. -/
inductive JsonValue
  | missing
  | null
  | boolean (b : Bool)
  /-- A number; one that is too large for a double is an infinity, `none`. -/
  | number (x : Option ℚ)
  /-- A string, or the elements of an array as one, and the finite number that it is read as. -/
  | text (text : String) (x : Option ℚ)
  | object
  deriving DecidableEq, Repr

/-- `Number(value)`, where it is finite. -/
def JsonValue.toNumber : JsonValue → Option ℚ
  | .missing | .object => none
  | .null => some 0
  | .boolean b => some (if b then 1 else 0)
  | .number x | .text _ x => x

/-- `FxRateResponse`; a result or rates that are missing, or not of their type, are `none`. -/
structure FxRateResponse where
  result : Option String
  base_code : String
  time_last_update_unix : JsonValue
  conversion_rates : Option (Currency → RateValue)

/-- `new Date(x)`: the whole milliseconds since 1970, up to 100,000,000 days away from it. -/
def newDate (x : ℚ) : Option ℤ :=
  if |x| ≤ 8640000000000000 then some (if 0 ≤ x then ⌊x⌋ else ⌈x⌉) else none

/-- `new Date(data.time_last_update_unix * 1000)`, where it is valid. -/
def FxRateResponse.date (data : FxRateResponse) : Option ℤ :=
  data.time_last_update_unix.toNumber.bind fun seconds => newDate (numberOfDecimal (seconds * 1000))

namespace FxService

/-- What `FxService` calls. -/
inductive Cmd
  | get (key : CacheKey)
  | set (key : CacheKey) (payload : VersionedRates) (exSeconds : Option ℕ)
  /-- `httpService.get`, with its retries. -/
  | request
  /-- `uuidv4()`. -/
  | uuid

/-- The answer to a command. -/
@[simp] abbrev Cmd.Ret : Cmd → Type
  | get _ => Option VersionedRates
  | set _ _ _ => Unit
  | request => FxRateResponse
  | uuid => String

open Prog (command tryCatch throwIf)

/-- `CACHE_TTL_SECONDS`. -/
def cacheTtlSeconds : ℕ := 90

/-- `FxService.getFallbackRates`: the last good snapshot, or an error. -/
def getFallbackRates : Prog Cmd.Ret Exn VersionedRates := do
  let fallback ← command (C := Cmd) (.get .fallback)
  match fallback with
  | some rates => pure rates
  | none => .throw (.internalServerError
      "FX rates are temporarily unavailable. Please try again later.")

/-- `new Date(data.time_last_update_unix * 1000).toISOString()`, which throws where the date is
not valid. -/
def timestamp (toISOString : ℤ → String) (data : FxRateResponse) : Prog Cmd.Ret Exn String :=
  match data.date with
  | some ms => pure (toISOString ms)
  | none => .throw (.error "Invalid time value")

/-- `FxService.fetchAndCacheRates`: asks the provider and keeps its answer under both keys;
falls back where any of this fails. -/
def fetchAndCacheRates (toISOString : ℤ → String) : Prog Cmd.Ret Exn VersionedRates :=
  tryCatch
    (do
      let data ← command (C := Cmd) .request
      throwIf (data.result ≠ some "success")
        (.error ("ExchangeRate-API returned result: " ++ data.result.getD "undefined"))
      let version ← command (C := Cmd) .uuid
      let timestamp ← timestamp toISOString data
      let versionedRates : VersionedRates :=
        { version, base := data.base_code, timestamp, rates := data.conversion_rates }
      command (C := Cmd) (.set .fresh versionedRates (some cacheTtlSeconds))
      command (C := Cmd) (.set .fallback versionedRates none)
      pure versionedRates)
    fun _ => getFallbackRates

/-- `FxService.getRates`. -/
def getRates (toISOString : ℤ → String) : Prog Cmd.Ret Exn VersionedRates := do
  let cached ← command (C := Cmd) (.get .fresh)
  match cached with
  | some rates => pure rates
  | none => fetchAndCacheRates toISOString

/-! ## Calls -/

/-- What Redis holds, the fresh rates with their deadline. -/
structure Caches where
  fresh : Option (VersionedRates × ℕ)
  fallback : Option VersionedRates

/-- Nothing is cached. -/
def Caches.empty : Caches := ⟨none, none⟩

/-- What the surroundings do to the commands of a call: the times at which it asks for and
stores the fresh rates, the answer of the provider, the id that it draws, and which of its
writes succeed. -/
structure Surroundings where
  asked : ℕ
  stored : ℕ
  answer : Except Exn FxRateResponse
  uuid : String
  sets : CacheKey → Bool

/-- A command of a call.  Redis reads succeed, and a write that fails has had no effect. -/
def serve (env : Surroundings) (caches : Caches) : (c : Cmd) → Caches × Except Exn c.Ret
  | .get .fresh => (caches, .ok (Custody.live caches.fresh env.asked))
  | .get .fallback => (caches, .ok caches.fallback)
  | .set .fresh payload exSeconds =>
    if env.sets .fresh then
      ({ caches with fresh := some (payload, env.stored + 1000 * exSeconds.getD 0) }, .ok ())
    else (caches, .error .unavailable)
  | .set .fallback payload _ =>
    if env.sets .fallback then ({ caches with fallback := some payload }, .ok ())
    else (caches, .error .unavailable)
  | .request => (caches, env.answer)
  | .uuid => (caches, .ok env.uuid)

/-- One call: what Redis holds after it, and what it returns or throws. -/
def call (toISOString : ℤ → String) (caches : Caches) (env : Surroundings) :
    Caches × Except Exn VersionedRates :=
  (getRates toISOString).perform (serve env) caches

/-! ## Calls in any interleaving -/

/-- What the calls use besides Redis and the provider. -/
structure RatesEnv where
  /-- The text of a date. -/
  toISOString : ℤ → String
  /-- The texts of the ids, in the order in which they are drawn.  None is drawn twice. -/
  uuid : ℕ → String
  uuid_injective : Function.Injective uuid

/-- The two caches, the clock, and the ids that have been drawn. -/
structure RatesStore where
  caches : Caches
  now : ℕ
  /-- How many ids have been drawn. -/
  drawn : ℕ

/-- What the surroundings do to a command: how the provider answers, and whether the answer of
Redis is lost. -/
structure Weather where
  answer : Except Exn FxRateResponse
  lost : Bool := false

namespace RatesStore

/-- Before the first call. -/
def empty : RatesStore := { caches := .empty, now := 0, drawn := 0 }

/-- What a `SET` does; without a lifetime it is for good. -/
def put (s : RatesStore) : CacheKey → VersionedRates → Option ℕ → RatesStore
  | .fresh, payload, exSeconds =>
    { s with caches := { s.caches with fresh := some (payload, s.now + 1000 * exSeconds.getD 0) } }
  | .fallback, payload, _ => { s with caches := { s.caches with fallback := some payload } }

/-- What a command does, and its answer. -/
def exec (env : RatesEnv) (s : RatesStore) (x : Weather) :
    (c : Cmd) → RatesStore × Except Exn c.Ret
  | .get .fresh => (s, .ok (Custody.live s.caches.fresh s.now))
  | .get .fallback => (s, .ok s.caches.fallback)
  | .set key payload exSeconds =>
    (s.put key payload exSeconds, if x.lost then .error .unavailable else .ok ())
  | .request => (s, x.answer)
  | .uuid => ({ s with drawn := s.drawn + 1 }, .ok (env.uuid s.drawn))

end RatesStore

/-- What a call has come across. -/
structure RatesVisit where
  /-- The fresh rates that it has found, and when. -/
  hit : Option (VersionedRates × ℕ) := none
  /-- What the provider has answered. -/
  body : Option FxRateResponse := none
  version : Option String := none
  /-- The last known rates that it has found. -/
  fallback : Option VersionedRates := none
  /-- It has stored rates as the last known ones. -/
  kept : Bool := false
  /-- A command has failed. -/
  failed : Bool := false

/-- What the call knows after a command and its answer. -/
def RatesVisit.after (s : RatesStore) (l : RatesVisit) :
    (c : Cmd) → Except Exn c.Ret → RatesVisit
  | .get .fresh, .ok found => { l with hit := found.map fun rates => (rates, s.now) }
  | .get .fallback, .ok found => { l with fallback := found }
  | .request, .ok data => { l with body := some data }
  | .uuid, .ok id => { l with version := some id }
  | .set key _ _, .ok _ => { l with kept := l.kept || key = .fallback }
  | _, .error _ => { l with failed := true }

/-- Any number of calls of `getRates`, in any number of processes. -/
def ratesServer (env : RatesEnv) :
    Interleaving.Server Cmd.Ret Exn VersionedRates Unit RatesVisit RatesStore Weather where
  program _ := getRates env.toISOString
  start _ := {}
  after := RatesVisit.after
  exec := RatesStore.exec env
  unavailable := .unavailable
  wait s ms := { s with now := s.now + ms }

/-- A state of the calls, and what happens to them. -/
abbrev RatesState := Interleaving.Pool Cmd.Ret Exn VersionedRates RatesVisit RatesStore

/-- A call of `getRates` that is under way. -/
abbrev RatesThread := Interleaving.Thread Cmd.Ret Exn VersionedRates RatesVisit

/-- A call begins, issues a command, fails or dies; or time passes. -/
abbrev RatesEvent := Interleaving.Event Unit Weather

/-- No call yet, and nothing cached. -/
def RatesState.initial : RatesState := Interleaving.Pool.initial .empty

/-- From one state to another by any events. -/
abbrev RatesState.Runs (env : RatesEnv) : RatesState → RatesState → Prop :=
  Transition.Runs (ratesServer env).step Transition.anyStep

end FxService

end FxExchange
