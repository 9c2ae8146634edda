import FxExchange.Model.Http
import FxExchange.Model.Rates

/-
# The whole of it

The site, and behind it the calls of `FxService.getRates`: conversions and quotes wait for their
rates, and `GET /fx/rates` asks for them as well.  What `getRates` returns or throws is handed to
the request that waits for it.  When a process dies this is an event for each of its requests and
calls.
-/

namespace FxExchange

open FxService

/-- What is not in the repository, for the API and for the rates. -/
structure PlatformEnv where
  http : HttpEnv
  rates : RatesEnv

/-- The site and the calls of `getRates`, linked by who is waiting for which. -/
structure Platform where
  site : Site
  rates : RatesState
  /-- The calls of `getRates` that a request has made, the last one first. -/
  calls : Tid → List ℕ
  /-- The request has not been handed yet what the last one has come to. -/
  waiting : Tid → Bool

/-- Something happens at the site, or to a call of `getRates`. -/
inductive PlatformEvent
  | http (r : HttpRequest)
  | auth (e : AuthEvent)
  /-- A request issues a command, but not that for the rates. -/
  | run (t : Tid) (choice : Choice)
  /-- A request calls `getRates`. -/
  | ask (t : Tid)
  /-- A call of `getRates` moves. -/
  | rates (e : RatesEvent)
  /-- A request is handed what its call of `getRates` has come to. -/
  | take (t : Tid)
  | crash (t : Tid)
  | tick (ms : ℕ)

/-- The command that a call of `getRates` answers. -/
def Cmd.forRates : Cmd → Bool
  | .getRates => true
  | _ => false

/-- `getRates` throws to a request. -/
def Sys.throwRates (s : Sys) (t : Tid) (e : Exn) : Thread → Option Sys
  | ⟨l, .call .getRates k, true⟩ =>
    some (s.setThread t ⟨l.after s.seq .getRates (.error e), k (.error e), true⟩)
  | _ => none

namespace Platform

/-- Nothing has happened. -/
def initial : Platform :=
  { site := .initial, rates := .initial, calls := fun _ => [], waiting := fun _ => false }

/-- The next command of a request is that for the rates. -/
def asksRates (p : Platform) (t : Tid) : Bool := (p.site.sys.next t).any Cmd.forRates

/-- What the call of `getRates` has come to that a request waits for. -/
def received (p : Platform) (t : Tid) : Option (Except Exn VersionedRates) :=
  if p.waiting t then (p.calls t).head?.bind p.rates.answer else none

/-- A request has called `getRates`. -/
def ask (p : Platform) (t : Tid) : Platform :=
  { p with
    calls := Function.update p.calls t (p.rates.seq :: p.calls t)
    waiting := Function.update p.waiting t true }

/-- A request has been handed what it has waited for. -/
def take (p : Platform) (t : Tid) : Platform :=
  { p with waiting := Function.update p.waiting t false }

/-- What comes of an event, if it can happen. -/
def step (env : PlatformEnv) (cfg : Config) (p : Platform) : PlatformEvent → Option Platform
  | .http r =>
    (p.site.step env.http cfg (.http r)).bind fun site =>
      match r.handle env.http p.site.auth.store.now with
      | .ok .rates => ((ratesServer env.rates).step p.rates (.spawn ())).map fun rates =>
          { p with site, rates }
      | _ => some { p with site }
  | .auth e => (p.site.step env.http cfg (.auth e)).map fun site => { p with site }
  | .run t choice =>
    if p.asksRates t then none
    else (p.site.step env.http cfg (.run t choice)).map fun site => { p with site }
  | .ask t =>
    if p.asksRates t ∧ ¬ p.waiting t then
      ((ratesServer env.rates).step p.rates (.spawn ())).map fun rates => { p.ask t with rates }
    else none
  -- calls begin as above, and there is one clock
  | .rates (.spawn _) => none
  | .rates (.tick _) => none
  | .rates e => ((ratesServer env.rates).step p.rates e).map fun rates => { p with rates }
  | .take t =>
    match p.received t with
    | none => none
    | some (.ok r) => (p.site.step env.http cfg (.run t (.rates r))).map fun site =>
        { p.take t with site }
    | some (.error e) =>
      ((p.site.sys.threads t).bind (p.site.sys.throwRates t e)).map fun sys =>
        { p.take t with site := { p.site with sys } }
  | .crash t => (p.site.step env.http cfg (.crash t)).map fun site => { p with site }
  | .tick ms =>
    (p.site.step env.http cfg (.tick ms)).bind fun site =>
      ((ratesServer env.rates).step p.rates (.tick ms)).map fun rates => { p with site, rates }

/-- Runs of the platform. -/
abbrev Runs (env : PlatformEnv) (cfg : Config) : Platform → Platform → Prop :=
  Transition.Runs (step env cfg) Transition.anyStep

end Platform

end FxExchange
