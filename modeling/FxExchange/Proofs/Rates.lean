import FxExchange.Lib.Transition
import FxExchange.Model.Rates

/-
# The rates that callers get

What a call of `getRates` comes to is settled by what it finds in Redis, by the answer of the
provider and by which of its two writes succeed.  The caches keep whatever was fetched last.
-/

namespace FxExchange

open Custody (live live_eq_some_iff)
open Transition

/-- `parseRate` accepts the rate of every supported currency. -/
def VersionedRates.Usable (rates : VersionedRates) : Prop :=
  ∃ table, rates.rates = some table ∧ ∀ c, ∃ q, parseRate (table c) = .ok q

namespace FxService

variable {toISOString : ℤ → String} {caches caches' : Caches} {env env' : Surroundings}
  {rates : VersionedRates}

/-! ## One call -/

/-- The rates that the answer of the provider is made into, unless it is refused. -/
def fetched (toISOString : ℤ → String) (env : Surroundings) : Option VersionedRates :=
  match env.answer with
  | .ok data =>
    if data.result = some "success" then
      data.date.map fun ms =>
        { version := env.uuid, base := data.base_code, timestamp := toISOString ms
          rates := data.conversion_rates }
    else none
  | .error _ => none

/-- It is not refused when it says success and its time is a date. -/
lemma isSome_fetched_iff {data : FxRateResponse} (hanswer : env.answer = .ok data) :
    (fetched toISOString env).isSome ↔ data.result = some "success" ∧ data.date.isSome := by
  simp only [fetched, hanswer]
  split
  · rename_i hresult
    simp [hresult]
  · rename_i hresult
    simp [hresult]

/-- They are the rates of the body. -/
lemma rates_fetched {data : FxRateResponse} (hanswer : env.answer = .ok data)
    (h : fetched toISOString env = some rates) : rates.rates = data.conversion_rates := by
  simp only [fetched, hanswer] at h
  split at h
  · obtain ⟨timestamp, -, rfl⟩ := Option.map_eq_some_iff.mp h
    rfl
  · cases h

/-- What a call comes to that falls back. -/
def lastKnown (caches : Caches) : Except Exn VersionedRates :=
  match caches.fallback with
  | some rates => .ok rates
  | none => .error (.internalServerError
      "FX rates are temporarily unavailable. Please try again later.")

lemma perform_getFallbackRates :
    getFallbackRates.perform (serve env) caches = (caches, lastKnown caches) := by
  unfold getFallbackRates lastKnown
  rw [Prog.perform_bind, Prog.perform_command]
  show (match caches.fallback with | some rates => _ | none => _ :
    Prog Cmd.Ret Exn VersionedRates).perform _ _ = _
  cases caches.fallback <;> rfl

/-- A call that finds fresh rates. -/
lemma call_of_fresh (h : live caches.fresh env.asked = some rates) :
    call toISOString caches env = (caches, .ok rates) := by
  unfold call getRates
  rw [Prog.perform_bind, Prog.perform_command]
  simp [serve, h]

/-- A call that does not, asks the provider. -/
lemma call_of_stale (h : live caches.fresh env.asked = none) :
    call toISOString caches env = (fetchAndCacheRates toISOString).perform (serve env) caches := by
  unfold call getRates
  rw [Prog.perform_bind, Prog.perform_command]
  simp [serve, h]

/-- A call that is not given rates falls back. -/
lemma call_of_refused (h : live caches.fresh env.asked = none)
    (hfetched : fetched toISOString env = none) :
    call toISOString caches env = (caches, lastKnown caches) := by
  rw [call_of_stale h]
  unfold fetchAndCacheRates
  rw [Prog.perform_tryCatch, Prog.perform_bind, Prog.perform_command]
  unfold fetched at hfetched
  cases hanswer : env.answer with
  | error e => simp [serve, hanswer, perform_getFallbackRates]
  | ok data =>
    simp only [hanswer] at hfetched
    by_cases hresult : data.result = some "success"
    · simp only [hresult, if_true, Option.map_eq_none_iff] at hfetched
      simp [serve, hanswer, hresult, hfetched, Prog.perform_bind, timestamp,
        perform_getFallbackRates]
    · simp [serve, hanswer, hresult, Prog.perform_bind, perform_getFallbackRates]

/-- The caches after fetched rates have been stored as the fresh ones. -/
def Caches.refresh (caches : Caches) (env : Surroundings) (rates : VersionedRates) : Caches :=
  { caches with fresh := some (rates, env.stored + 1000 * cacheTtlSeconds) }

/-- A call that is given rates returns them if it can store them twice. -/
lemma call_of_fetched (h : live caches.fresh env.asked = none)
    (hfetched : fetched toISOString env = some rates) :
    call toISOString caches env =
      if env.sets .fresh then
        if env.sets .fallback then
          ({ caches.refresh env rates with fallback := some rates }, .ok rates)
        else (caches.refresh env rates, lastKnown caches)
      else (caches, lastKnown caches) := by
  rw [call_of_stale h]
  unfold fetchAndCacheRates
  rw [Prog.perform_tryCatch, Prog.perform_bind, Prog.perform_command]
  unfold fetched at hfetched
  cases hanswer : env.answer with
  | error e => simp [hanswer] at hfetched
  | ok data =>
    simp only [hanswer] at hfetched
    split at hfetched
    · rename_i hresult
      obtain ⟨text, htext, rfl⟩ := Option.map_eq_some_iff.mp hfetched
      cases hfresh : env.sets .fresh <;> cases hfallback : env.sets .fallback <;>
        simp [serve, hanswer, hresult, htext, hfresh, hfallback, Prog.perform_bind,
          timestamp, perform_getFallbackRates, Caches.refresh, lastKnown]
    · cases hfetched

/-! ## Sequences of calls -/

/-- The calls, one after the other. -/
def step (toISOString : ℤ → String) (caches : Caches) (env : Surroundings) :
    Option Caches := some (call toISOString caches env).1

/-- Both caches hold usable rates, the fresh one as long as it holds any. -/
structure Caches.Usable (caches : Caches) : Prop where
  fresh : ∀ rates deadline, caches.fresh = some (rates, deadline) → rates.Usable
  fallback : ∃ rates, caches.fallback = some rates ∧ rates.Usable

/-- A call does not store rates in the fresh cache that are not usable. -/
def StoresUsable (toISOString : ℤ → String) (caches : Caches) (env : Surroundings) : Prop :=
  live caches.fresh env.asked = none → env.sets .fresh = true →
    ∀ rates, fetched toISOString env = some rates → rates.Usable

lemma Caches.Usable.lastKnown (h : caches.Usable) :
    ∃ rates, lastKnown caches = .ok rates ∧ rates.Usable := by
  obtain ⟨rates, hfallback, husable⟩ := h.fallback
  exact ⟨rates, by rw [FxService.lastKnown, hfallback], husable⟩

lemma Caches.Usable.refresh (h : caches.Usable) (husable : rates.Usable) :
    (caches.refresh env rates).Usable := by
  refine ⟨fun rates' deadline hfresh => ?_, h.fallback⟩
  cases hfresh
  exact husable

/-- Usable caches stay so, and a call on them returns usable rates. -/
lemma Caches.Usable.call (h : caches.Usable) (hstores : StoresUsable toISOString caches env) :
    (call toISOString caches env).1.Usable ∧
      ∃ rates, (call toISOString caches env).2 = .ok rates ∧ rates.Usable := by
  cases hlive : live caches.fresh env.asked with
  | some rates =>
    obtain ⟨deadline, hfresh, -⟩ := live_eq_some_iff.mp hlive
    rw [call_of_fresh hlive]
    exact ⟨h, rates, rfl, h.fresh rates deadline hfresh⟩
  | none =>
    cases hfetched : fetched toISOString env with
    | none =>
      rw [call_of_refused hlive hfetched]
      exact ⟨h, h.lastKnown⟩
    | some rates =>
      rw [call_of_fetched hlive hfetched]
      split
      · rename_i hset
        have husable := hstores hlive hset rates hfetched
        split
        · exact ⟨⟨(h.refresh husable).fresh, rates, rfl, husable⟩, rates, rfl, husable⟩
        · exact ⟨h.refresh husable, h.lastKnown⟩
      · exact ⟨h, h.lastKnown⟩

lemma usable_of_runs
    (h : Transition.Runs (step toISOString) (StoresUsable toISOString) caches caches')
    (husable : caches.Usable) : caches'.Usable := by
  refine h.invariant husable fun caches₁ env caches₂ _ hI hok hstep => ?_
  cases hstep
  exact (hI.call hok).1

/-- A call that is given rates returns them if it can store them, or falls back to the same. -/
lemma returns_body_iff {data : FxRateResponse} (hlive : live caches.fresh env.asked = none)
    (hanswer : env.answer = .ok data) :
    (∃ rates, (call toISOString caches env).2 = .ok rates ∧
        rates.rates = data.conversion_rates) ↔
      (data.result = some "success" ∧ data.date.isSome ∧
          env.sets .fresh = true ∧ env.sets .fallback = true) ∨
        ∃ rates, caches.fallback = some rates ∧ rates.rates = data.conversion_rates := by
  rw [← and_assoc, ← isSome_fetched_iff hanswer]
  have hfallback : (∃ rates, lastKnown caches = .ok rates ∧
      rates.rates = data.conversion_rates) ↔
      ∃ rates, caches.fallback = some rates ∧ rates.rates = data.conversion_rates := by
    unfold lastKnown
    cases caches.fallback <;> simp
  cases hfetched : fetched toISOString env with
  | none =>
    rw [call_of_refused hlive hfetched]
    simpa using hfallback
  | some rates =>
    have hrates := rates_fetched hanswer hfetched
    rw [call_of_fetched hlive hfetched]
    split
    · rename_i hfresh
      split
      · rename_i hset
        simp [hfresh, hset, hrates]
      · rename_i hset
        simpa [hfresh, hset, Caches.refresh, lastKnown] using hfallback
    · rename_i hfresh
      simpa [hfresh] using hfallback

/-- A call that stores usable rates twice leaves usable caches. -/
lemma usable_of_stored (hlive : live caches.fresh env.asked = none)
    (hfetched : fetched toISOString env = some rates) (husable : rates.Usable)
    (hfresh : env.sets .fresh = true) (hfallback : env.sets .fallback = true) :
    (call toISOString caches env).1.Usable := by
  rw [call_of_fetched hlive hfetched, if_pos hfresh, if_pos hfallback]
  refine ⟨fun rates' deadline hcached => ?_, rates, rfl, husable⟩
  cases hcached
  exact husable

/-- Rates stay usable once they have been good: a call that is given rates returns them just
where it can store them (or falls back to the same ones); and after usable rates have been
stored in both caches, every call returns usable rates as long as no others are stored. -/
theorem rates_stay_usable (toISOString : ℤ → String) :
    (∀ caches env data, live caches.fresh env.asked = none → env.answer = .ok data →
      ((∃ rates, (call toISOString caches env).2 = .ok rates ∧
          rates.rates = data.conversion_rates) ↔
        (data.result = some "success" ∧ data.date.isSome ∧
            env.sets .fresh = true ∧ env.sets .fallback = true) ∨
          ∃ rates, caches.fallback = some rates ∧ rates.rates = data.conversion_rates)) ∧
    (∀ caches env rates, live caches.fresh env.asked = none →
      fetched toISOString env = some rates → rates.Usable →
      env.sets .fresh = true → env.sets .fallback = true →
      ∀ caches', Transition.Runs (step toISOString) (StoresUsable toISOString)
          (call toISOString caches env).1 caches' →
        ∀ env', StoresUsable toISOString caches' env' →
          ∃ rates', (call toISOString caches' env').2 = .ok rates' ∧ rates'.Usable) := by
  refine ⟨fun caches env data hlive hanswer => returns_body_iff hlive hanswer, ?_⟩
  intro caches env rates hlive hfetched husable hfresh hfallback caches' hrun env' hstores
  have hcaches := usable_of_stored hlive hfetched husable hfresh hfallback
  exact ((usable_of_runs hrun hcaches).call hstores).2

/-- The text of the time at which the provider has updated its rates. -/
def lastUpdate (ms : ℤ) : String :=
  if ms = 1742169600000 then "2025-03-17T00:00:00.000Z" else ""

/-- A call at the time `asked`, to which the provider answers with these rates. -/
def answered (asked : ℕ) (conversion_rates : Option (Currency → RateValue)) (stores : Bool) :
    Surroundings where
  asked
  stored := asked
  answer := .ok
    { result := some "success", base_code := "NGN"
      time_last_update_unix := .number (some 1742169600)
      conversion_rates }
  uuid := "v1"
  sets _ := stores

/-- All currencies are worth the same. -/
def parTable : Option (Currency → RateValue) := some fun _ => .finite 1 "1"

lemma fetched_answered (asked : ℕ) (rates : Option (Currency → RateValue)) (stores : Bool) :
    fetched lastUpdate (answered asked rates stores) = some
      { version := "v1", base := "NGN", timestamp := "2025-03-17T00:00:00.000Z", rates } := by
  have hdate : FxRateResponse.date
      { result := some "success", base_code := "NGN"
        time_last_update_unix := .number (some 1742169600), conversion_rates := rates } =
      some 1742169600000 := by
    show newDate (numberOfDecimal (1742169600 * 1000)) = some 1742169600000
    decide +kernel
  simp [fetched, answered, hdate, lastUpdate]

lemma usable_parTable (version base timestamp : String) :
    VersionedRates.Usable { version, base, timestamp, rates := parTable } :=
  ⟨_, rfl, fun _ => ⟨1, by decide +kernel⟩⟩

/-- The provider is not available after the rates have expired. -/
theorem rates_stay_usable_fallback : ∃ rates, (call lastUpdate
    (call lastUpdate .empty (answered 0 parTable true)).1
      { answered 90000 none true with answer := .error .unavailable }).2 = .ok rates ∧
    rates.Usable := by
  refine (rates_stay_usable lastUpdate).2 .empty (answered 0 parTable true) _ rfl
    (fetched_answered _ _ _) (usable_parTable _ _ _) rfl rfl _ .refl _ ?_
  intro hlive hset rates hfetched
  cases hfetched

/-- Rates that are not usable, once they have been stored as the fresh ones, are returned by the
next call. -/
theorem unusable_returned (hlive : live caches.fresh env.asked = none)
    (hset : env.sets .fresh = true) (hfetched : fetched toISOString env = some rates)
    (hnext : env'.asked < env.stored + 1000 * cacheTtlSeconds) :
    (call toISOString (call toISOString caches env).1 env').2 = .ok rates := by
  have hfresh : live (call toISOString caches env).1.fresh env'.asked = some rates := by
    rw [call_of_fetched hlive hfetched, if_pos hset]
    split <;> exact live_eq_some_iff.mpr ⟨_, rfl, hnext⟩
  rw [call_of_fresh hfresh]

/-- Good rates are not returned where they cannot be stored; and once the rates have expired, a
body without rates takes the place of the good ones in both caches. -/
theorem good_rates_lost :
    (call lastUpdate .empty (answered 0 parTable false)).2 = .error (.internalServerError
      "FX rates are temporarily unavailable. Please try again later.") ∧
    ∃ rates, (call lastUpdate (call lastUpdate .empty (answered 0 parTable true)).1
      (answered 90000 none true)).2 = .ok rates ∧ ¬ rates.Usable := by
  have hgood : call lastUpdate .empty (answered 0 parTable true) = _ :=
    call_of_fetched rfl (fetched_answered 0 parTable true)
  have hlive : live (call lastUpdate .empty (answered 0 parTable true)).1.fresh 90000 = none := by
    rw [hgood]
    simp [answered, Caches.refresh, cacheTtlSeconds, live]
  have hbad := call_of_fetched hlive (fetched_answered 90000 none true)
  refine ⟨?_, _, congrArg Prod.snd hbad, ?_⟩
  · rw [call_of_fetched rfl (fetched_answered 0 parTable false)]
    rfl
  · rintro ⟨table, hrates, -⟩
    cases hrates

end FxService

end FxExchange
