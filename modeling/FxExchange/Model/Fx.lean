import Mathlib.Algebra.Ring.Nat

/-
# Waiting for the FX provider

`fx/fx.service.ts`: for how long `FxService.getRates` may keep its caller waiting when the
rates are not cached.  The delays between the attempts and the errors of the network are up
to `axios-retry`, which is a parameter here.
-/

namespace FxExchange

/-- `FX_RETRY_MAX`, `FX_RETRY_BASE_DELAY_MS` and `FX_REQUEST_TIMEOUT_MS`. -/
structure FxConfig where
  maxRetries : ℕ := 3
  baseDelayMs : ℕ := 300
  requestTimeoutMs : ℕ := 5000

/-- What `env.validation.ts` lets through. -/
structure FxConfig.Valid (fx : FxConfig) : Prop where
  maxRetries : fx.maxRetries ≤ 10
  baseDelayMs : 100 ≤ fx.baseDelayMs ∧ fx.baseDelayMs ≤ 10000
  requestTimeoutMs : 1000 ≤ fx.requestTimeoutMs ∧ fx.requestTimeoutMs ≤ 30000

/-- The failure of an attempt. -/
structure AxiosError where
  code : Option String
  /-- `error.response?.status`. -/
  status : Option ℕ

/-- What the service takes from `axios-retry`. -/
structure AxiosRetry where
  isNetworkOrIdempotentRequestError : AxiosError → Bool
  /-- `exponentialDelay retryCount undefined delayFactor` may come to these milliseconds. -/
  exponentialDelay : ℕ → ℕ → ℕ → Prop
  exists_delay : ∀ retryCount delayFactor, ∃ ms, exponentialDelay retryCount delayFactor ms

/-- `retryCondition`. -/
def AxiosRetry.retryCondition (axiosRetry : AxiosRetry) (error : AxiosError) : Bool :=
  axiosRetry.isNetworkOrIdempotentRequestError error || error.status = some 429 ||
    500 ≤ error.status.getD 0

namespace FxConfig

variable (fx : FxConfig) (axiosRetry : AxiosRetry)

/-- `retryDelay`. -/
def retryDelay (retryCount ms : ℕ) : Prop :=
  axiosRetry.exponentialDelay retryCount fx.baseDelayMs ms

/-- The timeout of the first attempt, and from `onRetry` on that of the retries. -/
def timeout (retryCount : ℕ) : ℕ := fx.requestTimeoutMs * 2 ^ retryCount

/-- From the attempt `retryCount` on, the 0th of which is not a retry, fetching the rates may
take this long. -/
inductive Takes : ℕ → ℕ → Prop
  /-- The attempt is answered, or it fails for good. -/
  | done {retryCount ms : ℕ} (hms : ms ≤ fx.timeout retryCount) : Takes retryCount ms
  | retry {retryCount ms delay rest : ℕ} {error : AxiosError}
      (hretries : retryCount < fx.maxRetries) (hms : ms ≤ fx.timeout retryCount)
      (hcondition : axiosRetry.retryCondition error = true)
      (hdelay : fx.retryDelay axiosRetry (retryCount + 1) delay)
      (hrest : Takes (retryCount + 1) rest) : Takes retryCount (ms + delay + rest)

variable {fx axiosRetry}

/-- Every attempt that is allowed may come about, and use up its timeout. -/
lemma exists_takes {retryCount n : ℕ} (h : retryCount + n ≤ fx.maxRetries) :
    ∃ total, fx.Takes axiosRetry retryCount total ∧ fx.timeout (retryCount + n) ≤ total := by
  induction n generalizing retryCount with
  | zero => exact ⟨_, .done (Nat.le_refl _), Nat.le_refl _⟩
  | succ n ih =>
    obtain ⟨rest, hrest, hle⟩ := ih (by omega : retryCount + 1 + n ≤ fx.maxRetries)
    obtain ⟨delay, hdelay⟩ := axiosRetry.exists_delay (retryCount + 1) fx.baseDelayMs
    -- the provider is unavailable at once
    have hcondition : axiosRetry.retryCondition { code := none, status := some 503 } = true := by
      simp [AxiosRetry.retryCondition]
    refine ⟨_, .retry (by omega) (Nat.zero_le _) hcondition hdelay hrest, ?_⟩
    rw [show retryCount + (n + 1) = retryCount + 1 + n by omega]
    omega

end FxConfig

end FxExchange
