import FxExchange.Model.Money

/-
# Subunits and major units

Every factor is a power of ten, whatever string stands for the currency.  So going from
subunits to major units and back only shifts the digits of a number: the rounding of the
quotient and of the product is that of the number itself, and a number that fits into the
working precision comes back as it was.
-/

namespace FxExchange

open Rounding

/-! ## Factors shift the digits -/

/-- Whatever string stands for the currency, its factor is a power of ten. -/
lemma exists_getSubunitFactor (currency : String) :
    ∃ k : ℕ, getSubunitFactor currency = 10 ^ k := by
  have htable : ∀ row ∈ subunitFactors, row.2 = 10 ^ 0 ∨ row.2 = 10 ^ 2 := by decide
  unfold getSubunitFactor
  cases hrow : subunitFactors.lookup (toUpperCase currency) with
  | none => exact ⟨2, rfl⟩
  | some factor =>
    obtain ⟨_, _, hmem, -⟩ := List.lookup_eq_some_iff.mp hrow
    rcases htable (toUpperCase currency, factor) (by rw [hmem]; simp) with h | h
    · exact ⟨0, h⟩
    · exact ⟨2, h⟩

lemma getSubunitFactor_ne_zero (currency : String) : (getSubunitFactor currency : ℚ) ≠ 0 := by
  obtain ⟨k, hk⟩ := exists_getSubunitFactor currency
  rw [hk]
  positivity

lemma decimal_zpow_mul (k : ℤ) (q : ℚ) : decimal (10 ^ k * q) = 10 ^ k * decimal q := by
  have h := roundSig_zpow_mul (b := 10) (p := 40) (by norm_num) k q
  push_cast at h
  exact h

lemma decimal_idem (q : ℚ) : decimal (decimal q) = decimal q :=
  roundSig_idem (by norm_num) (by norm_num) q

lemma decimal_mul_getSubunitFactor (q : ℚ) (currency : String) :
    decimal (q * getSubunitFactor currency) = decimal q * getSubunitFactor currency := by
  obtain ⟨k, hk⟩ := exists_getSubunitFactor currency
  have h := decimal_zpow_mul k q
  rw [hk, mul_comm q, mul_comm (decimal q)]
  exact_mod_cast h

lemma decimal_div_getSubunitFactor (q : ℚ) (currency : String) :
    decimal (q / getSubunitFactor currency) = decimal q / getSubunitFactor currency := by
  have hne := getSubunitFactor_ne_zero currency
  have h := decimal_mul_getSubunitFactor (q / getSubunitFactor currency) currency
  rw [div_mul_cancel₀ _ hne] at h
  rw [h, mul_div_cancel_right₀ _ hne]

/-! ## There and back -/

/-- A decimal that fits into the working precision. -/
lemma decimal_eq {q : ℚ} (h : HasDigits 10 40 q) : decimal q = q := h.roundSig_eq (by norm_num)

/-- `toSubunits` takes `fromSubunits` back, for every integer of at most 40 digits, and it
is the floor of the exact product for every decimal of at most 38. -/
theorem toSubunits_floors (currency : String) :
    (∀ n : ℤ, |n| < 10 ^ 40 → toSubunits (fromSubunits n currency) currency = n) ∧
    ∀ x : ℚ, HasDigits 10 38 x → ∀ n : ℤ, toSubunits x currency = n ↔
      n ≤ x * getSubunitFactor currency ∧ x * getSubunitFactor currency < n + 1 := by
  constructor
  · intro n hn
    have hdigits : HasDigits 10 40 (n : ℚ) := hasDigits_intCast hn
    have hne := getSubunitFactor_ne_zero currency
    rw [toSubunits, fromSubunits, decimal_mul_getSubunitFactor, decimal_idem,
      decimal_div_getSubunitFactor, decimal_eq hdigits, div_mul_cancel₀ _ hne, Int.floor_intCast]
  · intro x hx n
    have hdigits : HasDigits 10 40 x := hx.mono (by norm_num) (by norm_num)
    rw [toSubunits, decimal_mul_getSubunitFactor, decimal_eq hdigits, Int.floor_eq_iff]

/-- Forty nines below zero, in a currency of two places and in one of none, and the amount
of the source's comment. -/
theorem toSubunits_floors_nines :
    toSubunits (fromSubunits (-(10 ^ 40 - 1)) "usd") "usd" = -(10 ^ 40 - 1) ∧
    toSubunits (fromSubunits (-(10 ^ 40 - 1)) "JPY") "JPY" = -(10 ^ 40 - 1) ∧
    toSubunits 10.5005 "USD" = 1050 := by
  refine ⟨(toSubunits_floors "usd").1 _ (by norm_num), (toSubunits_floors "JPY").1 _ (by norm_num),
    ((toSubunits_floors "USD").2 _ ⟨105005, -4, by norm_num, by norm_num⟩ 1050).mpr ?_⟩
  have hfactor : getSubunitFactor "USD" = 100 := by decide +kernel
  rw [hfactor]
  norm_num

end FxExchange
