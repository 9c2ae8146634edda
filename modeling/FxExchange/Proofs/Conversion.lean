import FxExchange.Model.Money

/-
# Conversions

What the functions of `wallet/utils/money.ts` can gain by rounding, and that no cycle of
conversions gains anything: every rounding to 40 digits adds at most a tiny part to the value
of an amount, too little for a whole subunit to come of it, and the floor at the end of each
conversion only takes away.
-/

namespace FxExchange

open Rounding

/-! ## Decimal operations -/

section Decimal

variable {q q' : ℚ}

lemma decimal_nonneg (hq : 0 ≤ q) : 0 ≤ decimal q := roundSig_nonneg (by norm_num) hq

/-- The largest relative error of a decimal operation. -/
def decimalUnit : ℚ := unit 10 40

lemma decimalUnit_nonneg : 0 ≤ decimalUnit := unit_nonneg 10 40

lemma decimal_le (hq : 0 ≤ q) : decimal q ≤ (1 + decimalUnit) * q :=
  roundSig_le (by norm_num) hq

lemma decimal_mono (hq : 0 ≤ q) (h : q ≤ q') : decimal q ≤ decimal q' :=
  roundSig_mono (by norm_num) (by norm_num) hq h

/-- A small integer has few enough digits. -/
lemma decimal_intCast {n : ℤ} (h : |n| < 10 ^ 40) : decimal n = n :=
  roundSig_exact (by norm_num) (e := 0) (by exact_mod_cast h) (by simp)

lemma decimal_le_intCast {n : ℤ} (hq : 0 ≤ q) (h : q ≤ n) (hn : |n| < 10 ^ 40) : decimal q ≤ n :=
  (decimal_mono hq h).trans_eq (decimal_intCast hn)

end Decimal

/-! ## One conversion -/

lemma getSubunitFactor_pos (c : Currency) : 0 < getSubunitFactor c.code := by
  cases c <;> decide +kernel

/-- The factor of a currency, as a rational. -/
def Currency.factor (c : Currency) : ℚ := getSubunitFactor c.code

lemma Currency.factor_pos (c : Currency) : 0 < c.factor :=
  Nat.cast_pos.mpr (getSubunitFactor_pos c)

lemma convertSubunits_nonneg {a : ℤ} {f t : Currency} {rate : ℚ} (ha : 0 ≤ a) (hrate : 0 ≤ rate) :
    0 ≤ convertSubunits a f.code t.code rate := by
  have ha' : (0 : ℚ) ≤ a := by exact_mod_cast ha
  have hmajor : 0 ≤ fromSubunits a f.code := decimal_nonneg (div_nonneg ha' f.factor_pos.le)
  have hconverted : 0 ≤ decimal (fromSubunits a f.code * rate) :=
    decimal_nonneg (mul_nonneg hmajor hrate)
  exact Int.floor_nonneg.mpr (decimal_nonneg (mul_nonneg hconverted t.factor_pos.le))

/-- A conversion gains at most what its three roundings add. -/
lemma convertSubunits_le {a : ℤ} {f t : Currency} {rate : ℚ} (ha : 0 ≤ a) (hrate : 0 ≤ rate) :
    (convertSubunits a f.code t.code rate : ℚ) ≤
      (1 + decimalUnit) ^ 3 * (a / f.factor * rate * t.factor) := by
  have ha' : (0 : ℚ) ≤ a := by exact_mod_cast ha
  have hf := f.factor_pos
  have ht := t.factor_pos
  have hu : 0 ≤ 1 + decimalUnit := by linarith [decimalUnit_nonneg]
  have hmajor : 0 ≤ fromSubunits a f.code := decimal_nonneg (div_nonneg ha' hf.le)
  have hconverted : 0 ≤ decimal (fromSubunits a f.code * rate) :=
    decimal_nonneg (mul_nonneg hmajor hrate)
  have hmajor_le : fromSubunits a f.code ≤ (1 + decimalUnit) * (a / f.factor) :=
    decimal_le (div_nonneg ha' hf.le)
  calc (convertSubunits a f.code t.code rate : ℚ)
      ≤ decimal (decimal (fromSubunits a f.code * rate) * t.factor) := Int.floor_le _
    _ ≤ (1 + decimalUnit) * (decimal (fromSubunits a f.code * rate) * t.factor) :=
        decimal_le (mul_nonneg hconverted ht.le)
    _ ≤ (1 + decimalUnit) * ((1 + decimalUnit) * (fromSubunits a f.code * rate) * t.factor) := by
        have h := decimal_le (mul_nonneg hmajor hrate)
        gcongr
    _ ≤ (1 + decimalUnit) *
          ((1 + decimalUnit) * ((1 + decimalUnit) * (a / f.factor) * rate) * t.factor) := by
        gcongr
    _ = (1 + decimalUnit) ^ 3 * (a / f.factor * rate * t.factor) := by ring

/-! ## Rates -/

/-- How a conversion is priced: `convertFunds` takes the mid rate, `createQuote` the bid of
the spread. -/
inductive Pricing
  | mid
  | bid (spreadBps : ℚ)

namespace Pricing

/-- The rate that two rates to the base come to, at a pricing. -/
def rate (fromRate toRate : ℚ) : Pricing → ℚ
  | mid => crossRate fromRate toRate
  | bid spreadBps => (applySpread (crossRate fromRate toRate) spreadBps).bid

/-- The spread takes between nothing and everything. -/
def Allowed : Pricing → Prop
  | mid => True
  | bid spreadBps => 0 ≤ spreadBps ∧ spreadBps ≤ 20000

instance : DecidablePred Allowed
  | mid => isTrue trivial
  | bid spreadBps => inferInstanceAs (Decidable (0 ≤ spreadBps ∧ spreadBps ≤ 20000))

end Pricing

/-- The bid is not above the mid rate, but for the rounding. -/
lemma applySpread_bid_le {midRate spreadBps : ℚ} (hmid : 0 ≤ midRate) (h : 0 ≤ spreadBps)
    (h' : spreadBps ≤ 20000) : 0 ≤ (applySpread midRate spreadBps).bid ∧
      (applySpread midRate spreadBps).bid ≤ (1 + decimalUnit) * midRate := by
  have hbps : 0 ≤ spreadBps / 10000 := by positivity
  have hbps_le : decimal (spreadBps / 10000) ≤ (2 : ℤ) :=
    decimal_le_intCast hbps (by push_cast; linarith) (by norm_num)
  have hhalf : 0 ≤ decimal (spreadBps / 10000) / 2 := by
    have := decimal_nonneg hbps
    positivity
  have hhalf_le : decimal (decimal (spreadBps / 10000) / 2) ≤ (1 : ℤ) :=
    decimal_le_intCast hhalf (by push_cast at hbps_le ⊢; linarith) (by norm_num)
  have hkeep : 0 ≤ 1 - decimal (decimal (spreadBps / 10000) / 2) := by
    push_cast at hhalf_le
    linarith
  have hfactor := decimal_nonneg hkeep
  have hfactor_le : decimal (1 - decimal (decimal (spreadBps / 10000) / 2)) ≤ (1 : ℤ) :=
    decimal_le_intCast hkeep (by push_cast; linarith [decimal_nonneg hhalf]) (by norm_num)
  push_cast at hfactor_le
  refine ⟨decimal_nonneg (mul_nonneg hmid hfactor), ?_⟩
  calc (applySpread midRate spreadBps).bid
      ≤ decimal midRate :=
        decimal_mono (mul_nonneg hmid hfactor) (mul_le_of_le_one_right hmid hfactor_le)
    _ ≤ (1 + decimalUnit) * midRate := decimal_le hmid

/-- No conversion is priced above the quotient of the two rates, but for the rounding. -/
lemma Pricing.rate_le {x y : ℚ} (hx : 0 < x) (hy : 0 < y) {p : Pricing} (hp : p.Allowed) :
    0 ≤ p.rate x y ∧ p.rate x y ≤ (1 + decimalUnit) ^ 2 * (y / x) := by
  have hu := decimalUnit_nonneg
  have hquot : 0 ≤ y / x := by positivity
  have hmid : 0 ≤ crossRate x y := decimal_nonneg hquot
  have hmid_le : crossRate x y ≤ (1 + decimalUnit) * (y / x) := decimal_le hquot
  cases p with
  | mid =>
    refine ⟨hmid, hmid_le.trans ?_⟩
    rw [sq, mul_assoc]
    exact le_mul_of_one_le_left (by positivity) (by linarith)
  | bid spreadBps =>
    obtain ⟨hbid, hbid_le⟩ := applySpread_bid_le hmid hp.1 hp.2
    refine ⟨hbid, ?_⟩
    calc (applySpread (crossRate x y) spreadBps).bid ≤ (1 + decimalUnit) * crossRate x y := hbid_le
      _ ≤ (1 + decimalUnit) * ((1 + decimalUnit) * (y / x)) :=
          mul_le_mul_of_nonneg_left hmid_le (by linarith)
      _ = (1 + decimalUnit) ^ 2 * (y / x) := by ring

/-! ## Chains of conversions -/

/-- One conversion of a chain: the currency that it leads to, and how it is priced. -/
structure Hop where
  to_ : Currency
  pricing : Pricing

/-- Convert all of an amount. -/
def Hop.convert (rates : Currency → ℚ) (c : Currency) (a : ℤ) (hop : Hop) : ℤ :=
  convertSubunits a c.code hop.to_.code (hop.pricing.rate (rates c) (rates hop.to_))

/-- Convert the whole proceeds on and on: the currency and the amount at the end. -/
def convertAll (rates : Currency → ℚ) (c : Currency) (a : ℤ) : List Hop → Currency × ℤ
  | [] => (c, a)
  | hop :: hops => convertAll rates hop.to_ (hop.convert rates c a) hops

/-- What an amount is worth in the base currency of the rates. -/
def worth (rates : Currency → ℚ) (c : Currency) (a : ℤ) : ℚ := a / (c.factor * rates c)

variable {rates : Currency → ℚ} {c : Currency} {a : ℤ}

/-- One conversion gains at most what its five roundings add. -/
lemma Hop.worth_le (hrates : ∀ c, 0 < rates c) (ha : 0 ≤ a) {hop : Hop}
    (hhop : hop.pricing.Allowed) : 0 ≤ hop.convert rates c a ∧
      worth rates hop.to_ (hop.convert rates c a) ≤ (1 + decimalUnit) ^ 5 * worth rates c a := by
  obtain ⟨hrate, hrate_le⟩ := hop.pricing.rate_le (hrates c) (hrates hop.to_) hhop
  refine ⟨convertSubunits_nonneg ha hrate, ?_⟩
  have hu : 0 ≤ 1 + decimalUnit := by linarith [decimalUnit_nonneg]
  have ha' : (0 : ℚ) ≤ a := by exact_mod_cast ha
  have hfrom := c.factor_pos
  have hto := hop.to_.factor_pos
  have hx := hrates c
  have hy := hrates hop.to_
  unfold worth
  rw [div_le_iff₀ (by positivity)]
  calc (hop.convert rates c a : ℚ)
      ≤ (1 + decimalUnit) ^ 3 *
          (a / c.factor * hop.pricing.rate (rates c) (rates hop.to_) * hop.to_.factor) :=
        convertSubunits_le ha hrate
    _ ≤ (1 + decimalUnit) ^ 3 *
          (a / c.factor * ((1 + decimalUnit) ^ 2 * (rates hop.to_ / rates c)) *
            hop.to_.factor) := by gcongr
    _ = (1 + decimalUnit) ^ 5 * (a / (c.factor * rates c)) *
          (hop.to_.factor * rates hop.to_) := by
        field_simp

/-- A chain of conversions gains at most what all of its roundings add. -/
lemma worth_convertAll_le (hrates : ∀ c, 0 < rates c) {hops : List Hop}
    (hhops : ∀ hop ∈ hops, hop.pricing.Allowed) (ha : 0 ≤ a) :
    worth rates (convertAll rates c a hops).1 (convertAll rates c a hops).2 ≤
      (1 + decimalUnit) ^ (5 * hops.length) * worth rates c a := by
  induction hops generalizing c a with
  | nil => simp [convertAll]
  | cons hop hops ih =>
    obtain ⟨hpos, hle⟩ := Hop.worth_le (c := c) hrates ha (hhops hop List.mem_cons_self)
    have hu : 0 ≤ 1 + decimalUnit := by linarith [decimalUnit_nonneg]
    calc worth rates (convertAll rates c a (hop :: hops)).1 (convertAll rates c a (hop :: hops)).2
        ≤ (1 + decimalUnit) ^ (5 * hops.length) *
            worth rates hop.to_ (hop.convert rates c a) :=
          ih (fun hop' hmem => hhops hop' (List.mem_cons_of_mem _ hmem)) hpos
      _ ≤ (1 + decimalUnit) ^ (5 * hops.length) * ((1 + decimalUnit) ^ 5 * worth rates c a) :=
          mul_le_mul_of_nonneg_left hle (by positivity)
      _ = (1 + decimalUnit) ^ (5 * (hops.length + 1)) * worth rates c a := by ring

/-- There is no money machine: a chain of conversions that leads back to its currency does
not gain a subunit. -/
theorem no_money_machine (hrates : ∀ c, 0 < rates c) (ha : 1 ≤ a) (hlarge : a < 2 ^ 63)
    {hops : List Hop} (hlength : hops.length ≤ 10 ^ 9)
    (hhops : ∀ hop ∈ hops, hop.pricing.Allowed) (hcycle : (convertAll rates c a hops).1 = c) :
    (convertAll rates c a hops).2 ≤ a := by
  have hgain := worth_convertAll_le (c := c) hrates hhops (by omega : 0 ≤ a)
  rw [hcycle] at hgain
  generalize (convertAll rates c a hops).2 = b at hgain ⊢
  have hweight : 0 < c.factor * rates c := mul_pos c.factor_pos (hrates c)
  have hb : (b : ℚ) ≤ (1 + decimalUnit) ^ (5 * hops.length) * a := by
    rw [worth, worth, ← mul_div_assoc, div_le_div_iff_of_pos_right hweight] at hgain
    exact hgain
  by_contra hmore
  -- what the roundings of so many conversions add to so small an amount is less than one
  have hn : ((5 * hops.length : ℕ) : ℚ) * decimalUnit ≤ 5 / 2 / 10 ^ 30 := by
    have hcast : ((5 * hops.length : ℕ) : ℚ) ≤ 5 * 10 ^ 9 := by
      exact_mod_cast Nat.mul_le_mul_left 5 hlength
    calc ((5 * hops.length : ℕ) : ℚ) * decimalUnit ≤ 5 * 10 ^ 9 * decimalUnit :=
          mul_le_mul_of_nonneg_right hcast decimalUnit_nonneg
      _ = 5 / 2 / 10 ^ 30 := by
          norm_num [decimalUnit, unit]
  have hpow := one_add_pow_mul_le decimalUnit_nonneg
    (by norm_num [decimalUnit, unit]) (5 * hops.length)
  have hn0 : 0 ≤ ((5 * hops.length : ℕ) : ℚ) * decimalUnit :=
    mul_nonneg (Nat.cast_nonneg _) decimalUnit_nonneg
  generalize ((5 * hops.length : ℕ) : ℚ) * decimalUnit = x at hn hn0 hpow
  have ha0 : (0 : ℚ) ≤ a := by exact_mod_cast (by omega : 0 ≤ a)
  have ha63 : (a : ℚ) + 1 ≤ 2 ^ 63 := by exact_mod_cast hlarge
  have hb1 : (a : ℚ) + 1 ≤ b := by exact_mod_cast not_le.mp hmore
  have hx : 0 ≤ 1 - x := by linarith
  have hloss : (b : ℚ) * (1 - x) ≤ a := by
    calc (b : ℚ) * (1 - x) ≤ (1 + decimalUnit) ^ (5 * hops.length) * a * (1 - x) :=
          mul_le_mul_of_nonneg_right hb hx
      _ = (1 + decimalUnit) ^ (5 * hops.length) * (1 - x) * a := by ring
      _ ≤ 1 * a := mul_le_mul_of_nonneg_right hpow ha0
      _ = a := one_mul _
  have hone : ((a : ℚ) + 1) * (1 - x) ≤ b * (1 - x) := mul_le_mul_of_nonneg_right hb1 hx
  have htiny : ((a : ℚ) + 1) * x ≤ 2 ^ 63 * (5 / 2 / 10 ^ 30) :=
    mul_le_mul ha63 hn hn0 (by norm_num)
  have : (2 : ℚ) ^ 63 * (5 / 2 / 10 ^ 30) < 1 := by norm_num
  linarith

/-- Rates against the dollar. -/
def dollarRates : Currency → ℚ
  | .ngn => 1536
  | .jpy => 157
  | _ => 1

/-- From dollars to naira, to yen and back, with a spread on the way. -/
theorem no_money_machine_yen : (convertAll dollarRates .usd 1000
    [⟨.ngn, .mid⟩, ⟨.jpy, .bid 50⟩, ⟨.usd, .mid⟩]).2 ≤ 1000 := by
  refine no_money_machine (fun c => ?_) (by norm_num) (by norm_num) (by decide) (fun hop hmem => ?_)
    rfl
  · cases c <;> norm_num [dollarRates]
  · simp only [List.mem_cons, List.not_mem_nil, or_false] at hmem
    rcases hmem with rfl | rfl | rfl
    · trivial
    · norm_num [Pricing.Allowed]
    · trivial

end FxExchange
