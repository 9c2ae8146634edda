import FxExchange.Proofs.Conversion
import FxExchange.Proofs.Subunits

/-
# What a conversion pays

The rate of a conversion is a quotient rounded to 40 digits, and the amount times this rate
is rounded to 40 digits again before the floor is taken.  What it pays is decided by what the
quotient has beyond its 40th digit: this is multiplied by the amount, and has to fit into the
fraction of a subunit that the exact amount has.
-/

namespace FxExchange

open Rounding

/-! ## Subunit factors shift the digits -/

lemma decimal_mul_factor (q : ℚ) (c : Currency) :
    decimal (q * c.factor) = decimal q * c.factor :=
  decimal_mul_getSubunitFactor q c.code

lemma decimal_div_factor (q : ℚ) (c : Currency) :
    decimal (q / c.factor) = decimal q / c.factor :=
  decimal_div_getSubunitFactor q c.code

/-! ## Whole numbers of subunits -/

variable {m : ℤ} {z : ℚ}

/-- Half a unit of the 40th digit of the numbers just below `m`. -/
def halfUnit (m : ℤ) : ℚ := ulpBelow 10 40 m / 2

/-- `z` subunits are paid as `m`: to 40 digits they are not less than `m`, and less than the
next number.  Below `10 ^ 39` this is the next whole one, and above the next with 40 digits. -/
def PaidAs (m : ℤ) (z : ℚ) : Prop :=
  if m < 10 ^ 39 then m - halfUnit m ≤ z ∧ z < m + 1 - halfUnit (m + 1)
  else tail 10 40 m = 0 ∧ Attains 10 40 z m ∧ ¬ Attains 10 40 z (m + ulp 10 40 m)

instance (m : ℤ) (z : ℚ) : Decidable (PaidAs m z) := by
  unfold PaidAs
  infer_instance

lemma decimal_eq_sub_tail (q : ℚ) : decimal q = q - tail 10 40 q :=
  roundSig_eq_sub_tail (by norm_num) q

lemma halfUnit_pos (m : ℤ) : 0 < halfUnit m :=
  half_pos (ulpBelow_pos (by norm_num) _)

lemma hasDigits_decimal (q : ℚ) : HasDigits 10 40 (decimal q) :=
  hasDigits_roundSig (by norm_num) (by norm_num) q

/-- Up to `10 ^ 39` subunits a whole number is reached from half a unit below. -/
lemma intCast_le_decimal_iff (hz : 0 ≤ z) (hmax : m ≤ 10 ^ 39) :
    (m : ℚ) ≤ decimal z ↔ m - halfUnit m ≤ z := by
  rcases le_or_gt m 0 with hm | hm
  · have hm' : (m : ℚ) ≤ 0 := by exact_mod_cast hm
    have hhalf := halfUnit_pos m
    exact ⟨fun _ => by linarith, fun _ => hm'.trans (decimal_nonneg hz)⟩
  · have hdigits : HasDigits 10 40 (m : ℚ) :=
      hasDigits_intCast (by rw [abs_of_pos hm]; omega)
    exact (le_roundSig_iff (by norm_num) (by norm_num) (by exact_mod_cast hm) hdigits).trans
      (attains_intCast_iff (by norm_num) (by decide) hm (by exact_mod_cast hmax) (by norm_num))

/-- Half a unit is less than a tenth of a subunit. -/
lemma halfUnit_lt (hmax : m ≤ 10 ^ 39) : halfUnit m < 1 / 10 := by
  have hclog : Int.clog 10 (m : ℚ) ≤ 39 := by
    rcases le_or_gt m 0 with hm | hm
    · rw [Int.clog_of_right_le_zero 10 (by exact_mod_cast hm)]
      norm_num
    · exact (Int.le_zpow_iff_clog_le (by norm_num) (by exact_mod_cast hm)).mp
        (by exact_mod_cast hmax)
  have hunit : ulpBelow 10 40 (m : ℚ) ≤ (10 : ℚ) ^ (-1 : ℤ) :=
    zpow_le_zpow_right₀ (by norm_num) (by push_cast; omega)
  rw [halfUnit]
  norm_num at hunit ⊢
  linarith

/-- With 40 digits before the point, the last one's weight is whole. -/
lemma exists_ulp_eq_pow {r : ℚ} (hr : 10 ^ 39 ≤ r) : ∃ n : ℕ, ulp 10 40 r = 10 ^ n := by
  have hpos : 0 < r := lt_of_lt_of_le (by norm_num) hr
  have hlog : 39 ≤ Int.log 10 r :=
    (Int.zpow_le_iff_le_log (by norm_num) hpos).mp (by exact_mod_cast hr)
  obtain ⟨n, hn⟩ := Int.eq_ofNat_of_zero_le (show 0 ≤ Int.log 10 r + 1 - (40 : ℕ) by omega)
  exact ⟨n, by rw [ulp, abs_of_pos hpos, hn, zpow_natCast, Nat.cast_ofNat]⟩

lemma exists_eq_intCast {r : ℚ} (h : HasDigits 10 40 r) (hr : 10 ^ 39 ≤ r) : ∃ k : ℤ, r = k := by
  obtain ⟨k, -, -, hk⟩ := h.exists_eq_mul_ulp (by norm_num) (lt_of_lt_of_le (by norm_num) hr)
  obtain ⟨n, hn⟩ := exists_ulp_eq_pow hr
  refine ⟨k * 10 ^ n, ?_⟩
  rw [hk, hn]
  push_cast
  rfl

/-- From `10 ^ 39` on only whole numbers with 40 digits are paid. -/
lemma floor_decimal_eq_iff_of_le (hm : 10 ^ 39 ≤ m) :
    ⌊decimal z⌋ = m ↔ tail 10 40 m = 0 ∧ Attains 10 40 z m ∧
      ¬ Attains 10 40 z (m + ulp 10 40 m) := by
  have hb : 1 < 10 := by norm_num
  have hp : 0 < 40 := by norm_num
  have hmq : (10 : ℚ) ^ 39 ≤ m := by exact_mod_cast hm
  have hm0 : (0 : ℚ) < m := lt_of_lt_of_le (by norm_num) hmq
  obtain ⟨n, hn⟩ := exists_ulp_eq_pow hmq
  have hulp : (1 : ℚ) ≤ ulp 10 40 (m : ℚ) := hn ▸ one_le_pow₀ (by norm_num)
  constructor
  · intro hfloor
    have hle : (m : ℚ) ≤ decimal z := Int.le_floor.mp hfloor.ge
    have hlt : decimal z < m + 1 := by
      have := Int.lt_floor_add_one (decimal z)
      rwa [hfloor] at this
    obtain ⟨k, hk⟩ := exists_eq_intCast (hasDigits_decimal z) (hmq.trans hle)
    have heq : decimal z = m := by rw [hk, ← hfloor, hk, Int.floor_intCast]
    have hdigits : HasDigits 10 40 (m : ℚ) := heq ▸ hasDigits_decimal z
    refine ⟨hdigits.tail_eq_zero hb, (le_roundSig_iff hb hp hm0 hdigits).mp hle, fun hr => ?_⟩
    have hnext : (m : ℚ) + ulp 10 40 m ≤ decimal z :=
      (le_roundSig_iff hb hp (by linarith) (hdigits.add_ulp hb hp hm0)).mpr hr
    linarith
  · rintro ⟨htail, hreach, hnext⟩
    have hdigits : HasDigits 10 40 (m : ℚ) := by
      have hm' : decimal m = m := (tail_eq_zero_iff hb).mp htail
      exact hm' ▸ hasDigits_decimal m
    have hle : (m : ℚ) ≤ decimal z := (le_roundSig_iff hb hp hm0 hdigits).mpr hreach
    have hlt : decimal z < m + ulp 10 40 m := by
      rw [← not_le]
      exact mt (le_roundSig_iff hb hp (by linarith) (hdigits.add_ulp hb hp hm0)).mp hnext
    rw [hdigits.eq_of_lt_add_ulp hb hm0 (hasDigits_decimal z) hle hlt, Int.floor_intCast]

/-- What `z` subunits are paid as is the floor of their first 40 digits. -/
theorem floor_decimal_eq_iff (hz : 0 ≤ z) : ⌊decimal z⌋ = m ↔ PaidAs m z := by
  unfold PaidAs
  split_ifs with hm
  · have hfloor : ⌊decimal z⌋ = m ↔ (m : ℚ) ≤ decimal z ∧ ¬ ((m + 1 : ℤ) : ℚ) ≤ decimal z := by
      rw [Int.floor_eq_iff, not_le]
      push_cast
      rfl
    rw [hfloor, intCast_le_decimal_iff hz hm.le, intCast_le_decimal_iff hz (by omega), not_le]
    push_cast
    rfl
  · exact floor_decimal_eq_iff_of_le (not_lt.mp hm)

/-! ## The payout as one rounded product -/

variable {f t : Currency} {a : ℤ} {x y : ℚ}

/-- How many subunits of the one currency a subunit of the other is worth, exactly. -/
def subunitRate (f t : Currency) (fromRate toRate : ℚ) : ℚ :=
  t.factor * toRate / (f.factor * fromRate)

lemma subunitRate_pos (hx : 0 < x) (hy : 0 < y) : 0 < subunitRate f t x y :=
  div_pos (mul_pos t.factor_pos hy) (mul_pos f.factor_pos hx)

/-- Only the product is rounded: the factors of the currencies shift its digits. -/
lemma convertSubunits_eq (f t : Currency) (a : ℤ) (r : ℚ) :
    convertSubunits a f.code t.code r = ⌊decimal (decimal a * r * t.factor / f.factor)⌋ := by
  have hmajor : fromSubunits a f.code = decimal a / f.factor := decimal_div_factor a f
  have hsub : toSubunits (decimal (fromSubunits a f.code * r)) t.code =
      ⌊decimal (decimal (fromSubunits a f.code * r) * t.factor)⌋ := rfl
  have hproduct : decimal a / f.factor * r * t.factor = decimal a * r * t.factor / f.factor := by
    ring
  rw [convertSubunits, hsub, hmajor, decimal_mul_factor, decimal_idem, ← decimal_mul_factor,
    hproduct]

lemma crossRate_mul_factor (f t : Currency) (x y : ℚ) :
    crossRate x y * t.factor / f.factor = decimal (subunitRate f t x y) := by
  have hquot : y / x * t.factor / f.factor = subunitRate f t x y := by
    rw [subunitRate, div_mul_eq_mul_div, div_div, mul_comm y, mul_comm x]
  rw [crossRate, ← decimal_mul_factor, ← decimal_div_factor, hquot]

/-- At the cross rate of two rates it is the product of the amount and what the rate between
subunits has in its first 40 digits. -/
lemma convertSubunits_crossRate (ha : |a| < 10 ^ 40) :
    convertSubunits a f.code t.code (crossRate x y) =
      ⌊decimal (a * (subunitRate f t x y - tail 10 40 (subunitRate f t x y)))⌋ := by
  rw [convertSubunits_eq, decimal_intCast ha, mul_assoc, mul_div_assoc, crossRate_mul_factor,
    decimal_eq_sub_tail (subunitRate f t x y)]

lemma subunitRate_sub_tail_nonneg (hx : 0 < x) (hy : 0 < y) :
    0 ≤ subunitRate f t x y - tail 10 40 (subunitRate f t x y) := by
  rw [← decimal_eq_sub_tail]
  exact decimal_nonneg (subunitRate_pos hx hy).le

/-- A rate of at most 29 digits is exact, and so are its products. -/
lemma decimal_mul_of_digits {q : ℚ} (ha : 0 ≤ a) (hmax : a ≤ 10 ^ 11) (h : HasDigits 10 29 q) :
    decimal (a * q) = a * q := by
  obtain ⟨m, e, hm, hq⟩ := h
  have hproduct : a * q = ((a * m : ℤ) : ℚ) * ((10 : ℕ) : ℚ) ^ e := by
    rw [hq, Int.cast_mul, mul_assoc]
  refine roundSig_exact (by norm_num) ?_ hproduct
  rw [abs_mul, abs_of_nonneg ha]
  calc a * |m| ≤ 10 ^ 11 * |m| := mul_le_mul_of_nonneg_right hmax (abs_nonneg m)
    _ < 10 ^ 11 * 10 ^ 29 := by push_cast at hm; omega
    _ = ((10 : ℕ) : ℤ) ^ 40 := by norm_num

/-- At such a rate every amount is paid its exact floor. -/
lemma convertSubunits_of_digits (ha : 0 ≤ a) (hmax : a ≤ 10 ^ 11)
    (h : HasDigits 10 29 (subunitRate f t x y)) :
    convertSubunits a f.code t.code (crossRate x y) = ⌊a * subunitRate f t x y⌋ := by
  have htail : tail 10 40 (subunitRate f t x y) = 0 :=
    (h.mono (by norm_num) (by norm_num)).tail_eq_zero (by norm_num)
  have hdigits : |a| < 10 ^ 40 := by
    rw [abs_of_nonneg ha]
    omega
  rw [convertSubunits_crossRate hdigits, htail, sub_zero, decimal_mul_of_digits ha hmax h]

/-! ## The exact floor -/

/-- The amount times what the rate has beyond its 40th digit, give or take half a unit of a
40th digit, is not more than the fraction of a subunit in the exact amount, and does not fill
it up to a whole one.  An amount with 40 digits before the point also has to have no more. -/
def Settled (a : ℤ) (q : ℚ) : Prop :=
  if a * q < 10 ^ 39 then
    a * tail 10 40 q ≤ Int.fract (a * q) + halfUnit ⌊a * q⌋ ∧
      -(a * tail 10 40 q) < 1 - Int.fract (a * q) - halfUnit (⌊a * q⌋ + 1)
  else PaidAs ⌊a * q⌋ (a * q - a * tail 10 40 q)

instance (a : ℤ) (q : ℚ) : Decidable (Settled a q) := by
  unfold Settled
  infer_instance

lemma settled_iff {q : ℚ} : Settled a q ↔ PaidAs ⌊a * q⌋ (a * (q - tail 10 40 q)) := by
  have hfract : Int.fract (a * q) = a * q - ⌊a * q⌋ := rfl
  rw [Settled, mul_sub]
  split_ifs with hsmall
  · have hm : ⌊a * q⌋ < 10 ^ 39 := by
      rw [Int.floor_lt]
      exact_mod_cast hsmall
    rw [PaidAs, if_pos hm, hfract]
    constructor
    · rintro ⟨h, h'⟩
      constructor <;> linarith
    · rintro ⟨h, h'⟩
      constructor <;> linarith
  · rfl

/-- A conversion pays the exact floor just where what its rate loses fits into the fraction of a
subunit; so it does at every rate with at most 29 digits. -/
theorem pays_floor_iff (f t : Currency) (hx : 0 < x) (hy : 0 < y) (ha : 1 ≤ a)
    (hmax : a ≤ 10 ^ 11) :
    (convertSubunits a f.code t.code (crossRate x y) =
        ⌊a * t.factor * y / (f.factor * x)⌋ ↔ Settled a (subunitRate f t x y)) ∧
      (HasDigits 10 29 (subunitRate f t x y) →
        convertSubunits a f.code t.code (crossRate x y) =
          ⌊a * t.factor * y / (f.factor * x)⌋) := by
  have hdigits : |a| < 10 ^ 40 := by
    rw [abs_of_pos (by omega)]
    omega
  have hexact : a * t.factor * y / (f.factor * x) = a * subunitRate f t x y := by
    rw [subunitRate]
    ring
  have hz : 0 ≤ a * (subunitRate f t x y - tail 10 40 (subunitRate f t x y)) :=
    mul_nonneg (by exact_mod_cast (by omega : 0 ≤ a)) (subunitRate_sub_tail_nonneg hx hy)
  rw [hexact]
  refine ⟨?_, convertSubunits_of_digits (by omega) hmax⟩
  rw [convertSubunits_crossRate hdigits, floor_decimal_eq_iff hz, settled_iff]

/-- A kobo more than a dollar's worth of naira, at a rate that does not divide. -/
theorem pays_floor_iff_kobo : convertSubunits 153801 "NGN" "USD" (crossRate 1538 1) =
    ⌊((153801 : ℤ) * Currency.usd.factor * 1 / (Currency.ngn.factor * 1538) : ℚ)⌋ := by
  refine (pays_floor_iff .ngn .usd (by norm_num) (by norm_num) (by norm_num) (by norm_num)).1.mpr ?_
  decide +kernel

/-- At 1538 naira to the dollar 1538 naira buy 99 cents. -/
theorem cent_lost_at_1538 :
    parseRate (.finite 1538 "1538") = .ok 1538 ∧ parseRate (.finite 1 "1") = .ok 1 ∧
      convertSubunits 153800 "NGN" "USD" (crossRate 1538 1) = 99 ∧
      ⌊((153800 : ℤ) * Currency.usd.factor * 1 / (Currency.ngn.factor * 1538) : ℚ)⌋ = 100 := by
  decide +kernel

/-! ## Splitting a conversion -/

/-- What is added to `p` subunits where they are paid: what is missing to a whole number, if
this is at most half a unit of the 40th digit, and otherwise their fraction is taken away.
With 40 digits before the point it is what lies beyond these that is taken away. -/
def carried (p : ℚ) : ℚ :=
  if p < 10 ^ 39 then
    if ⌈p⌉ - p ≤ halfUnit ⌈p⌉ then ⌈p⌉ - p else -Int.fract p
  else -tail 10 40 p

/-- The most that can be added to `p` subunits: half a unit of the 40th digit. -/
def room (p : ℚ) : ℚ := if p < 10 ^ 39 then halfUnit ⌈p⌉ else -tail 10 40 p

/-- What is added to the pieces of an amount, less the fractions that are taken from others of
them, has room in the whole amount. -/
def AddsUp (r : ℚ) (as : List ℤ) : Prop :=
  (as.map fun a : ℤ => carried (a * r)).sum ≤ room (as.sum * r)

instance (r : ℚ) (as : List ℤ) : Decidable (AddsUp r as) :=
  inferInstanceAs (Decidable (_ ≤ _))

lemma floor_le_decimal (hz : 0 ≤ z) (hsmall : z < 10 ^ 39) : (⌊z⌋ : ℚ) ≤ decimal z := by
  refine (intCast_le_decimal_iff hz ?_).mpr ?_
  · exact (Int.floor_lt.mpr (by exact_mod_cast hsmall)).le
  · linarith [Int.floor_le z, halfUnit_pos ⌊z⌋]

lemma decimal_le_ceil (hz : 0 ≤ z) (hsmall : z < 10 ^ 39) : decimal z ≤ ⌈z⌉ := by
  have hm : ⌈z⌉ ≤ 10 ^ 39 := Int.ceil_le.mpr (by exact_mod_cast hsmall.le)
  have hm0 : 0 ≤ ⌈z⌉ := Int.ceil_nonneg hz
  calc decimal z ≤ decimal ⌈z⌉ := roundSig_monotone (by norm_num) (by norm_num) (Int.le_ceil z)
    _ = ⌈z⌉ := decimal_intCast (by rw [abs_of_nonneg hm0]; omega)

lemma floor_decimal_of_le (hlarge : 10 ^ 39 ≤ z) : (⌊decimal z⌋ : ℚ) = decimal z := by
  have hpow : decimal ((10 ^ 39 : ℤ) : ℚ) = (10 ^ 39 : ℤ) := decimal_intCast (by norm_num)
  have hle : (10 : ℚ) ^ 39 ≤ decimal z := by
    calc (10 : ℚ) ^ 39 = decimal ((10 ^ 39 : ℤ) : ℚ) := by rw [hpow]; norm_num
      _ ≤ decimal z := roundSig_monotone (by norm_num) (by norm_num) (by exact_mod_cast hlarge)
  obtain ⟨k, hk⟩ := exists_eq_intCast (hasDigits_decimal z) hle
  rw [hk, Int.floor_intCast]

lemma floor_decimal (hz : 0 ≤ z) : (⌊decimal z⌋ : ℚ) = z + carried z := by
  have hceil := Int.ceil_le_floor_add_one z
  unfold carried
  split_ifs with hsmall hup
  · have hm : ⌈z⌉ ≤ 10 ^ 39 := Int.ceil_le.mpr (by exact_mod_cast hsmall.le)
    have hreach : (⌈z⌉ : ℚ) ≤ decimal z := (intCast_le_decimal_iff hz hm).mpr (by linarith)
    rw [le_antisymm (decimal_le_ceil hz hsmall) hreach, Int.floor_intCast]
    ring
  · have hm : ⌈z⌉ ≤ 10 ^ 39 := Int.ceil_le.mpr (by exact_mod_cast hsmall.le)
    have hmiss : decimal z < ⌈z⌉ := by
      rw [← not_le, intCast_le_decimal_iff hz hm]
      exact fun h => hup (by linarith)
    have hfloor : ⌊decimal z⌋ = ⌊z⌋ := by
      have hlow := Int.le_floor.mpr (floor_le_decimal hz hsmall)
      have hhigh := Int.floor_lt.mpr hmiss
      omega
    rw [hfloor, Int.fract]
    ring
  · rw [floor_decimal_of_le (not_lt.mp hsmall), decimal_eq_sub_tail, sub_eq_add_neg]

lemma carried_le_room (p : ℚ) : carried p ≤ room p := by
  have hhalf := halfUnit_pos ⌈p⌉
  have hfract := Int.fract_nonneg p
  unfold carried room
  split_ifs with hsmall hup
  · exact hup
  · linarith
  · exact le_rfl

/-- The whole numbers that are paid at most are those there is room for. -/
lemma le_floor_decimal_iff (hz : 0 ≤ z) : m ≤ ⌊decimal z⌋ ↔ (m : ℚ) ≤ z + room z := by
  constructor
  · intro h
    calc (m : ℚ) ≤ ⌊decimal z⌋ := by exact_mod_cast h
      _ = z + carried z := floor_decimal hz
      _ ≤ z + room z := by linarith [carried_le_room z]
  · intro h
    rw [Int.le_floor]
    unfold room at h
    split_ifs at h with hsmall
    · have hmax : ⌈z⌉ ≤ 10 ^ 39 := Int.ceil_le.mpr (by exact_mod_cast hsmall.le)
      rcases le_or_gt (m : ℚ) z with hle | hgt
      · calc (m : ℚ) ≤ ⌊z⌋ := by exact_mod_cast Int.le_floor.mpr hle
          _ ≤ decimal z := floor_le_decimal hz hsmall
      · -- the next whole number, and the half unit is there
        have heq : m = ⌈z⌉ := by
          refine le_antisymm (Int.lt_add_one_iff.mp ?_) (Int.ceil_le.mpr hgt.le)
          have hlt : (m : ℚ) < ((⌈z⌉ + 1 : ℤ) : ℚ) := by
            push_cast
            linarith [Int.le_ceil z, halfUnit_lt hmax]
          exact_mod_cast hlt
        rw [heq] at h ⊢
        exact (intCast_le_decimal_iff hz hmax).mpr (by linarith)
    · rw [decimal_eq_sub_tail, sub_eq_add_neg]
      exact h

/-- What the pieces are paid is the whole amount and what is carried. -/
lemma sum_floor_decimal {r : ℚ} (hr : 0 ≤ r) {as : List ℤ} (hpos : ∀ a ∈ as, 0 < a) :
    (((as.map fun a : ℤ => ⌊decimal (a * r)⌋).sum : ℤ) : ℚ) =
      as.sum * r + (as.map fun a : ℤ => carried (a * r)).sum := by
  induction as with
  | nil => simp
  | cons a as ih =>
    have ha : (0 : ℚ) < a := by exact_mod_cast hpos a List.mem_cons_self
    have hrest := ih fun c hc => hpos c (List.mem_cons_of_mem a hc)
    simp only [List.map_cons, List.sum_cons]
    rw [Int.cast_add, Int.cast_add, hrest, floor_decimal (mul_nonneg ha.le hr)]
    ring

/-- Floors add up to at most the floor of the sum. -/
lemma sum_floor_le {q : ℚ} (as : List ℤ) :
    (as.map fun a : ℤ => ⌊a * q⌋).sum ≤ ⌊as.sum * q⌋ := by
  induction as with
  | nil => simp
  | cons a as ih =>
    simp only [List.map_cons, List.sum_cons]
    calc ⌊(a : ℚ) * q⌋ + (as.map fun a : ℤ => ⌊a * q⌋).sum
        ≤ ⌊(a : ℚ) * q⌋ + ⌊(as.sum : ℚ) * q⌋ := by omega
      _ ≤ ⌊(a : ℚ) * q + as.sum * q⌋ := Int.le_floor_add _ _
      _ = ⌊((a + as.sum : ℤ) : ℚ) * q⌋ := by push_cast; ring_nf

/-- Splitting a conversion pays no more than doing it at once, just where what its pieces are
rounded up by has room in the whole; so it is at every rate with at most 29 digits. -/
theorem split_le_iff (f t : Currency) (hx : 0 < x) (hy : 0 < y) {as : List ℤ}
    (hpos : ∀ a ∈ as, 0 < a) (hmax : as.sum ≤ 10 ^ 11) :
    ((as.map fun a => convertSubunits a f.code t.code (crossRate x y)).sum ≤
        convertSubunits as.sum f.code t.code (crossRate x y) ↔
      AddsUp (subunitRate f t x y - tail 10 40 (subunitRate f t x y)) as) ∧
    (HasDigits 10 29 (subunitRate f t x y) →
      (as.map fun a => convertSubunits a f.code t.code (crossRate x y)).sum ≤
        convertSubunits as.sum f.code t.code (crossRate x y)) := by
  have hle : ∀ a ∈ as, a ≤ as.sum :=
    fun a ha => List.single_le_sum (fun b hb => (hpos b hb).le) a ha
  have hsum : 0 ≤ as.sum := List.sum_nonneg fun b hb => (hpos b hb).le
  have htotal : |as.sum| < 10 ^ 40 := by
    rw [abs_of_nonneg hsum]
    omega
  constructor
  · have hr := subunitRate_sub_tail_nonneg (f := f) (t := t) hx hy
    have hpieces : as.map (fun a => convertSubunits a f.code t.code (crossRate x y)) =
        as.map fun a : ℤ =>
          ⌊decimal (a * (subunitRate f t x y - tail 10 40 (subunitRate f t x y)))⌋ := by
      refine List.map_congr_left fun a ha => convertSubunits_crossRate ?_
      have := hle a ha
      rw [abs_of_pos (hpos a ha)]
      omega
    rw [hpieces, convertSubunits_crossRate htotal,
      le_floor_decimal_iff (mul_nonneg (by exact_mod_cast hsum) hr), sum_floor_decimal hr hpos,
      AddsUp, add_le_add_iff_left]
  · intro hdigits
    have hpieces : as.map (fun a => convertSubunits a f.code t.code (crossRate x y)) =
        as.map fun a : ℤ => ⌊a * subunitRate f t x y⌋ :=
      List.map_congr_left fun a ha => convertSubunits_of_digits (hpos a ha).le
        ((hle a ha).trans hmax) hdigits
    rw [hpieces, convertSubunits_of_digits hsum hmax hdigits]
    exact sum_floor_le as

/-- Two pieces of a conversion of naira into dollars, at a rate that does not divide. -/
theorem split_le_iff_naira :
    ([153800, 615200].map fun a => convertSubunits a "NGN" "USD" (crossRate 1538 1)).sum ≤
      convertSubunits [153800, 615200].sum "NGN" "USD" (crossRate 1538 1) := by
  refine (split_le_iff .ngn .usd (by norm_num) (by norm_num) (by decide) (by decide)).1.mpr ?_
  decide +kernel

/-- At 1538 naira to the dollar, 4 dollars' and 5 dollars' worth of naira bring a cent more
than 9 dollars' worth. -/
theorem cent_gained_by_splitting :
    ([615200, 769000].map fun a => convertSubunits a "NGN" "USD" (crossRate 1538 1)).sum = 900 ∧
      convertSubunits ([615200, 769000].sum) "NGN" "USD" (crossRate 1538 1) = 899 := by
  decide +kernel

end FxExchange
