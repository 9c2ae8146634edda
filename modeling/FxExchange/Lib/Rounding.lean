import Mathlib.Algebra.Order.Floor.Ring
import Mathlib.Data.Int.Log
import Mathlib.Data.Rat.Floor
import Mathlib.Tactic

/-
# Rounding to a fixed number of significant digits

Exact rationals rounded, ties to even, to `p` significant digits in base `b`.  This is the
arithmetic of binary floating point away from its smallest and largest exponents (`b = 2`)
and of decimal libraries with a working precision (`b = 10`): an operation is the exact one
followed by one rounding.
-/

namespace Rounding

/-- The integer nearest to `q`, the even one of two that are equally near. -/
def roundHalfEven (q : ℚ) : ℤ :=
  if q - ⌊q⌋ < 1 / 2 then ⌊q⌋
  else if 1 / 2 < q - ⌊q⌋ then ⌊q⌋ + 1
  else if Even ⌊q⌋ then ⌊q⌋ else ⌊q⌋ + 1

lemma floor_le_roundHalfEven (q : ℚ) : ⌊q⌋ ≤ roundHalfEven q := by
  unfold roundHalfEven
  split_ifs <;> omega

lemma roundHalfEven_le_floor_add_one (q : ℚ) : roundHalfEven q ≤ ⌊q⌋ + 1 := by
  unfold roundHalfEven
  split_ifs <;> omega

@[simp] lemma roundHalfEven_intCast (n : ℤ) : roundHalfEven n = n := by
  simp [roundHalfEven]

lemma roundHalfEven_mono {q q' : ℚ} (h : q ≤ q') : roundHalfEven q ≤ roundHalfEven q' := by
  rcases (Int.floor_mono h).lt_or_eq with hlt | heq
  · calc roundHalfEven q ≤ ⌊q⌋ + 1 := roundHalfEven_le_floor_add_one q
      _ ≤ ⌊q'⌋ := hlt
      _ ≤ roundHalfEven q' := floor_le_roundHalfEven q'
  · -- the same integer part: the larger fraction is rounded up at least as readily
    have hfrac : q - ⌊q⌋ ≤ q' - ⌊q'⌋ := by rw [heq]; linarith
    unfold roundHalfEven
    rw [heq] at hfrac ⊢
    split_ifs <;> first | omega | linarith

/-- The weight of the last of `p` significant digits of `q` in base `b`. -/
def ulp (b p : ℕ) (q : ℚ) : ℚ := (b : ℚ) ^ (Int.log b |q| + 1 - p)

/-- `q` rounded to `p` significant digits in base `b`. -/
def roundSig (b p : ℕ) (q : ℚ) : ℚ := roundHalfEven (q / ulp b p q) * ulp b p q

variable {b p : ℕ} {q : ℚ}

lemma ulp_pos (hb : 1 < b) : 0 < ulp b p q := by
  have : (0 : ℚ) < b := by exact_mod_cast (by omega : 0 < b)
  exact zpow_pos this _

/-- The weight of the digit in front of the leading one. -/
lemma pow_mul_ulp (hb : 1 < b) (p : ℕ) (q : ℚ) :
    (((b : ℤ) ^ p : ℤ) : ℚ) * ulp b p q = (b : ℚ) ^ (Int.log b |q| + 1) := by
  have hb0 : (b : ℚ) ≠ 0 := by exact_mod_cast (by omega : b ≠ 0)
  rw [ulp]
  push_cast
  rw [← zpow_natCast, ← zpow_add₀ hb0]
  congr 1
  ring

/-- A number that is a multiple of its own last digit is not changed. -/
lemma roundSig_of_eq_mul (hb : 1 < b) {m : ℤ} (h : q = m * ulp b p q) :
    roundSig b p q = q := by
  have hu : ulp b p q ≠ 0 := (ulp_pos hb).ne'
  have hdiv : q / ulp b p q = m := by rw [div_eq_iff hu]; exact h
  rw [roundSig, hdiv, roundHalfEven_intCast, ← h]

/-- A number with at most `p` significant digits is not changed. -/
lemma roundSig_exact (hb : 1 < b) {m e : ℤ} (hm : |m| < (b : ℤ) ^ p) (h : q = m * (b : ℚ) ^ e) :
    roundSig b p q = q := by
  have hb0 : (b : ℚ) ≠ 0 := by exact_mod_cast (by omega : b ≠ 0)
  rcases eq_or_ne q 0 with rfl | hq
  · exact roundSig_of_eq_mul hb (m := 0) (by simp)
  · have hlt : |q| < (b : ℚ) ^ ((p : ℤ) + e) := by
      have hpos : (0 : ℚ) < (b : ℚ) ^ e := zpow_pos (by positivity) _
      rw [h, abs_mul, abs_of_pos hpos, zpow_add₀ hb0, zpow_natCast]
      exact mul_lt_mul_of_pos_right (by exact_mod_cast hm) hpos
    have hlog : Int.log b |q| < p + e := (Int.lt_zpow_iff_log_lt hb (abs_pos.mpr hq)).mp hlt
    -- the exponent of the last digit is at most `e`, so `q` is a multiple of it
    obtain ⟨k, hk⟩ := Int.eq_ofNat_of_zero_le (show 0 ≤ e - (Int.log b |q| + 1 - p) by omega)
    refine roundSig_of_eq_mul hb (m := m * (b : ℤ) ^ k) ?_
    have he : e = (k : ℤ) + (Int.log b |q| + 1 - p) := by omega
    calc q = m * (b : ℚ) ^ e := h
      _ = m * ((b : ℚ) ^ k * ulp b p q) := by
          rw [ulp, ← zpow_natCast, ← zpow_add₀ hb0, ← he]
      _ = ((m * (b : ℤ) ^ k : ℤ) : ℚ) * ulp b p q := by push_cast; ring

lemma roundSig_nonneg (hb : 1 < b) (hq : 0 ≤ q) : 0 ≤ roundSig b p q := by
  have h : (0 : ℤ) ≤ roundHalfEven (q / ulp b p q) := by
    calc (0 : ℤ) = roundHalfEven ((0 : ℤ) : ℚ) := (roundHalfEven_intCast 0).symm
      _ ≤ _ := roundHalfEven_mono (by push_cast; exact div_nonneg hq (ulp_pos hb).le)
  exact mul_nonneg (by exact_mod_cast h) (ulp_pos hb).le

/-- Rounding never turns a negative number into zero. -/
lemma roundSig_neg (hb : 1 < b) (hp : 0 < p) (hq : q < 0) : roundSig b p q < 0 := by
  have hb1 : (1 : ℚ) ≤ b := by exact_mod_cast hb.le
  have hu := ulp_pos (p := p) (q := q) hb
  have hulp : ulp b p q ≤ -q := by
    calc ulp b p q ≤ (b : ℚ) ^ Int.log b |q| := zpow_le_zpow_right₀ hb1 (by omega)
      _ ≤ |q| := Int.zpow_log_le_self hb (abs_pos.mpr hq.ne)
      _ = -q := abs_of_neg hq
  have h : roundHalfEven (q / ulp b p q) ≤ -1 := by
    calc roundHalfEven (q / ulp b p q) ≤ roundHalfEven ((-1 : ℤ) : ℚ) := by
          refine roundHalfEven_mono ?_
          rw [div_le_iff₀ hu]
          push_cast
          linarith
      _ = -1 := roundHalfEven_intCast (-1)
  have h' : (roundHalfEven (q / ulp b p q) : ℚ) ≤ -1 := by exact_mod_cast h
  exact mul_neg_of_neg_of_pos (by linarith) hu

/-! ## The rounding error -/

/-- The largest relative error of a rounding. -/
def unit (b p : ℕ) : ℚ := (b : ℚ) ^ (1 - p : ℤ) / 2

lemma unit_nonneg (b p : ℕ) : 0 ≤ unit b p := by
  unfold unit
  positivity

lemma abs_roundHalfEven_sub_le (q : ℚ) : |roundHalfEven q - q| ≤ 1 / 2 := by
  have hfloor := Int.floor_le q
  have hlt := Int.lt_floor_add_one q
  unfold roundHalfEven
  rw [abs_le]
  split_ifs <;> constructor <;> push_cast <;> linarith

/-- Rounding moves a number by at most half of the weight of its last digit. -/
lemma abs_roundSig_sub_le (hb : 1 < b) : |roundSig b p q - q| ≤ ulp b p q / 2 := by
  have hu := ulp_pos (p := p) (q := q) hb
  have hsplit : roundSig b p q - q =
      (roundHalfEven (q / ulp b p q) - q / ulp b p q) * ulp b p q := by
    rw [sub_mul, div_mul_cancel₀ _ hu.ne', roundSig]
  calc |roundSig b p q - q|
      = |roundHalfEven (q / ulp b p q) - q / ulp b p q| * ulp b p q := by
        rw [hsplit, abs_mul, abs_of_pos hu]
    _ ≤ 1 / 2 * ulp b p q := mul_le_mul_of_nonneg_right (abs_roundHalfEven_sub_le _) hu.le
    _ = ulp b p q / 2 := by ring

/-- The weight of the last digit, as a part of the number. -/
lemma ulp_le (hb : 1 < b) (hq : q ≠ 0) : ulp b p q ≤ (b : ℚ) ^ (1 - p : ℤ) * |q| := by
  have hb0 : (b : ℚ) ≠ 0 := by exact_mod_cast (by omega : b ≠ 0)
  have hpos : (0 : ℚ) < (b : ℚ) ^ (1 - p : ℤ) := zpow_pos (by positivity) _
  calc ulp b p q = (b : ℚ) ^ (1 - p : ℤ) * (b : ℚ) ^ Int.log b |q| := by
        rw [ulp, ← zpow_add₀ hb0]
        congr 1
        ring
    _ ≤ (b : ℚ) ^ (1 - p : ℤ) * |q| :=
        mul_le_mul_of_nonneg_left (Int.zpow_log_le_self hb (abs_pos.mpr hq)) hpos.le

/-- The relative error of a rounding. -/
theorem abs_roundSig_sub_le_unit (hb : 1 < b) : |roundSig b p q - q| ≤ unit b p * |q| := by
  rcases eq_or_ne q 0 with rfl | hq
  · simp [roundSig, roundHalfEven]
  · calc |roundSig b p q - q| ≤ ulp b p q / 2 := abs_roundSig_sub_le hb
      _ ≤ (b : ℚ) ^ (1 - p : ℤ) * |q| / 2 := div_le_div_of_nonneg_right (ulp_le hb hq) (by norm_num)
      _ = unit b p * |q| := by rw [unit]; ring

/-- A rounding up stays within the relative error. -/
lemma roundSig_le (hb : 1 < b) (hq : 0 ≤ q) : roundSig b p q ≤ (1 + unit b p) * q := by
  have h := (abs_le.mp (abs_roundSig_sub_le_unit (p := p) hb (q := q))).2
  rw [abs_of_nonneg hq] at h
  linarith

/-- What `n` roundings up can come to, in terms of the largest relative error of one. -/
lemma one_add_pow_mul_le {u : ℚ} (hu : 0 ≤ u) (hu1 : u ≤ 1) (n : ℕ) :
    (1 + u) ^ n * (1 - n * u) ≤ 1 := by
  have hbernoulli : 1 - n * u ≤ (1 - u) ^ n := by
    have h := one_add_mul_le_pow (a := -u) (by linarith) n
    calc 1 - n * u = 1 + n * -u := by ring
      _ ≤ (1 + -u) ^ n := h
      _ = (1 - u) ^ n := by rw [sub_eq_add_neg]
  have hsquare : (1 + u) * (1 - u) ≤ 1 := by nlinarith
  calc (1 + u) ^ n * (1 - n * u)
      ≤ (1 + u) ^ n * (1 - u) ^ n := mul_le_mul_of_nonneg_left hbernoulli (by positivity)
    _ = ((1 + u) * (1 - u)) ^ n := (mul_pow _ _ _).symm
    _ ≤ 1 := pow_le_one₀ (mul_nonneg (by linarith) (by linarith)) hsquare

/-! ## Monotonicity -/

/-- Rounding does not go below the leading digit's weight. -/
lemma zpow_log_le_roundSig (hb : 1 < b) (hp : 0 < p) (hq : 0 < q) :
    (b : ℚ) ^ Int.log b q ≤ roundSig b p q := by
  have hb0 : (b : ℚ) ≠ 0 := by exact_mod_cast (by omega : b ≠ 0)
  have hu := ulp_pos (p := p) (q := q) hb
  -- the leading digit's weight is a multiple of the last one's
  have hmul : (b : ℚ) ^ Int.log b q = ((b : ℤ) ^ (p - 1) : ℤ) * ulp b p q := by
    rw [ulp, abs_of_pos hq]
    push_cast
    rw [← zpow_natCast, ← zpow_add₀ hb0]
    congr 1
    omega
  have hle : ((b : ℤ) ^ (p - 1) : ℤ) ≤ roundHalfEven (q / ulp b p q) := by
    rw [← roundHalfEven_intCast ((b : ℤ) ^ (p - 1))]
    refine roundHalfEven_mono ?_
    rw [le_div_iff₀ hu, ← hmul]
    exact Int.zpow_log_le_self hb hq
  rw [hmul, roundSig]
  exact mul_le_mul_of_nonneg_right (by exact_mod_cast hle) hu.le

/-- Rounding does not go above the next power of the base. -/
lemma roundSig_le_zpow_log (hb : 1 < b) (hq : 0 < q) :
    roundSig b p q ≤ (b : ℚ) ^ (Int.log b q + 1) := by
  have hu := ulp_pos (p := p) (q := q) hb
  have hmul : (b : ℚ) ^ (Int.log b q + 1) = ((b : ℤ) ^ p : ℤ) * ulp b p q := by
    rw [pow_mul_ulp hb, abs_of_pos hq]
  have hle : roundHalfEven (q / ulp b p q) ≤ ((b : ℤ) ^ p : ℤ) := by
    rw [← roundHalfEven_intCast ((b : ℤ) ^ p)]
    refine roundHalfEven_mono ?_
    rw [div_le_iff₀ hu, ← hmul]
    exact (Int.lt_zpow_succ_log_self hb q).le
  rw [hmul, roundSig]
  exact mul_le_mul_of_nonneg_right (by exact_mod_cast hle) hu.le

/-- Rounding is monotone on the numbers that are not negative. -/
theorem roundSig_mono {q' : ℚ} (hb : 1 < b) (hp : 0 < p) (hq : 0 ≤ q) (h : q ≤ q') :
    roundSig b p q ≤ roundSig b p q' := by
  have hb1 : (1 : ℚ) ≤ b := by exact_mod_cast hb.le
  rcases hq.eq_or_lt with rfl | hpos
  · calc roundSig b p 0 = 0 := by simp [roundSig, roundHalfEven]
      _ ≤ roundSig b p q' := roundSig_nonneg hb h
  · have hpos' : 0 < q' := hpos.trans_le h
    rcases (Int.log_mono_right (b := b) hpos h).lt_or_eq with hlt | heq
    · calc roundSig b p q ≤ (b : ℚ) ^ (Int.log b q + 1) := roundSig_le_zpow_log hb hpos
        _ ≤ (b : ℚ) ^ Int.log b q' := zpow_le_zpow_right₀ hb1 hlt
        _ ≤ roundSig b p q' := zpow_log_le_roundSig hb hp hpos'
    · have hulp : ulp b p q = ulp b p q' := by
        rw [ulp, ulp, abs_of_pos hpos, abs_of_pos hpos', heq]
      have hu := ulp_pos (p := p) (q := q') hb
      have hle : roundHalfEven (q / ulp b p q') ≤ roundHalfEven (q' / ulp b p q') :=
        roundHalfEven_mono (div_le_div_of_nonneg_right h hu.le)
      rw [roundSig, roundSig, hulp]
      exact mul_le_mul_of_nonneg_right (by exact_mod_cast hle) hu.le

lemma roundHalfEven_neg (q : ℚ) : roundHalfEven (-q) = -roundHalfEven q := by
  have hfloor := Int.floor_le q
  have hlt := Int.lt_floor_add_one q
  rcases hfloor.eq_or_lt with heq | hpos
  · rw [← heq, ← Int.cast_neg, roundHalfEven_intCast, roundHalfEven_intCast]
  · -- the integer part of a fraction's opposite is one further down
    have hneg : ⌊-q⌋ = -⌊q⌋ - 1 := by
      rw [Int.floor_eq_iff]
      push_cast
      constructor <;> linarith
    have heven : Even (-⌊q⌋ - 1) ↔ ¬ Even ⌊q⌋ := by
      rw [Int.even_sub_one, even_neg]
    unfold roundHalfEven
    rw [hneg]
    push_cast
    split_ifs <;> first | omega | (exfalso; linarith) | (exfalso; tauto)

lemma ulp_neg (b p : ℕ) (q : ℚ) : ulp b p (-q) = ulp b p q := by
  rw [ulp, ulp, abs_neg]

/-- Rounding treats both signs alike. -/
lemma roundSig_neg_eq (b p : ℕ) (q : ℚ) : roundSig b p (-q) = -roundSig b p q := by
  rw [roundSig, ulp_neg, neg_div, roundHalfEven_neg, roundSig]
  push_cast
  ring

/-- Rounding is monotone. -/
theorem roundSig_monotone (hb : 1 < b) (hp : 0 < p) : Monotone (roundSig b p) := by
  intro q q' h
  rcases le_total 0 q with hq | hq
  · exact roundSig_mono hb hp hq h
  · rcases le_total 0 q' with hq' | hq'
    · have hneg : 0 ≤ roundSig b p (-q) := roundSig_nonneg hb (neg_nonneg.mpr hq)
      rw [roundSig_neg_eq] at hneg
      exact (neg_nonneg.mp hneg).trans (roundSig_nonneg hb hq')
    · have hneg := roundSig_mono hb hp (neg_nonneg.mpr hq') (neg_le_neg h)
      rw [roundSig_neg_eq, roundSig_neg_eq] at hneg
      exact neg_le_neg_iff.mp hneg

/-! ## Numbers with few digits -/

/-- `q` is written with at most `p` significant digits in base `b`. -/
def HasDigits (b p : ℕ) (q : ℚ) : Prop :=
  ∃ m e : ℤ, |m| < (b : ℤ) ^ p ∧ q = m * (b : ℚ) ^ e

lemma hasDigits_intCast {n : ℤ} (h : |n| < (b : ℤ) ^ p) : HasDigits b p n :=
  ⟨n, 0, h, by simp⟩

lemma HasDigits.mono {p' : ℕ} (hb : 1 < b) (hp : p ≤ p') (h : HasDigits b p q) :
    HasDigits b p' q := by
  obtain ⟨m, e, hm, hq⟩ := h
  have hpow : (b : ℤ) ^ p ≤ (b : ℤ) ^ p' := pow_le_pow_right₀ (by omega) hp
  exact ⟨m, e, hm.trans_le hpow, hq⟩

lemma HasDigits.mul {p' : ℕ} {q' : ℚ} (hb : 1 < b) (h : HasDigits b p q)
    (h' : HasDigits b p' q') : HasDigits b (p + p') (q * q') := by
  have hb0 : (b : ℚ) ≠ 0 := by exact_mod_cast (by omega : b ≠ 0)
  obtain ⟨m, e, hm, hq⟩ := h
  obtain ⟨m', e', hm', hq'⟩ := h'
  refine ⟨m * m', e + e', ?_, ?_⟩
  · rw [abs_mul, pow_add]
    exact mul_lt_mul'' hm hm' (abs_nonneg m) (abs_nonneg m')
  · rw [hq, hq', zpow_add₀ hb0]
    push_cast
    ring

/-- What fits into the digits there are is not rounded. -/
lemma HasDigits.roundSig_eq (hb : 1 < b) (h : HasDigits b p q) : roundSig b p q = q := by
  obtain ⟨m, e, hm, hq⟩ := h
  exact roundSig_exact hb hm hq

/-! ## Scaling by the base, and rounding twice -/

lemma log_zpow_mul (hb : 1 < b) (k : ℤ) (hq : 0 < q) :
    Int.log b ((b : ℚ) ^ k * q) = k + Int.log b q := by
  have hb0 : (b : ℚ) ≠ 0 := by exact_mod_cast (by omega : b ≠ 0)
  have hk : (0 : ℚ) < (b : ℚ) ^ k := zpow_pos (by positivity) _
  have hkq : 0 < (b : ℚ) ^ k * q := mul_pos hk hq
  refine le_antisymm (Int.lt_add_one_iff.mp ?_) ?_
  · rw [← Int.lt_zpow_iff_log_lt hb hkq, add_assoc, zpow_add₀ hb0]
    exact mul_lt_mul_of_pos_left (Int.lt_zpow_succ_log_self hb q) hk
  · rw [← Int.zpow_le_iff_le_log hb hkq, zpow_add₀ hb0]
    exact mul_le_mul_of_nonneg_left (Int.zpow_log_le_self hb hq) hk.le

/-- A shift of the digits moves the last one along. -/
lemma ulp_zpow_mul (hb : 1 < b) (k : ℤ) (hq : q ≠ 0) :
    ulp b p ((b : ℚ) ^ k * q) = (b : ℚ) ^ k * ulp b p q := by
  have hb0 : (b : ℚ) ≠ 0 := by exact_mod_cast (by omega : b ≠ 0)
  have hk : (0 : ℚ) < (b : ℚ) ^ k := zpow_pos (by positivity) _
  rw [ulp, ulp, abs_mul, abs_of_pos hk, log_zpow_mul hb k (abs_pos.mpr hq), ← zpow_add₀ hb0]
  congr 1
  ring

/-- Rounding commutes with a shift of the digits. -/
theorem roundSig_zpow_mul (hb : 1 < b) (k : ℤ) (q : ℚ) :
    roundSig b p ((b : ℚ) ^ k * q) = (b : ℚ) ^ k * roundSig b p q := by
  have hk : (b : ℚ) ^ k ≠ 0 := (zpow_pos (by exact_mod_cast (by omega : 0 < b)) k).ne'
  rcases eq_or_ne q 0 with rfl | hq
  · simp [roundSig, roundHalfEven]
  · rw [roundSig, ulp_zpow_mul hb k hq, mul_div_mul_left _ _ hk, roundSig]
    ring

lemma abs_roundHalfEven_div_ulp_le (hb : 1 < b) (q : ℚ) :
    |roundHalfEven (q / ulp b p q)| ≤ (b : ℤ) ^ p := by
  have hu := ulp_pos (p := p) (q := q) hb
  have hle : |q| / ulp b p q ≤ ((b ^ p : ℤ) : ℚ) := by
    rw [div_le_iff₀ hu, pow_mul_ulp hb]
    exact (Int.lt_zpow_succ_log_self hb _).le
  rw [abs_le]
  constructor
  · rw [← roundHalfEven_intCast (-(b : ℤ) ^ p)]
    refine roundHalfEven_mono ?_
    rw [Int.cast_neg, neg_le, ← neg_div]
    exact (div_le_div_of_nonneg_right (neg_le_abs q) hu.le).trans hle
  · rw [← roundHalfEven_intCast ((b : ℤ) ^ p)]
    exact roundHalfEven_mono ((div_le_div_of_nonneg_right (le_abs_self q) hu.le).trans hle)

/-- A rounded number has the digits that it has been rounded to. -/
lemma hasDigits_roundSig (hb : 1 < b) (hp : 0 < p) (q : ℚ) : HasDigits b p (roundSig b p q) := by
  rcases (abs_roundHalfEven_div_ulp_le (p := p) hb q).lt_or_eq with hlt | heq
  · exact ⟨_, _, hlt, rfl⟩
  · -- the rounding has carried into a new leading digit
    have hone : |(1 : ℤ)| < (b : ℤ) ^ p := by
      rw [abs_one]
      exact one_lt_pow₀ (by exact_mod_cast hb) hp.ne'
    rcases (abs_eq (by positivity)).mp heq with h | h
    · refine ⟨1, Int.log b |q| + 1, hone, ?_⟩
      rw [roundSig, h, pow_mul_ulp hb, Int.cast_one, one_mul]
    · refine ⟨-1, Int.log b |q| + 1, by simpa using hone, ?_⟩
      rw [roundSig, h, Int.cast_neg, neg_mul, pow_mul_ulp hb, Int.cast_neg, Int.cast_one,
        neg_one_mul]

/-- A rounded number is not changed by a second rounding. -/
theorem roundSig_idem (hb : 1 < b) (hp : 0 < p) (q : ℚ) :
    roundSig b p (roundSig b p q) = roundSig b p q :=
  (hasDigits_roundSig hb hp q).roundSig_eq hb

/-! ## Mid-points -/

/-- `q` is above the mid-point under `k`; from the mid-point itself an even `k` is reached. -/
def Clears (q : ℚ) (k : ℤ) : Prop := k - 1 / 2 < q ∨ q = k - 1 / 2 ∧ Even k

instance (q : ℚ) (k : ℤ) : Decidable (Clears q k) :=
  inferInstanceAs (Decidable (_ ∨ _))

lemma le_roundHalfEven_iff {k : ℤ} : k ≤ roundHalfEven q ↔ Clears q k := by
  have hfloor := Int.floor_le q
  have hlt := Int.lt_floor_add_one q
  have hlow := floor_le_roundHalfEven q
  have hhigh := roundHalfEven_le_floor_add_one q
  rcases lt_trichotomy k (⌊q⌋ + 1) with hk | rfl | hk
  · have hkq : (k : ℚ) ≤ ⌊q⌋ := by exact_mod_cast Int.lt_add_one_iff.mp hk
    exact ⟨fun _ => .inl (by linarith), fun _ => by omega⟩
  · -- the next integer: the definition decides
    unfold roundHalfEven Clears
    push_cast
    have heven : Even (⌊q⌋ + 1) ↔ ¬ Even ⌊q⌋ := Int.even_add_one
    split_ifs with hdown hup htie
    · exact ⟨fun h => by omega, fun h => by rcases h with h | h <;> linarith [h]⟩
    · exact ⟨fun _ => .inl (by linarith), fun _ => le_rfl⟩
    · refine ⟨fun h => by omega, fun h => ?_⟩
      rcases h with h | ⟨-, h⟩
      · linarith
      · exact absurd htie (heven.mp h)
    · exact ⟨fun _ => .inr ⟨by linarith, heven.mpr htie⟩, fun _ => le_rfl⟩
  · have hkq : (⌊q⌋ : ℚ) + 2 ≤ k := by exact_mod_cast (by omega : ⌊q⌋ + 2 ≤ k)
    refine ⟨fun h => by omega, fun h => ?_⟩
    rcases h with h | ⟨h, -⟩ <;> linarith

/-! ## What lies beyond the last digit -/

/-- What `q` is above its nearest integer: the fraction, or what is missing to a whole. -/
def residue (q : ℚ) : ℚ :=
  if Int.fract q < 1 / 2 ∨ Int.fract q = 1 / 2 ∧ Even ⌊q⌋ then Int.fract q else Int.fract q - 1

/-- What `q` has beyond its `p`-th digit, negative where less is missing to the next number
with `p` digits. -/
def tail (b p : ℕ) (q : ℚ) : ℚ := residue (q / ulp b p q) * ulp b p q

lemma roundHalfEven_eq_sub (q : ℚ) : (roundHalfEven q : ℚ) = q - residue q := by
  have hfract : Int.fract q = q - ⌊q⌋ := rfl
  unfold roundHalfEven residue
  rw [hfract]
  split_ifs with hlow hsmall hhigh hbig heven htie
  · ring
  · exact absurd (.inl hlow) hsmall
  · rcases hbig with h | ⟨h, -⟩ <;> linarith
  · push_cast
    ring
  · ring
  · exact absurd (.inr ⟨le_antisymm (not_lt.mp hhigh) (not_lt.mp hlow), heven⟩) htie
  · rcases ‹_ ∨ _› with h | ⟨-, h⟩
    · exact absurd h hlow
    · exact absurd h heven
  · push_cast
    ring

/-- Rounding takes away what lies beyond the last digit. -/
theorem roundSig_eq_sub_tail (hb : 1 < b) (q : ℚ) : roundSig b p q = q - tail b p q := by
  have hu : ulp b p q ≠ 0 := (ulp_pos hb).ne'
  rw [roundSig, roundHalfEven_eq_sub, sub_mul, div_mul_cancel₀ _ hu, tail]

lemma tail_eq_zero_iff (hb : 1 < b) : tail b p q = 0 ↔ roundSig b p q = q := by
  rw [roundSig_eq_sub_tail hb, sub_eq_self]

lemma HasDigits.tail_eq_zero (hb : 1 < b) (h : HasDigits b p q) : tail b p q = 0 :=
  (tail_eq_zero_iff hb).mpr (h.roundSig_eq hb)

lemma abs_tail_le (hb : 1 < b) (q : ℚ) : |tail b p q| ≤ unit b p * |q| := by
  have h := abs_roundSig_sub_le_unit (p := p) hb (q := q)
  rwa [roundSig_eq_sub_tail hb, sub_sub_cancel_left, abs_neg] at h

/-- A difference `d` that takes a number with the nearest integer `k` past the mid-point at the
distance `c`; from the mid-point itself the number goes back to an even `k`. -/
def Crosses (k : ℤ) (c d : ℚ) : Prop := c < d ∨ c = d ∧ ¬ Even k

instance (k : ℤ) (c d : ℚ) : Decidable (Crosses k c d) := inferInstanceAs (Decidable (_ ∨ _))

/-- A smaller number is rounded to a smaller integer if the difference crosses the mid-point
below. -/
lemma roundHalfEven_lt_iff {r : ℚ} : roundHalfEven q < roundHalfEven r ↔
    Crosses (roundHalfEven r) (1 / 2 + residue r) (r - q) := by
  have hr := roundHalfEven_eq_sub r
  rw [← not_le, le_roundHalfEven_iff, Clears, Crosses, hr]
  constructor
  · intro h
    rcases lt_trichotomy q (r - residue r - 1 / 2) with hlt | heq | hgt
    · exact .inl (by linarith)
    · exact .inr ⟨by linarith, fun heven => h (.inr ⟨heq, heven⟩)⟩
    · exact absurd (.inl hgt) h
  · rintro (h | ⟨h, hodd⟩) (h' | ⟨h', heven⟩)
    · linarith
    · linarith
    · linarith
    · exact hodd heven

/-- A larger number is rounded to a larger integer if the difference crosses the mid-point
above. -/
lemma lt_roundHalfEven_iff {r : ℚ} : roundHalfEven r < roundHalfEven q ↔
    Crosses (roundHalfEven r) (1 / 2 - residue r) (q - r) := by
  have hr := roundHalfEven_eq_sub r
  rw [← Int.add_one_le_iff, le_roundHalfEven_iff, Clears, Crosses, Int.even_add_one]
  push_cast
  rw [hr]
  refine or_congr ?_ (and_congr_left fun _ => ?_)
  · constructor <;> intro h <;> linarith
  · constructor <;> intro h <;> linarith

/-! ## Which numbers a rounding reaches -/

/-- The weight of the last of `p` digits of the numbers just below `y`. -/
def ulpBelow (b p : ℕ) (y : ℚ) : ℚ := (b : ℚ) ^ (Int.clog b y - p)

/-- `q` is at most half a unit in the last of `p` digits short of `y`; from half way, `y` is
reached where it is an even number of units. -/
def Attains (b p : ℕ) (q y : ℚ) : Prop :=
  y - ulpBelow b p y / 2 < q ∨ q = y - ulpBelow b p y / 2 ∧ Even ⌊y / ulpBelow b p y⌋

instance (b p : ℕ) (q y : ℚ) : Decidable (Attains b p q y) :=
  inferInstanceAs (Decidable (_ ∨ _))

lemma ulpBelow_pos (hb : 1 < b) (y : ℚ) : 0 < ulpBelow b p y := by
  have : (0 : ℚ) < b := by exact_mod_cast (by omega : 0 < b)
  exact zpow_pos this _

/-- A number with `p` digits is a multiple of the last one's weight just below it. -/
lemma HasDigits.exists_eq_mul_ulpBelow (hb : 1 < b) {y : ℚ} (hy : 0 < y)
    (h : HasDigits b p y) : ∃ m : ℤ, y = m * ulpBelow b p y := by
  have hb0 : (b : ℚ) ≠ 0 := by exact_mod_cast (by omega : b ≠ 0)
  obtain ⟨m, e, hm, hme⟩ := h
  have hlt : y < (b : ℚ) ^ ((p : ℤ) + e) := by
    have hpos : (0 : ℚ) < (b : ℚ) ^ e := zpow_pos (by positivity) _
    have hmp : (m : ℚ) < (b : ℚ) ^ p := by exact_mod_cast (le_abs_self m).trans_lt hm
    rw [hme, zpow_add₀ hb0, zpow_natCast]
    exact mul_lt_mul_of_pos_right hmp hpos
  have hclog : Int.clog b y ≤ p + e := (Int.le_zpow_iff_clog_le hb hy).mp hlt.le
  obtain ⟨k, hk⟩ := Int.eq_ofNat_of_zero_le (show 0 ≤ e - (Int.clog b y - p) by omega)
  refine ⟨m * (b : ℤ) ^ k, ?_⟩
  have he : e = (k : ℤ) + (Int.clog b y - p) := by omega
  calc y = m * (b : ℚ) ^ e := hme
    _ = m * ((b : ℚ) ^ k * ulpBelow b p y) := by
        rw [ulpBelow, ← zpow_natCast, ← zpow_add₀ hb0, ← he]
    _ = ((m * (b : ℤ) ^ k : ℤ) : ℚ) * ulpBelow b p y := by push_cast; ring

/-- Between a number with `p` digits and the power of the base below it there is at least one
unit. -/
lemma HasDigits.zpow_clog_add_ulpBelow_le (hb : 1 < b) (hp : 0 < p) {y : ℚ} (hy : 0 < y)
    (h : HasDigits b p y) : (b : ℚ) ^ (Int.clog b y - 1) + ulpBelow b p y ≤ y := by
  have hb0 : (b : ℚ) ≠ 0 := by exact_mod_cast (by omega : b ≠ 0)
  have hw := ulpBelow_pos (p := p) hb y
  obtain ⟨m, hm⟩ := h.exists_eq_mul_ulpBelow hb hy
  have hpow : (b : ℚ) ^ (Int.clog b y - 1) = ((b : ℤ) ^ (p - 1) : ℤ) * ulpBelow b p y := by
    rw [ulpBelow]
    push_cast
    rw [← zpow_natCast, ← zpow_add₀ hb0]
    congr 1
    omega
  have hlt : (((b : ℤ) ^ (p - 1) : ℤ) : ℚ) * ulpBelow b p y < m * ulpBelow b p y := by
    rw [← hpow, ← hm]
    exact Int.zpow_pred_clog_lt_self hb hy
  have hcount : (b : ℤ) ^ (p - 1) + 1 ≤ m :=
    Int.cast_lt.mp ((mul_lt_mul_iff_of_pos_right hw).mp hlt)
  calc (b : ℚ) ^ (Int.clog b y - 1) + ulpBelow b p y
      = (((b : ℤ) ^ (p - 1) + 1 : ℤ) : ℚ) * ulpBelow b p y := by
        rw [hpow, Int.cast_add, Int.cast_one, add_mul, one_mul]
    _ ≤ m * ulpBelow b p y := mul_le_mul_of_nonneg_right (Int.cast_le.mpr hcount) hw.le
    _ = y := hm.symm

/-- A rounding gets to a number with `p` digits from where it is reached. -/
theorem le_roundSig_iff (hb : 1 < b) (hp : 0 < p) {y : ℚ} (hy : 0 < y) (h : HasDigits b p y) :
    y ≤ roundSig b p q ↔ Attains b p q y := by
  have hb0 : (b : ℚ) ≠ 0 := by exact_mod_cast (by omega : b ≠ 0)
  have hw := ulpBelow_pos (p := p) hb y
  obtain ⟨m, hm⟩ := h.exists_eq_mul_ulpBelow hb hy
  have hfloor : ⌊y / ulpBelow b p y⌋ = m := by
    rw [div_eq_iff hw.ne' |>.mpr hm, Int.floor_intCast]
  rw [Attains, hfloor]
  rcases le_or_gt y q with hyq | hqy
  · -- from `y` on, by monotonicity
    refine ⟨fun _ => .inl (by linarith), fun _ => ?_⟩
    exact (h.roundSig_eq hb).symm.trans_le (roundSig_monotone hb hp hyq)
  rcases le_or_gt ((b : ℚ) ^ (Int.clog b y - 1)) q with hlow | hlow
  · -- among the numbers just below `y` the units are those of `q`
    have hq : 0 < q := (zpow_pos (by positivity) _).trans_le hlow
    have hlog : Int.log b q = Int.clog b y - 1 := by
      refine le_antisymm ?_ ((Int.zpow_le_iff_le_log hb hq).mp hlow)
      have hlt : q < (b : ℚ) ^ Int.clog b y := hqy.trans_le (Int.self_le_zpow_clog hb y)
      have := (Int.lt_zpow_iff_log_lt hb hq).mp hlt
      omega
    have hulp : ulp b p q = ulpBelow b p y := by
      rw [ulp, ulpBelow, abs_of_pos hq, hlog, sub_add_cancel]
    have hunits : y ≤ roundSig b p q ↔ Clears (q / ulpBelow b p y) m := by
      rw [roundSig, hulp, ← le_roundHalfEven_iff]
      nth_rewrite 1 [hm]
      rw [mul_le_mul_iff_of_pos_right hw, Int.cast_le]
    have hhalf : y - ulpBelow b p y / 2 = (m - 1 / 2) * ulpBelow b p y := by
      nth_rewrite 1 [hm]
      ring
    rw [hunits, Clears, hhalf, lt_div_iff₀ hw, div_eq_iff hw.ne']
  · -- further below, a power of the base lies between
    have hdigits : HasDigits b p ((b : ℚ) ^ (Int.clog b y - 1)) :=
      ⟨1, Int.clog b y - 1, by rw [abs_one]; exact one_lt_pow₀ (by exact_mod_cast hb) hp.ne',
        by rw [Int.cast_one, one_mul]⟩
    have hgap := h.zpow_clog_add_ulpBelow_le hb hp hy
    have hmono := roundSig_monotone hb hp hlow.le
    rw [hdigits.roundSig_eq hb] at hmono
    refine ⟨fun hle => absurd (hle.trans hmono) (by linarith), fun hr => ?_⟩
    rcases hr with hr | ⟨hr, -⟩ <;> linarith

/-- Below the numbers with all their digits before the point, the whole numbers are even
numbers of units. -/
theorem attains_intCast_iff (hb : 1 < b) (heven : Even b) {m : ℤ} (hm : 0 < m)
    (hmax : m ≤ (b : ℤ) ^ (p - 1)) (hp : 0 < p) :
    Attains b p q m ↔ m - ulpBelow b p m / 2 ≤ q := by
  have hb0 : (b : ℚ) ≠ 0 := by exact_mod_cast (by omega : b ≠ 0)
  have hw := ulpBelow_pos (p := p) hb (m : ℚ)
  have hclog : Int.clog b (m : ℚ) ≤ ((p - 1 : ℕ) : ℤ) := by
    refine (Int.le_zpow_iff_clog_le hb (by exact_mod_cast hm)).mp ?_
    rw [zpow_natCast]
    exact_mod_cast hmax
  obtain ⟨k, hk⟩ := Int.eq_ofNat_of_zero_le
    (show 0 ≤ ((p - 1 : ℕ) : ℤ) - Int.clog b (m : ℚ) by omega)
  have hunits : (m : ℚ) / ulpBelow b p m = ((m * (b : ℤ) ^ (k + 1) : ℤ) : ℚ) := by
    rw [div_eq_iff hw.ne', ulpBelow]
    push_cast
    rw [mul_assoc, ← zpow_natCast, ← zpow_add₀ hb0]
    rw [show ((k + 1 : ℕ) : ℤ) + (Int.clog b (m : ℚ) - p) = 0 by omega, zpow_zero, mul_one]
  have hunits_even : Even ⌊(m : ℚ) / ulpBelow b p m⌋ := by
    rw [hunits, Int.floor_intCast, pow_succ]
    exact (((Int.even_coe_nat b).mpr heven).mul_left _).mul_left _
  rw [Attains, le_iff_lt_or_eq]
  exact or_congr_right ⟨fun h => h.1.symm, fun h => ⟨h.symm, hunits_even⟩⟩

/-! ## From one number with `p` digits to the next -/

/-- A number with `p` digits is a multiple of its last one's weight, and less than `b ^ p` times
it. -/
lemma HasDigits.exists_eq_mul_ulp (hb : 1 < b) (hq : 0 < q) (h : HasDigits b p q) :
    ∃ m : ℤ, 0 ≤ m ∧ m + 1 ≤ (b : ℤ) ^ p ∧ q = m * ulp b p q := by
  have hu := ulp_pos (p := p) (q := q) hb
  have hmul : q = roundHalfEven (q / ulp b p q) * ulp b p q := (h.roundSig_eq hb).symm
  have hpow := pow_mul_ulp hb p q
  rw [abs_of_pos hq] at hpow
  refine ⟨_, ?_, ?_, hmul⟩
  · rw [hmul] at hq
    exact_mod_cast ((mul_pos_iff_of_pos_right hu).mp hq).le
  · have hlt : q < (b : ℚ) ^ (Int.log b q + 1) := Int.lt_zpow_succ_log_self hb q
    rw [← hpow] at hlt
    nth_rewrite 1 [hmul] at hlt
    exact Int.cast_lt.mp ((mul_lt_mul_iff_of_pos_right hu).mp hlt)

/-- The next number has no more digits. -/
lemma HasDigits.add_ulp (hb : 1 < b) (hp : 0 < p) (hq : 0 < q) (h : HasDigits b p q) :
    HasDigits b p (q + ulp b p q) := by
  obtain ⟨m, hm0, hm, hmul⟩ := h.exists_eq_mul_ulp hb hq
  have hnext : q + ulp b p q = (m + 1 : ℤ) * ulp b p q := by
    nth_rewrite 1 [hmul]
    push_cast
    ring
  rcases hm.lt_or_eq with hlt | heq
  · exact ⟨m + 1, _, by rwa [abs_of_nonneg (by omega)], hnext⟩
  · -- the next power of the base
    refine ⟨1, Int.log b |q| + 1, ?_, ?_⟩
    · rw [abs_one]
      exact one_lt_pow₀ (by exact_mod_cast hb) hp.ne'
    · rw [hnext, heq, pow_mul_ulp hb, Int.cast_one, one_mul]

/-- Up to the next number there is none with as few digits. -/
lemma HasDigits.eq_of_lt_add_ulp (hb : 1 < b) {r : ℚ} (hq : 0 < q) (h : HasDigits b p q)
    (hr : HasDigits b p r) (hle : q ≤ r) (hlt : r < q + ulp b p q) : r = q := by
  have hu := ulp_pos (p := p) (q := q) hb
  have hr0 : 0 < r := hq.trans_le hle
  obtain ⟨m, hm0, hm, hmul⟩ := h.exists_eq_mul_ulp hb hq
  obtain ⟨k, -, -, hk⟩ := hr.exists_eq_mul_ulp hb hr0
  have hpow := pow_mul_ulp hb p q
  rw [abs_of_pos hq] at hpow
  -- both have their leading digit in the same place
  have hlog : Int.log b r = Int.log b q := by
    refine le_antisymm (Int.lt_add_one_iff.mp ?_) (Int.log_mono_right hq hle)
    refine (Int.lt_zpow_iff_log_lt hb hr0).mp (hlt.trans_le ?_)
    rw [← hpow]
    calc q + ulp b p q = ((m + 1 : ℤ) : ℚ) * ulp b p q := by
          nth_rewrite 1 [hmul]
          push_cast
          ring
      _ ≤ (((b : ℤ) ^ p : ℤ) : ℚ) * ulp b p q :=
          mul_le_mul_of_nonneg_right (Int.cast_le.mpr hm) hu.le
  have hulp : ulp b p r = ulp b p q := by rw [ulp, ulp, abs_of_pos hr0, abs_of_pos hq, hlog]
  rw [hulp] at hk
  have hmk : m ≤ k := by
    rw [hk] at hle
    nth_rewrite 1 [hmul] at hle
    exact Int.cast_le.mp ((mul_le_mul_iff_of_pos_right hu).mp hle)
  have hkm : k < m + 1 := by
    rw [hk] at hlt
    nth_rewrite 2 [hmul] at hlt
    have hlt' : (k : ℚ) * ulp b p q < ((m + 1 : ℤ) : ℚ) * ulp b p q := by
      push_cast
      linarith
    exact Int.cast_lt.mp ((mul_lt_mul_iff_of_pos_right hu).mp hlt')
  rw [hk, show k = m by omega]
  exact hmul.symm

end Rounding
