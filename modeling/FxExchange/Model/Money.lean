import FxExchange.Lib.Rounding
import FxExchange.Model.Currency

/-
# Numbers and money

The two number types of the service and the functions of `wallet/utils/money.ts`.

A JavaScript number that holds an integer is that integer; an arithmetic result is rounded
to 53 significant bits.  The range has no upper end here: the source meets numbers beyond
the largest double only where it rejects everything above the house balance.

A `Decimal` is an exact rational; the result of an operation is rounded, ties to even, to
the 40 significant digits of `Decimal.set`.
-/

namespace FxExchange

open Rounding

/-! ## JavaScript numbers -/

/-- A request amount: an integer, or anything that `Number.isInteger` refuses (a fraction,
an infinity, `NaN`). -/
inductive JsNumber
  | integer (n : ℤ)
  | notInteger
  deriving DecidableEq, Repr

/-- The double that an exact integer result is rounded to; also `Number(b)` of a `bigint`
or of the decimal string of one. -/
def number (n : ℤ) : ℤ := ⌊roundSig 2 53 n⌋

/-- The double nearest to a decimal: `Number(s)` of its string. -/
def numberOfDecimal (q : ℚ) : ℚ := roundSig 2 53 q

/-- The decimals with `n` digits next to `x`, the nearest first. -/
def decimalsNear (n : ℕ) (x : ℚ) : List ℚ :=
  [roundSig 10 n x, ⌊x / ulp 10 n x⌋ * ulp 10 n x, ⌈x / ulp 10 n x⌉ * ulp 10 n x]

/-- `String(x)` of a double, as the decimal that it prints: the nearest of the shortest ones
that read back as `x`.  A double needs at most 17 digits. -/
def numberText (x : ℚ) : ℚ :=
  (((List.range 17).flatMap fun n => decimalsNear (n + 1) x).find?
    fun d => numberOfDecimal d = x).getD x

/-- The text of a double reads back. -/
lemma numberOfDecimal_numberText {x : ℚ} (hx : numberOfDecimal x = x) :
    numberOfDecimal (numberText x) = x := by
  unfold numberText
  cases h : ((List.range 17).flatMap fun n => decimalsNear (n + 1) x).find?
      fun d => numberOfDecimal d = x with
  | none => exact hx
  | some d => simpa using List.find?_some h

lemma number_of_natAbs_le {n : ℤ} (h : |n| ≤ 2 ^ 53) : number n = n := by
  have hexact : roundSig 2 53 (n : ℚ) = n := by
    rcases h.lt_or_eq with hlt | heq
    · exact roundSig_exact (by norm_num) (e := 0) (by exact_mod_cast hlt) (by simp)
    · -- `2 ^ 53` itself has one significant bit
      rcases abs_eq (by norm_num : (0 : ℤ) ≤ 2 ^ 53) |>.mp heq with rfl | rfl
      · exact roundSig_exact (by norm_num) (m := 1) (e := 53) (by norm_num) (by norm_num)
      · exact roundSig_exact (by norm_num) (m := -1) (e := 53) (by norm_num) (by norm_num)
  rw [number, hexact, Int.floor_intCast]

/-- Rounding keeps the sign, so a check for a negative result is exact. -/
lemma number_neg_iff {n : ℤ} : number n < 0 ↔ n < 0 := by
  constructor
  · intro h
    by_contra hn
    have hq : (0 : ℚ) ≤ n := by exact_mod_cast not_lt.mp hn
    have := Int.floor_nonneg.mpr (roundSig_nonneg (b := 2) (p := 53) (by norm_num) hq)
    exact absurd h (not_lt.mpr this)
  · intro h
    have hq : (n : ℚ) < 0 := by exact_mod_cast h
    have := roundSig_neg (b := 2) (p := 53) (by norm_num) (by norm_num) hq
    exact Int.floor_lt.mpr (by push_cast; exact this)

/-- A number that is rounded is beyond the exact ones, and stays so. -/
lemma number_eq_self {n : ℤ} (hn : 0 ≤ n) (h : number n < 2 ^ 53) : number n = n := by
  refine number_of_natAbs_le ?_
  rw [abs_of_nonneg hn]
  by_contra hlarge
  have hle : (2 : ℤ) ^ 53 ≤ number n := by
    rw [← number_of_natAbs_le (n := 2 ^ 53) (by norm_num)]
    refine Int.floor_mono (roundSig_mono (by norm_num) (by norm_num) (by norm_num) ?_)
    exact_mod_cast (not_le.mp hlarge).le
  omega

/-! ## Decimals -/

/-- A decimal operation with the exact result `q`. -/
def decimal (q : ℚ) : ℚ := roundSig 10 40 q

/-- `toFixed(dp)`: the printed decimal has `dp` places. -/
def toFixed (dp : ℕ) (q : ℚ) : ℚ := roundHalfEven (q * 10 ^ dp) / 10 ^ dp

/-- The whole subunits in an amount of the currency, rounded down. -/
def toSubunits (major : ℚ) (currency : String) : ℤ :=
  ⌊decimal (major * getSubunitFactor currency)⌋

/-- A number of subunits as an amount of the currency. -/
def fromSubunits (sub : ℤ) (currency : String) : ℚ :=
  decimal (sub / getSubunitFactor currency)

/-- The rate between two currencies, from their rates to the base. -/
def crossRate (fromRateVsBase toRateVsBase : ℚ) : ℚ := decimal (toRateVsBase / fromRateVsBase)

/-- How many whole subunits an amount in subunits comes to at a rate. -/
def convertSubunits (amountInSubunits : ℤ) (fromCurrency toCurrency : String) (rate : ℚ) : ℤ :=
  let major := fromSubunits amountInSubunits fromCurrency
  let converted := decimal (major * rate)
  toSubunits converted toCurrency

/-- The two sides of a spread around a mid rate. -/
structure Spread where
  bid : ℚ
  ask : ℚ

/-- The bid and the ask, half of the spread below and above the mid rate. -/
def applySpread (midRate spreadBps : ℚ) : Spread :=
  let halfSpread := decimal (decimal (spreadBps / 10000) / 2)
  { bid := decimal (midRate * decimal (1 - halfSpread))
    ask := decimal (midRate * decimal (1 + halfSpread)) }

/-- What the provider's answer has for a currency: nothing, or a value (with its text) that
`new Decimal` reads as a finite number, reads as `NaN` or an infinity, or throws on. -/
inductive RateValue
  | missing
  | finite (q : ℚ) (text : String)
  | notFinite (text : String)
  | invalid (text : String)
  deriving DecidableEq, Repr

/-- The rate, if it is a positive finite number. -/
def parseRate : RateValue → Except String ℚ
  | .missing => .error "FX rate is null or undefined"
  | .invalid text => .error ("[DecimalError] Invalid argument: " ++ text)
  | .notFinite text => .error ("FX rate is not a positive finite number: " ++ text)
  | .finite q text =>
    if q ≤ 0 then .error ("FX rate is not a positive finite number: " ++ text) else .ok q

end FxExchange
