import Mathlib.Data.Nat.Notation
import Mathlib.Tactic.Common

/-
# Currencies

The supported currencies (`common/constants/supported-currencies.ts`) and the number of
subunits in a major unit of each (`wallet/utils/currency.util.ts`).
-/

namespace FxExchange

/-- The codes of `SUPPORTED_CURRENCIES`. -/
inductive Currency
  | ngn | usd | eur | gbp | cad | aud | chf | jpy | cny | zar | kes | ghs
  deriving DecidableEq, Repr

namespace Currency

/-- The currency code as the API and the database spell it. -/
def code : Currency → String
  | ngn => "NGN"
  | usd => "USD"
  | eur => "EUR"
  | gbp => "GBP"
  | cad => "CAD"
  | aud => "AUD"
  | chf => "CHF"
  | jpy => "JPY"
  | cny => "CNY"
  | zar => "ZAR"
  | kes => "KES"
  | ghs => "GHS"

end Currency

/-- `SUPPORTED_CURRENCIES`. -/
def supportedCurrencies : List Currency :=
  [.ngn, .usd, .eur, .gbp, .cad, .aud, .chf, .jpy, .cny, .zar, .kes, .ghs]

/-- Upper case of one character: ASCII, and the two other characters whose upper case is an
ASCII letter.  The remaining ones become something outside ASCII or a ligature's two or
three letters, which occur in no supported code. -/
def upperChar (c : Char) : Char :=
  if c = 'ſ' then 'S' else if c = 'ı' then 'I' else c.toUpper

/-- `String.prototype.toUpperCase`, as far as comparisons with a currency code go. -/
def toUpperCase (value : String) : String := String.ofList (value.toList.map upperChar)

/-- The currency that a request string names: `isSupportedCurrency` is that there is one. -/
def supportedCurrency (value : String) : Option Currency :=
  supportedCurrencies.find? fun c => c.code = toUpperCase value

/-- Whether the string names a currency. -/
def isSupportedCurrency (value : String) : Bool := (supportedCurrency value).isSome

/-- `SUBUNIT_FACTORS`. -/
def subunitFactors : List (String × ℕ) :=
  [("NGN", 100), ("USD", 100), ("EUR", 100), ("GBP", 100), ("CAD", 100), ("AUD", 100),
   ("CHF", 100), ("JPY", 1), ("CNY", 100), ("ZAR", 100), ("KES", 100), ("GHS", 100)]

/-- `DEFAULT_FACTOR`. -/
def defaultFactor : ℕ := 100

/-- How many subunits one unit of the currency has. -/
def getSubunitFactor (currency : String) : ℕ :=
  (subunitFactors.lookup (toUpperCase currency)).getD defaultFactor

/-- Every code is its own upper case, so it names the currency it belongs to. -/
theorem supportedCurrency_code (c : Currency) : supportedCurrency c.code = some c := by
  cases c <;> decide +kernel

/-- A string that names a currency has its code as upper case. -/
theorem toUpperCase_of_supportedCurrency {value : String} {c : Currency}
    (h : supportedCurrency value = some c) : toUpperCase value = c.code := by
  have hcode := List.find?_some h
  exact (decide_eq_true_eq.mp hcode).symm

lemma mem_supportedCurrencies (c : Currency) : c ∈ supportedCurrencies := by
  cases c <;> decide

end FxExchange
