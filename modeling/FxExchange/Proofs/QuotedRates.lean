import FxExchange.Proofs.Exactness
import FxExchange.Proofs.Payouts
import FxExchange.Proofs.Terms

/-
# The prices of a quote

A quote is priced at the bid of a spread around the mid rate of its snapshot.  The bid is
computed, and the proceeds with it, in 40 digits; what the quote shows of its rates has ten
decimals.
-/

namespace FxExchange

open Rounding Service Transition
open Prog (wp_bind wp_command)

variable {cfg : Config}

/-! ## Payouts are monotone -/

section Monotone

variable {f t : Currency} {a a' : ℤ} {r r' mid spreadBps : ℚ}

lemma decimal_monotone : Monotone decimal := roundSig_monotone (by norm_num) (by norm_num)

lemma decimal_nonpos {q : ℚ} (hq : q ≤ 0) : decimal q ≤ 0 := by
  have hzero : decimal ((0 : ℤ) : ℚ) = (0 : ℤ) := decimal_intCast (by norm_num)
  push_cast at hzero
  exact (decimal_monotone hq).trans_eq hzero

lemma decimal_one : decimal 1 = 1 := by
  have hone : decimal ((1 : ℤ) : ℚ) = (1 : ℤ) := decimal_intCast (by norm_num)
  push_cast at hone
  exact hone

/-- At one rate a larger amount pays no less. -/
lemma convertSubunits_mono_amount (hr : 0 ≤ r) (ha : a ≤ a') :
    convertSubunits a f.code t.code r ≤ convertSubunits a' f.code t.code r := by
  have hf := f.factor_pos
  have ht := t.factor_pos
  have ha' : decimal a ≤ decimal a' := decimal_monotone (by exact_mod_cast ha)
  rw [convertSubunits_eq, convertSubunits_eq]
  refine Int.floor_mono (decimal_monotone ?_)
  gcongr

/-- At a better rate an amount pays no less. -/
lemma convertSubunits_mono_rate (ha : 0 ≤ a) (hr : r ≤ r') :
    convertSubunits a f.code t.code r ≤ convertSubunits a f.code t.code r' := by
  have hf := f.factor_pos
  have ht := t.factor_pos
  have ha' : 0 ≤ decimal a := decimal_nonneg (by exact_mod_cast ha)
  rw [convertSubunits_eq, convertSubunits_eq]
  refine Int.floor_mono (decimal_monotone ?_)
  gcongr

/-- What is not worth anything at a rate that is not positive. -/
lemma convertSubunits_nonpos (ha : 0 ≤ a) (hr : r ≤ 0) :
    convertSubunits a f.code t.code r ≤ 0 := by
  have hf := f.factor_pos
  have ht := t.factor_pos
  have ha' : 0 ≤ decimal a := decimal_nonneg (by exact_mod_cast ha)
  have hproduct : decimal a * r * t.factor / f.factor ≤ 0 :=
    div_nonpos_of_nonpos_of_nonneg
      (mul_nonpos_of_nonpos_of_nonneg (mul_nonpos_of_nonneg_of_nonpos ha' hr) ht.le) hf.le
  rw [convertSubunits_eq]
  exact Int.floor_nonpos (decimal_nonpos hproduct)

/-- The bid is not above a mid rate that has 40 digits. -/
lemma applySpread_bid_le_mid (hmid : 0 ≤ mid) (hdigits : decimal mid = mid)
    (hbps : 0 ≤ spreadBps) : (applySpread mid spreadBps).bid ≤ mid := by
  have hhalf : 0 ≤ decimal (decimal (spreadBps / 10000) / 2) :=
    decimal_nonneg (div_nonneg (decimal_nonneg (by positivity)) (by norm_num))
  have hkeep : decimal (1 - decimal (decimal (spreadBps / 10000) / 2)) ≤ 1 :=
    (decimal_monotone (by linarith)).trans_eq decimal_one
  calc (applySpread mid spreadBps).bid
      ≤ decimal mid := decimal_monotone (mul_le_of_le_one_right hmid hkeep)
    _ = mid := hdigits

lemma le_applySpread_ask (hmid : 0 ≤ mid) (hdigits : decimal mid = mid)
    (hbps : 0 ≤ spreadBps) : mid ≤ (applySpread mid spreadBps).ask := by
  have hhalf : 0 ≤ decimal (decimal (spreadBps / 10000) / 2) :=
    decimal_nonneg (div_nonneg (decimal_nonneg (by positivity)) (by norm_num))
  have hadd : 1 ≤ decimal (1 + decimal (decimal (spreadBps / 10000) / 2)) :=
    decimal_one.symm.trans_le (decimal_monotone (by linarith))
  calc mid = decimal mid := hdigits.symm
    _ ≤ (applySpread mid spreadBps).ask := decimal_monotone (le_mul_of_one_le_right hmid hadd)

end Monotone

/-! ## What a quote shows -/

/-- The two rates of a pair of currencies in a snapshot, where `parseRate` accepts both. -/
def VersionedRates.pair (rates : VersionedRates) (f t : Currency) : Option (ℚ × ℚ) :=
  match rates.rates with
  | none => none
  | some table =>
    match parseRate (table f), parseRate (table t) with
    | .ok x, .ok y => some (x, y)
    | _, _ => none

/-- The bid, in 40 digits, at two rates. -/
def Config.bid (cfg : Config) (x y : ℚ) : ℚ := (applySpread (crossRate x y) cfg.spreadBps).bid

/-- The ask, in 40 digits, at two rates. -/
def Config.ask (cfg : Config) (x y : ℚ) : ℚ := (applySpread (crossRate x y) cfg.spreadBps).ask

/-- The quote has been priced at two rates. -/
structure Quote.PricedAt (cfg : Config) (x y : ℚ) (q : Quote) : Prop where
  amountIn_pos : 0 < q.amountInSubunits
  amountOut_pos : 0 < q.amountOutSubunits
  amountOut_eq : q.amountOutSubunits = convertSubunits q.amountInSubunits q.fromCurrency.code
    q.toCurrency.code (cfg.bid x y)
  midRate_eq : q.midRate = toFixed 10 (crossRate x y)
  bid_eq : q.bid = toFixed 10 (cfg.bid x y)
  ask_eq : q.ask = toFixed 10 (cfg.ask x y)
  effectiveRate_eq : q.effectiveRate = toFixed 10 (cfg.bid x y)

/-- The answer of `createQuote` is priced at the rates of the snapshot that it was given. -/
def PricedAnswer (cfg : Config) (l : Local) : Except Exn Response → Prop
  | .ok (.quote q) => ∃ rates x y, l.trail.rates = some rates ∧
      rates.pair q.fromCurrency q.toCurrency = some (x, y) ∧ q.PricedAt cfg x y
  | _ => True

lemma wp_program_priced (cfg : Config) (req : Request) (hreq : req.isQuote = true) :
    (req.program cfg).wp remembering (PricedAnswer cfg) { req } := by
  obtain ⟨u, from_, to_, a, rfl⟩ : ∃ u from_ to_ a, req = .createQuote u from_ to_ a := by
    cases req with
    | createQuote u from_ to_ a => exact ⟨u, from_, to_, a, rfl⟩
    | _ => cases hreq
  refine wp_bind.mpr (wp_throwIf_bind (fun _ => trivial) fun _ => ?_)
  refine wp_requireSupported (fun _ _ => trivial) fun f hf => ?_
  refine wp_requireSupported (fun _ _ => trivial) fun t ht => ?_
  refine wp_throwIf_bind (fun _ => trivial) fun ha => ?_
  refine wp_bind.mpr (wp_command.mpr ⟨trivial, ?_⟩)
  rintro (e | rates) l ⟨seq, rfl⟩
  · trivial
  refine wp_rateOf (fun _ _ => trivial) fun table x htable hx => ?_
  refine wp_rateOf (fun _ _ => trivial) fun table' y htable' hy => ?_
  obtain rfl := Option.some.inj (htable.symm.trans htable')
  refine wp_throwIf_bind (fun _ => trivial) fun hout => ?_
  refine wp_bind.mpr (wp_command.mpr ⟨trivial, ?_⟩)
  rintro (e | id) l ⟨seq₁, rfl⟩
  · trivial
  refine wp_bind.mpr (wp_command.mpr ⟨trivial, ?_⟩)
  rintro (e | time) l ⟨seq₂, rfl⟩
  · trivial
  refine wp_bind.mpr (wp_command.mpr ⟨trivial, ?_⟩)
  rintro (e | done) l ⟨seq₃, rfl⟩
  · trivial
  refine ⟨rates, x, y, rfl, ?_, ⟨not_le.mp ha, not_le.mp hout, rfl, rfl, rfl, rfl, rfl⟩⟩
  simp [VersionedRates.pair, htable, hx, hy]

/-- In some run `createQuote` has answered `q`, at the rates of this snapshot. -/
def Quotes (cfg : Config) (rates : VersionedRates) (q : Quote) : Prop :=
  ∃ s t th, Reachable cfg s ∧ s.threads t = some th ∧ th.state.req.isQuote = true ∧
    th.quote = some q ∧ th.state.trail.rates = some rates

/-- What a quote binds to is what its snapshot comes to at the bid. -/
lemma Quotes.priced {rates : VersionedRates} {q : Quote} (h : Quotes cfg rates q) :
    ∃ x y, rates.pair q.fromCurrency q.toCurrency = some (x, y) ∧ q.PricedAt cfg x y := by
  obtain ⟨s, t, th, hreach, hth, hreq, hquote, hrates⟩ := h
  have hpriced := of_answer_remembering (wp_program_priced cfg) hreach hth hreq
    (Thread.answer_of_quote hquote)
  obtain ⟨rates', x, y, hrates', hpair, hq⟩ := hpriced
  obtain rfl := Option.some.inj (hrates.symm.trans hrates')
  exact ⟨x, y, hpair, hq⟩

/-! ## The mid rate bounds the quote -/

lemma pos_of_parseRate {v : RateValue} {q : ℚ} (h : parseRate v = .ok q) : 0 < q := by
  cases v with
  | finite q' text =>
    dsimp only [parseRate] at h
    split_ifs at h with hq
    cases h
    exact not_le.mp hq
  | _ => cases h

lemma VersionedRates.pair_eq_some_iff {rates : VersionedRates} {f t : Currency} {x y : ℚ} :
    rates.pair f t = some (x, y) ↔ ∃ table, rates.rates = some table ∧
      parseRate (table f) = .ok x ∧ parseRate (table t) = .ok y := by
  unfold pair
  cases rates.rates with
  | none => simp
  | some table =>
    cases hx : parseRate (table f) <;> cases hy : parseRate (table t) <;> simp [hx, hy]

section

variable {rates : VersionedRates} {f t : Currency} {x y : ℚ}

lemma VersionedRates.pos_of_pair (h : rates.pair f t = some (x, y)) : 0 < x ∧ 0 < y := by
  obtain ⟨table, -, hx, hy⟩ := pair_eq_some_iff.mp h
  exact ⟨pos_of_parseRate hx, pos_of_parseRate hy⟩

/-- What `convertFunds` computes on the snapshot, before its cast to a number. -/
lemma VersionedRates.exactConversion_of_pair (h : rates.pair f t = some (x, y)) (a : ℤ) :
    rates.exactConversion f t a = some (convertSubunits a f.code t.code (crossRate x y)) := by
  obtain ⟨table, htable, hx, hy⟩ := pair_eq_some_iff.mp h
  simp [exactConversion, htable, hx, hy]

lemma crossRate_nonneg (h : rates.pair f t = some (x, y)) : 0 ≤ crossRate x y := by
  obtain ⟨hx, hy⟩ := VersionedRates.pos_of_pair h
  exact decimal_nonneg (div_pos hy hx).le

lemma Config.bid_le_mid (hbps : 0 ≤ cfg.spreadBps) (h : rates.pair f t = some (x, y)) :
    cfg.bid x y ≤ crossRate x y :=
  applySpread_bid_le_mid (crossRate_nonneg h) (decimal_idem _) hbps

lemma Config.mid_le_ask (hbps : 0 ≤ cfg.spreadBps) (h : rates.pair f t = some (x, y)) :
    crossRate x y ≤ cfg.ask x y :=
  le_applySpread_ask (crossRate_nonneg h) (decimal_idem _) hbps

/-- A quote that is issued has a positive bid. -/
lemma Quote.PricedAt.bid_pos {q : Quote} (h : q.PricedAt cfg x y) : 0 < cfg.bid x y := by
  by_contra hbid
  have hout := convertSubunits_nonpos (f := q.fromCurrency) (t := q.toCurrency)
    h.amountIn_pos.le (not_lt.mp hbid)
  rw [← h.amountOut_eq] at hout
  exact absurd h.amountOut_pos (not_lt.mpr hout)

end

/-- A quote pays no more than the conversion at its mid rate, and no less for more. -/
theorem quote_le_conversion (hbps : 0 ≤ cfg.spreadBps) :
    (∀ (rates : VersionedRates) f t x y, rates.pair f t = some (x, y) →
      cfg.bid x y ≤ crossRate x y ∧ crossRate x y ≤ cfg.ask x y) ∧
    (∀ (f t : Currency) (a a' : ℤ) (r r' : ℚ), a ≤ a' → 0 ≤ r → r ≤ r' → 0 ≤ a' ∨ r = r' →
      convertSubunits a f.code t.code r ≤ convertSubunits a' f.code t.code r') ∧
    (∀ rates q, Quotes cfg rates q → ∃ paid,
      rates.exactConversion q.fromCurrency q.toCurrency q.amountInSubunits = some paid ∧
        q.amountOutSubunits ≤ paid) ∧
    (∀ rates q q', Quotes cfg rates q → Quotes cfg rates q' →
      q.fromCurrency = q'.fromCurrency → q.toCurrency = q'.toCurrency →
      q.amountInSubunits ≤ q'.amountInSubunits →
      q.amountOutSubunits ≤ q'.amountOutSubunits) := by
  refine ⟨fun rates f t x y h => ⟨Config.bid_le_mid hbps h, Config.mid_le_ask hbps h⟩,
    fun f t a a' r r' ha hr hrr' hcase => ?_, fun rates q hq => ?_,
    fun rates q q' hq hq' hfrom hto ha => ?_⟩
  · refine (convertSubunits_mono_amount hr ha).trans ?_
    rcases hcase with ha' | rfl
    · exact convertSubunits_mono_rate ha' hrr'
    · exact le_rfl
  · obtain ⟨x, y, hpair, hpriced⟩ := hq.priced
    refine ⟨_, VersionedRates.exactConversion_of_pair hpair _, ?_⟩
    rw [hpriced.amountOut_eq]
    exact convertSubunits_mono_rate hpriced.amountIn_pos.le (Config.bid_le_mid hbps hpair)
  · obtain ⟨x, y, hpair, hpriced⟩ := hq.priced
    obtain ⟨x', y', hpair', hpriced'⟩ := hq'.priced
    rw [hfrom, hto, hpair'] at hpair
    cases hpair
    rw [hpriced.amountOut_eq, hpriced'.amountOut_eq, hfrom, hto]
    exact convertSubunits_mono_amount hpriced.bid_pos.le ha

/-- User 1 asks for a quote for 1000 cents. -/
def parQuoteRun : List Event :=
  [.spawn (.createQuote 1 "USD" "EUR" 1000), .run 1 (.rates parRates)] ++ serve 1 3

/-- What a run has come to, if it has answered a quote that meets `p`. -/
def Sys.quotes (s : Sys) (t : Tid) (p : VersionedRates → Quote → Bool) : Bool :=
  (s.threads t).any fun th => th.state.req.isQuote && th.quote.any fun q =>
    th.state.trail.rates.any fun rates => p rates q

lemma exists_quotes {es : List Event} {p : VersionedRates → Quote → Bool} {t : Tid}
    (h : (runAll (Sys.step cfg) NoFailure Sys.initial es).any (fun s => s.quotes t p) = true) :
    ∃ rates q, Quotes cfg rates q ∧ p rates q = true := by
  obtain ⟨s, hrun, hs⟩ := exists_of_runAll h
  simp only [Sys.quotes, Option.any_eq_true, Bool.and_eq_true] at hs
  obtain ⟨th, hth, hreq, q, hq, rates, hrates, hp⟩ := hs
  exact ⟨rates, q, ⟨s, t, th, reachable_of_runs hrun, hth, hreq, hq, hrates⟩, hp⟩

/-- A quote for 1000 cents is at most what converting them pays. -/
theorem quote_le_conversion_par : ∃ rates q paid, Quotes {} rates q ∧
    q.amountInSubunits = 1000 ∧
    rates.exactConversion q.fromCurrency q.toCurrency q.amountInSubunits = some paid ∧
    q.amountOutSubunits ≤ paid := by
  have hplay : (runAll (Sys.step {}) NoFailure Sys.initial parQuoteRun).any
      (fun s => s.quotes 1 fun _ q => q.amountInSubunits = 1000) = true := by decide +kernel
  obtain ⟨rates, q, hq, hamount⟩ := exists_quotes hplay
  have hbps : 0 ≤ Config.spreadBps {} := by norm_num
  obtain ⟨paid, hpaid, hle⟩ := (quote_le_conversion hbps).2.2.1 rates q hq
  exact ⟨rates, q, paid, hq, of_decide_eq_true hamount, hpaid, hle⟩

/-- A negative amount comes to less at a better rate. -/
theorem negative_amount_shrinks :
    (-1 : ℤ) ≤ -1 ∧ (0 : ℚ) ≤ 1 ∧ (1 : ℚ) ≤ 2 ∧
      ¬ convertSubunits (-1) "USD" "EUR" 1 ≤ convertSubunits (-1) "USD" "EUR" 2 := by
  decide +kernel

/-! ## What a quote shows of its rates -/

/-- The quote can be checked against what it shows. -/
structure Quote.Consistent (q : Quote) : Prop where
  bid_pos : 0 < q.bid
  bid_lt : q.bid < q.midRate
  lt_ask : q.midRate < q.ask
  effectiveRate_eq : q.effectiveRate = q.bid
  amountOut_pos : 0 < q.amountOutSubunits
  amountOut_eq : q.amountOutSubunits = convertSubunits q.amountInSubunits q.fromCurrency.code
    q.toCurrency.code q.effectiveRate

/-- What the first 40 digits of a rate, and of its product with `k`, leave out of the exact
product. -/
def lost (rate k : ℚ) : ℚ :=
  k * tail 10 40 rate + tail 10 40 (k * (rate - tail 10 40 rate))

/-- Ten decimals are enough for a quote: the bid is more than half a unit of the tenth; the half
spread is half a unit more than what the mid rate has beyond it, on either side; and `v` times
what the bid has beyond it does not change the number of subunits that are paid. -/
structure Legible (bid mid ask v : ℚ) : Prop where
  bid_pos : 1 / 2 < bid * 10 ^ 10
  below_mid : Crosses (roundHalfEven (mid * 10 ^ 10)) (1 / 2 + residue (mid * 10 ^ 10))
    ((mid - bid) * 10 ^ 10)
  above_mid : Crosses (roundHalfEven (mid * 10 ^ 10)) (1 / 2 - residue (mid * 10 ^ 10))
    ((ask - mid) * 10 ^ 10)
  proceeds : ∃ m : ℤ, PaidAs m (v * bid) ∧
    PaidAs m (v * bid - v * (residue (bid * 10 ^ 10) / 10 ^ 10))

/-- The half spread as a part of the mid rate: `spreadBps / 20000` in its first 40 digits. -/
def halfSpread (spreadBps : ℚ) : ℚ :=
  spreadBps / 20000 - tail 10 40 (spreadBps / 10000) / 2 -
    tail 10 40 (spreadBps / 20000 - tail 10 40 (spreadBps / 10000) / 2)

/-- What part of the mid rate the bid is. -/
def bidShare (spreadBps : ℚ) : ℚ :=
  1 - halfSpread spreadBps - tail 10 40 (1 - halfSpread spreadBps)

/-- What part of the mid rate the ask is. -/
def askShare (spreadBps : ℚ) : ℚ :=
  1 + halfSpread spreadBps - tail 10 40 (1 + halfSpread spreadBps)

/-! ### The rates as exact ones and what they lose -/

lemma decimal_mul_decimal (rate k : ℚ) :
    decimal (decimal rate * k) = rate * k - lost rate k := by
  rw [decimal_eq_sub_tail (decimal rate * k), decimal_eq_sub_tail rate, lost,
    mul_comm (rate - tail 10 40 rate)]
  ring

/-- A rate that has few enough digits loses nothing. -/
lemma lost_eq_zero {rate k : ℚ} (hrate : HasDigits 10 18 rate) (hk : HasDigits 10 22 k) :
    lost rate k = 0 := by
  have htail : tail 10 40 rate = 0 :=
    (hrate.mono (by norm_num) (by norm_num)).tail_eq_zero (by norm_num)
  have hproduct : tail 10 40 (k * rate) = 0 :=
    (hk.mul (by norm_num) hrate).tail_eq_zero (by norm_num)
  rw [lost, htail, sub_zero, mul_zero, zero_add, hproduct]

/-- A rate loses at most two parts in `10 ^ 39`. -/
lemma abs_lost_le {rate k : ℚ} (hrate : 0 ≤ rate) (hk : 0 ≤ k) :
    |lost rate k| ≤ 2 / 10 ^ 39 * (rate * k) := by
  have htail (q : ℚ) : |tail 10 40 q| ≤ 1 / (2 * 10 ^ 39) * |q| := by
    have hunit : unit 10 40 = 1 / (2 * 10 ^ 39) := by norm_num [unit]
    rw [← hunit]
    exact abs_tail_le (by norm_num) q
  have hfirst := htail rate
  rw [abs_of_nonneg hrate] at hfirst
  have hsecond := htail (k * (rate - tail 10 40 rate))
  have hrest : |k * (rate - tail 10 40 rate)| ≤ 2 * (rate * k) := by
    rw [abs_mul, abs_of_nonneg hk]
    calc k * |rate - tail 10 40 rate| ≤ k * (2 * rate) := by
          refine mul_le_mul_of_nonneg_left ?_ hk
          calc |rate - tail 10 40 rate| ≤ |rate| + |tail 10 40 rate| := abs_sub _ _
            _ ≤ 2 * rate := by
                rw [abs_of_nonneg hrate]
                linarith
      _ = 2 * (rate * k) := by ring
  calc |lost rate k| ≤ |k * tail 10 40 rate| + |tail 10 40 (k * (rate - tail 10 40 rate))| :=
        abs_add_le _ _
    _ ≤ k * (1 / (2 * 10 ^ 39) * rate) + 1 / (2 * 10 ^ 39) * (2 * (rate * k)) := by
        rw [abs_mul, abs_of_nonneg hk]
        refine add_le_add (mul_le_mul_of_nonneg_left hfirst hk) (hsecond.trans ?_)
        exact mul_le_mul_of_nonneg_left hrest (by norm_num)
    _ ≤ 2 / 10 ^ 39 * (rate * k) := by
        have hproduct : 0 ≤ rate * k := mul_nonneg hrate hk
        linarith

lemma decimal_halfSpread (spreadBps : ℚ) :
    decimal (decimal (spreadBps / 10000) / 2) = halfSpread spreadBps := by
  have hhalf : (spreadBps / 10000 - tail 10 40 (spreadBps / 10000)) / 2 =
      spreadBps / 20000 - tail 10 40 (spreadBps / 10000) / 2 := by ring
  rw [decimal_eq_sub_tail (spreadBps / 10000), hhalf, decimal_eq_sub_tail, halfSpread]

lemma applySpread_bid (mid spreadBps : ℚ) :
    (applySpread mid spreadBps).bid = decimal (mid * bidShare spreadBps) := by
  rw [applySpread, bidShare, ← decimal_eq_sub_tail, ← decimal_halfSpread]

lemma applySpread_ask (mid spreadBps : ℚ) :
    (applySpread mid spreadBps).ask = decimal (mid * askShare spreadBps) := by
  rw [applySpread, askShare, ← decimal_eq_sub_tail, ← decimal_halfSpread]

/-- A spread of at most 17 digits is exact, and so are the two parts of the mid rate. -/
lemma hasDigits_spread {s : ℚ} (hlow : 1 ≤ s) (hhigh : s ≤ 19999) (h : HasDigits 10 17 s) :
    HasDigits 10 17 (s / 10000) ∧ HasDigits 10 18 (s / 20000) ∧
      HasDigits 10 22 (1 - s / 20000) ∧ HasDigits 10 22 (1 + s / 20000) := by
  obtain ⟨m, e, hm, hs⟩ := h
  push_cast at hm hs
  have hpow : (0 : ℚ) < 10 ^ e := by positivity
  have hm0 : 0 < m := by
    have hpos : (0 : ℚ) < m * 10 ^ e := by linarith
    exact_mod_cast (mul_pos_iff_of_pos_right hpow).mp hpos
  rw [abs_of_pos hm0] at hm
  -- the spread has at most five digits before the point
  have he : e < 5 := by
    refine (zpow_lt_zpow_iff_right₀ (by norm_num : (1 : ℚ) < 10)).mp ?_
    calc (10 : ℚ) ^ e ≤ m * 10 ^ e := le_mul_of_one_le_left hpow.le (by exact_mod_cast hm0)
      _ = s := hs.symm
      _ < 10 ^ (5 : ℤ) := by linarith
  have he' : -17 < e := by
    refine (zpow_lt_zpow_iff_right₀ (by norm_num : (1 : ℚ) < 10)).mp ?_
    have hlt : (m : ℚ) * 10 ^ e < 10 ^ (17 : ℤ) * 10 ^ e :=
      mul_lt_mul_of_pos_right (by exact_mod_cast hm) hpow
    rw [zpow_neg, inv_lt_iff_one_lt_mul₀ (by positivity)]
    linarith
  have hone : (1 : ℚ) = ((10 ^ (5 - e).toNat : ℤ) : ℚ) * 10 ^ (e - 5) := by
    push_cast
    rw [← zpow_natCast, Int.toNat_of_nonneg (by omega), ← zpow_add₀ (by norm_num)]
    simp
  have hunits : (10 : ℤ) ^ (5 - e).toNat ≤ 10 ^ 21 :=
    pow_le_pow_right₀ (by norm_num) (by omega)
  have hunits0 : 0 < (10 : ℤ) ^ (5 - e).toNat := by positivity
  have hhalf : s / 20000 = ((5 * m : ℤ) : ℚ) * 10 ^ (e - 5) := by
    rw [hs, zpow_sub₀ (by norm_num)]
    push_cast
    ring
  refine ⟨⟨m, e - 4, ?_, ?_⟩, ⟨5 * m, e - 5, ?_, ?_⟩,
    ⟨10 ^ (5 - e).toNat - 5 * m, e - 5, ?_, ?_⟩, ⟨10 ^ (5 - e).toNat + 5 * m, e - 5, ?_, ?_⟩⟩
  · rw [abs_of_pos hm0]
    exact_mod_cast hm
  · rw [hs, Nat.cast_ofNat, zpow_sub₀ (by norm_num)]
    norm_num [div_eq_mul_inv, mul_assoc]
  · rw [abs_of_pos (by omega)]
    push_cast
    omega
  · exact_mod_cast hhalf
  · rw [abs_lt]
    push_cast
    omega
  · nth_rewrite 1 [hone]
    rw [hhalf]
    push_cast
    ring
  · rw [abs_lt]
    push_cast
    omega
  · nth_rewrite 1 [hone]
    rw [hhalf]
    push_cast
    ring

lemma shares_of_digits {s : ℚ} (hlow : 1 ≤ s) (hhigh : s ≤ 19999) (h : HasDigits 10 17 s) :
    bidShare s = 1 - s / 20000 ∧ askShare s = 1 + s / 20000 := by
  obtain ⟨hbps, hhalf, hbid, hask⟩ := hasDigits_spread hlow hhigh h
  have hzero {p : ℕ} {q : ℚ} (hp : p ≤ 40) (hq : HasDigits 10 p q) : tail 10 40 q = 0 :=
    (hq.mono (by norm_num) hp).tail_eq_zero (by norm_num)
  have hspread : halfSpread s = s / 20000 := by
    rw [halfSpread, hzero (by norm_num) hbps, zero_div, sub_zero, hzero (by norm_num) hhalf,
      sub_zero]
  rw [bidShare, askShare, hspread, hzero (by norm_num) hbid, hzero (by norm_num) hask, sub_zero,
    sub_zero]
  exact ⟨rfl, rfl⟩

lemma toFixed_lt_iff {r r' : ℚ} : toFixed 10 r < toFixed 10 r' ↔
    roundHalfEven (r * 10 ^ 10) < roundHalfEven (r' * 10 ^ 10) := by
  rw [toFixed, toFixed, div_lt_div_iff_of_pos_right (by positivity), Int.cast_lt]

lemma toFixed_eq_sub (r : ℚ) : toFixed 10 r = r - residue (r * 10 ^ 10) / 10 ^ 10 := by
  rw [toFixed, roundHalfEven_eq_sub, sub_div, mul_div_cancel_right₀ _ (by positivity)]

lemma toFixed_pos_iff {r : ℚ} : 0 < toFixed 10 r ↔ 1 / 2 < r * 10 ^ 10 := by
  have hone : (0 : ℤ) < roundHalfEven (r * 10 ^ 10) ↔ Clears (r * 10 ^ 10) 1 :=
    le_roundHalfEven_iff
  rw [toFixed, lt_div_iff₀ (by positivity), zero_mul, Int.cast_pos, hone, Clears]
  norm_num

lemma toFixed_nonneg {r : ℚ} (hr : 0 ≤ r) : 0 ≤ toFixed 10 r := by
  have hmono : roundHalfEven ((0 : ℤ) : ℚ) ≤ roundHalfEven (r * 10 ^ 10) :=
    roundHalfEven_mono (by push_cast; positivity)
  rw [roundHalfEven_intCast] at hmono
  exact div_nonneg (by exact_mod_cast hmono) (by positivity)

/-- What the first 40 digits of an amount in subunits are worth at a rate of one. -/
def atPar (f t : Currency) (a : ℤ) : ℚ := (a - tail 10 40 a) * t.factor / f.factor

lemma atPar_nonneg {f t : Currency} {a : ℤ} (ha : 0 ≤ a) : 0 ≤ atPar f t a := by
  rw [atPar, ← decimal_eq_sub_tail]
  exact div_nonneg (mul_nonneg (decimal_nonneg (by exact_mod_cast ha)) t.factor_pos.le)
    f.factor_pos.le

/-- An amount is converted to what its worth at par, times the rate, is paid as. -/
lemma convertSubunits_eq_iff {f t : Currency} {a m : ℤ} {r : ℚ} (ha : 0 ≤ a) (hr : 0 ≤ r) :
    convertSubunits a f.code t.code r = m ↔ PaidAs m (atPar f t a * r) := by
  have hproduct : decimal a * r * t.factor / f.factor = atPar f t a * r := by
    rw [atPar, decimal_eq_sub_tail]
    ring
  rw [convertSubunits_eq, hproduct, floor_decimal_eq_iff (mul_nonneg (atPar_nonneg ha) hr)]

/-- Which quotes can be checked, in terms of the 40-digit rates that they are priced at. -/
lemma Quote.PricedAt.consistent_iff {q : Quote} {x y : ℚ} (hq : q.PricedAt cfg x y) :
    q.Consistent ↔ Legible (cfg.bid x y) (crossRate x y) (cfg.ask x y)
      (atPar q.fromCurrency q.toCurrency q.amountInSubunits) := by
  have hamount := hq.amountIn_pos.le
  have hbid := hq.bid_pos.le
  have hproceeds : q.amountOutSubunits = convertSubunits q.amountInSubunits q.fromCurrency.code
      q.toCurrency.code q.effectiveRate ↔ ∃ m : ℤ,
        PaidAs m (atPar q.fromCurrency q.toCurrency q.amountInSubunits * cfg.bid x y) ∧
        PaidAs m (atPar q.fromCurrency q.toCurrency q.amountInSubunits * cfg.bid x y -
          atPar q.fromCurrency q.toCurrency q.amountInSubunits *
            (residue (cfg.bid x y * 10 ^ 10) / 10 ^ 10)) := by
    rw [hq.amountOut_eq, hq.effectiveRate_eq, ← mul_sub, ← toFixed_eq_sub]
    simp only [← convertSubunits_eq_iff hamount hbid,
      ← convertSubunits_eq_iff hamount (toFixed_nonneg hbid)]
    exact ⟨fun heq => ⟨_, heq, rfl⟩, fun ⟨m, hm, hm'⟩ => hm.trans hm'.symm⟩
  constructor
  · intro hc
    refine ⟨?_, ?_, ?_, hproceeds.mp hc.amountOut_eq⟩
    · rw [← toFixed_pos_iff, ← hq.bid_eq]
      exact hc.bid_pos
    · rw [sub_mul, ← roundHalfEven_lt_iff, ← toFixed_lt_iff, ← hq.bid_eq, ← hq.midRate_eq]
      exact hc.bid_lt
    · rw [sub_mul, ← lt_roundHalfEven_iff, ← toFixed_lt_iff, ← hq.midRate_eq, ← hq.ask_eq]
      exact hc.lt_ask
  · intro hl
    refine ⟨?_, ?_, ?_, hq.effectiveRate_eq.trans hq.bid_eq.symm, hq.amountOut_pos,
      hproceeds.mpr hl.proceeds⟩
    · rw [hq.bid_eq, toFixed_pos_iff]
      exact hl.bid_pos
    · rw [hq.bid_eq, hq.midRate_eq, toFixed_lt_iff, roundHalfEven_lt_iff, ← sub_mul]
      exact hl.below_mid
    · rw [hq.midRate_eq, hq.ask_eq, toFixed_lt_iff, lt_roundHalfEven_iff, ← sub_mul]
      exact hl.above_mid

/-- 1536 naira to the dollar. -/
def nairaRates : VersionedRates where
  version := "v1"
  base := "USD"
  timestamp := "2025-01-01T00:00:00.000Z"
  rates := some fun
    | .ngn => .finite 1536 "1536"
    | _ => .finite 1 "1"

end FxExchange
