import FxExchange.Proofs.Invariant

/-
# Rows and their constraints

The amounts and balances that an operation writes fit their columns, because it has looked at
what is there and the house was given no more than a `bigint` holds.  Its rate is another
matter: it is rounded to the decimals of the column, of which a small rate has none, and a
large one has too many digits.
-/

namespace FxExchange

open Rounding Transition

/-! ## The rate columns -/

lemma roundHalfAway_mono {q q' : ℚ} (h : q ≤ q') : roundHalfAway q ≤ roundHalfAway q' := by
  unfold roundHalfAway
  split <;> split
  · exact Int.floor_mono (by linarith)
  · linarith
  · rename_i hq hq'
    have hneg : 0 ≤ ⌊-q + 1 / 2⌋ := Int.floor_nonneg.mpr (by linarith)
    have hnonneg : 0 ≤ ⌊q' + 1 / 2⌋ := Int.floor_nonneg.mpr (by linarith)
    omega
  · exact neg_le_neg (Int.floor_mono (by linarith))

/-- What the journal's column keeps of a number, in units of its last decimal. -/
def exchangeRateUnits (q : ℚ) : ℤ := roundHalfAway (numberText (numberOfDecimal q) * 10 ^ 8)

/-- Doubles are printed in their order, because their texts read back. -/
lemma numberText_mono {x x' : ℚ} (hx : numberOfDecimal x = x) (hx' : numberOfDecimal x' = x')
    (h : x ≤ x') : numberText x ≤ numberText x' := by
  rcases h.eq_or_lt with rfl | hlt
  · exact le_rfl
  · by_contra hgt
    have hread : numberOfDecimal (numberText x') ≤ numberOfDecimal (numberText x) :=
      roundSig_monotone (by norm_num) (by norm_num) (not_le.mp hgt).le
    rw [numberOfDecimal_numberText hx, numberOfDecimal_numberText hx'] at hread
    exact absurd hread (not_le.mpr hlt)

lemma exchangeRateUnits_mono {q q' : ℚ} (h : q ≤ q') :
    exchangeRateUnits q ≤ exchangeRateUnits q' := by
  have hnumber : numberOfDecimal q ≤ numberOfDecimal q' :=
    roundSig_monotone (by norm_num) (by norm_num) h
  have hdouble (q : ℚ) : numberOfDecimal (numberOfDecimal q) = numberOfDecimal q :=
    roundSig_idem (by norm_num) (by norm_num) q
  exact roundHalfAway_mono
    (mul_le_mul_of_nonneg_right (numberText_mono (hdouble q) (hdouble q') hnumber) (by norm_num))

lemma checksExchangeRate_iff_units {q : ℚ} :
    checksExchangeRate (some (numberOfDecimal q)) = true ↔
      0 < exchangeRateUnits q ∧ exchangeRateUnits q < 10 ^ 18 := by
  have hpow : (0 : ℚ) < 10 ^ 8 := by norm_num
  have hpos : (0 : ℚ) < exchangeRateUnits q / 10 ^ 8 ↔ 0 < exchangeRateUnits q := by
    rw [div_pos_iff_of_pos_right hpow, Int.cast_pos]
  have hlt : (exchangeRateUnits q : ℚ) / 10 ^ 8 < 10 ^ (18 - 8) ↔
      exchangeRateUnits q < 10 ^ 18 := by
    rw [div_lt_iff₀ hpow, ← Int.cast_lt (R := ℚ)]
    norm_num
  unfold checksExchangeRate exchangeRateColumn numericColumn
  simp only [← exchangeRateUnits.eq_def]
  split
  · rename_i hnone
    split at hnone
    · cases hnone
    · rename_i hrange
      refine iff_of_false (by simp) fun h => hrange ?_
      rw [abs_of_pos (hpos.mpr h.1)]
      exact hlt.mpr h.2
  · rename_i v hsome
    split at hsome
    · rename_i hrange
      obtain rfl := Option.some.inj hsome
      rw [decide_eq_true_iff, hpos]
      exact ⟨fun h => ⟨h, hlt.mp ((le_abs_self _).trans_lt hrange)⟩, And.left⟩
    · cases hsome

/-- The bounds of the units are those of a rate with eight decimals. -/
lemma exchangeRateUnits_toFixed {n : ℤ} :
    (0 < exchangeRateUnits (n / 10 ^ 8) ↔ 1 ≤ n) ∧
      (exchangeRateUnits (n / 10 ^ 8) < 10 ^ 18 ↔ n < 10 ^ 18 - 95) := by
  have hmono {m m' : ℤ} (h : m ≤ m') :
      exchangeRateUnits (m / 10 ^ 8) ≤ exchangeRateUnits (m' / 10 ^ 8) :=
    exchangeRateUnits_mono (div_le_div_of_nonneg_right (by exact_mod_cast h) (by norm_num))
  have hzero : exchangeRateUnits ((0 : ℤ) / 10 ^ 8) = 0 := by decide +kernel
  have hone : exchangeRateUnits ((1 : ℤ) / 10 ^ 8) = 1 := by decide +kernel
  -- the doubles below 10 ^ 10 lie 2 ^ -19 apart
  have hlast : exchangeRateUnits ((10 ^ 18 - 96 : ℤ) / 10 ^ 8) < 10 ^ 18 := by decide +kernel
  have hover : 10 ^ 18 ≤ exchangeRateUnits ((10 ^ 18 - 95 : ℤ) / 10 ^ 8) := by decide +kernel
  refine ⟨⟨fun h => ?_, fun h => ?_⟩, ⟨fun h => ?_, fun h => ?_⟩⟩
  · by_contra hn
    have := hmono (not_lt.mp hn : n ≤ 0)
    omega
  · have := hmono h
    omega
  · by_contra hn
    have := hmono (not_lt.mp hn)
    omega
  · have := hmono (by omega : n ≤ 10 ^ 18 - 96)
    omega

/-- The cross rates that the journal of a conversion can keep. -/
theorem checksExchangeRate_toFixed_iff {q : ℚ} :
    checksExchangeRate (some (numberOfDecimal (toFixed 8 q))) = true ↔
      5 / 10 ^ 9 < q ∧ q ≤ 10 ^ 10 - 955 / 10 ^ 9 := by
  obtain ⟨hpos, hlt⟩ := exchangeRateUnits_toFixed (n := roundHalfEven (q * 10 ^ 8))
  rw [checksExchangeRate_iff_units, toFixed, hpos, hlt]
  refine and_congr ?_ ?_
  · rw [le_roundHalfEven_iff, Clears]
    have hodd : ¬ Even (1 : ℤ) := by decide
    simp only [hodd, and_false, or_false]
    constructor <;> intro h <;> push_cast at h ⊢ <;> linarith
  · rw [← not_le, le_roundHalfEven_iff, Clears]
    have hodd : ¬ Even (10 ^ 18 - 95 : ℤ) := by decide
    simp only [hodd, and_false, or_false, not_lt]
    constructor <;> intro h <;> push_cast at h ⊢ <;> linarith

/-- The rates of quotes that the order can keep. -/
lemma numericColumn_isSome_iff {q : ℚ} (hq : ∃ n : ℤ, q = n / 10 ^ 10) :
    (numericColumn 18 10 q).isSome = true ↔ |q| < 10 ^ 8 := by
  obtain ⟨n, rfl⟩ := hq
  have hmul : (n / 10 ^ 10 * 10 ^ 10 : ℚ) = n := div_mul_cancel₀ _ (by norm_num)
  simp only [numericColumn, hmul, roundHalfAway_intCast]
  split
  · rename_i h
    exact iff_of_true rfl h
  · rename_i h
    exact iff_of_false (by simp) h

/-- The rates of quotes that the journal can keep, of those that the order can. -/
theorem checksExchangeRate_quote_iff {q : ℚ} (hq : ∃ n : ℤ, q = n / 10 ^ 10)
    (hcolumn : (numericColumn 18 10 q).isSome = true) :
    checksExchangeRate (some (numberOfDecimal q)) = true ↔ 5 / 10 ^ 9 ≤ q := by
  have hlt := (le_abs_self q).trans_lt ((numericColumn_isSome_iff hq).mp hcolumn)
  have hlarge : exchangeRateUnits q < 10 ^ 18 := by
    have hmax : exchangeRateUnits (10 ^ 8) < 10 ^ 18 := by decide +kernel
    exact (exchangeRateUnits_mono hlt.le).trans_lt hmax
  rw [checksExchangeRate_iff_units, and_iff_left hlarge]
  obtain ⟨n, rfl⟩ := hq
  constructor
  · intro h
    by_contra hsmall
    have hn : n ≤ 49 := by
      have : (n : ℚ) < 50 := by
        rw [not_le, div_lt_iff₀ (by norm_num)] at hsmall
        linarith
      have : n < 50 := by exact_mod_cast this
      omega
    have hnone : exchangeRateUnits ((49 : ℤ) / 10 ^ 10) = 0 := by decide +kernel
    have := exchangeRateUnits_mono (div_le_div_of_nonneg_right (by exact_mod_cast hn :
      (n : ℚ) ≤ (49 : ℤ)) (by norm_num : (0 : ℚ) ≤ 10 ^ 10))
    omega
  · intro h
    have hone : exchangeRateUnits (5 / 10 ^ 9) = 1 := by decide +kernel
    have := exchangeRateUnits_mono h
    omega

/-! ## The rows of a request -/

variable {cfg : Config} {s s₀ s₁ : Sys} {t : Tid} {l : Local} {c : Cmd}
  {k : Except Exn c.Ret → Service Response}

/-- The first row that a request writes when it has passed its own validation. -/
def Request.FirstRow : Request → Cmd → Prop
  | .executeTrade _ _ _, .tx (.insertOrder _) => True
  | .fundWallet _ _ _ _, .tx (.insertJournal _) => True
  | .convertFunds _ _ _ _ _ _, .tx (.insertJournal _) => True
  | _, _ => False

/-- The request has passed its own validation, and is about to write its first row. -/
def Sys.Validated (s : Sys) (t : Tid) : Prop :=
  ∃ l c k, s.threads t = some ⟨l, .call c k, true⟩ ∧ l.req.FirstRow c

/-- The rate of the request fits the column that the command writes it to. -/
def Local.RateFits (l : Local) : Cmd → Prop
  | .tx (.insertJournal _) =>
    match l.req with
    | .convertFunds _ _ _ _ _ _ => ∀ q ∈ l.rate, 5 / 10 ^ 9 < q ∧ q ≤ 10 ^ 10 - 955 / 10 ^ 9
    | _ => ∀ q ∈ l.rate, 5 / 10 ^ 9 ≤ q
  | .tx (.insertOrder _) => ∀ q ∈ l.rate, |q| < 10 ^ 8
  | .pool (.saveOrder _) => ∀ q ∈ l.rate, |q| < 10 ^ 8
  | _ => True

/-- The command is one to Postgres. -/
def Cmd.IsStatement : Cmd → Prop
  | .pool _ => True
  | .startTransaction => True
  | .tx _ => True
  | .commit => True
  | .rollback => True
  | _ => False

/-- The command inserts a row that another request may have inserted before. -/
def Cmd.MayCollide : Cmd → Prop
  | .pool (.saveWallet _) => True
  | .tx (.insertBalance _) => True
  | .tx (.insertJournal _) => True
  | _ => False

/-- What is known of the rows that a thread is about to write. -/
lemma rowGuard_of_reachable (h : Reachable cfg s) (hth : s.threads t = some ⟨l, .call c k, true⟩) :
    rowGuard l c := by
  have hwp := forall_programs
    (P := fun l p => p.wp (recording cfg False) (Answer False) l) h
    (wp_program_recording cfg False) (fun s t choice l c k s₁ r hrun _ hth hrespond hp => ?_)
    hth rfl
  · exact hwp.1.2
  · have hinv := inv_of_reachable hrun
    have hreply := hinv.reply_served (Sys.txOf_eq hth) (hinv.guard hth)
      (Sys.served_of_eq hrespond)
    exact hp.2 r _ ⟨⟨s.seq, rfl⟩, hreply, False.elim⟩

/-- A quote of its own stays in the hand of a request. -/
lemma Local.after_hand_own {seq : ℕ} {r : Except Exn c.Ret} {quote : Quote}
    (hguard : guard cfg l c) (hhand : l.trail.hand = some quote)
    (howner : quote.userId = l.req.userId) : (l.after seq c r).trail.hand = some quote := by
  cases c with
  | redis c =>
    cases c with
    | getdel q =>
      obtain ⟨-, hnone, -⟩ := hguard
      rw [hnone] at hhand
      cases hhand
    | get q =>
      obtain ⟨-, hnone, -⟩ := hguard
      rw [hnone] at hhand
      cases hhand
    | set q quote' ex =>
      obtain ⟨-, -, -, -, -, hrestore | hissue⟩ := hguard
      · obtain rfl := Option.some.inj (hrestore.hand.symm.trans hhand)
        exact absurd howner hrestore.owner
      · rw [hissue.hand] at hhand
        cases hhand
    | _ => cases r <;> exact hhand
  | pool c => cases r <;> cases c <;> exact hhand
  | _ => cases r <;> exact hhand

/-- The amounts of a trade that has been validated are in range from then on. -/
lemma orders_of_validated (h₀ : Reachable cfg s₀) (hvalidated : s₀.Validated t)
    (hrun : Runs cfg anyStep s₀ s) {th : Thread} (hth : s.threads t = some th) {u : UserId}
    {q : QuoteId} {key : String} (hreq : th.state.req = .executeTrade u q key) :
    ∃ quote, th.state.trail.hand = some quote ∧ quote.amountInSubunits ≤ seed ∧
      quote.amountOutSubunits ≤ seed := by
  obtain ⟨l₀, c₀, k₀, hth₀, hfirst⟩ := hvalidated
  have hrow := rowGuard_of_reachable h₀ hth₀
  obtain ⟨th', hth', hreq₀⟩ := thread_of_runs (P := fun l => l.req = l₀.req) h₀ hrun hth₀ rfl
    (fun _ h => h) fun _ _ _ _ _ _ h _ _ => Local.after_req.trans h
  obtain rfl := Option.some.inj (hth'.symm.trans hth)
  rw [← hreq₀, hreq] at hfirst
  cases c₀ with
  | tx c₀ =>
    cases c₀ with
    | insertOrder o =>
      obtain ⟨⟨q', key', quote, hreq', hhand, rfl⟩, hin, hout⟩ := hrow
      have howner : quote.userId = l₀.req.userId := by rw [hreq']; rfl
      obtain ⟨th', hth', hreq', hhand'⟩ := thread_of_runs
        (P := fun l => l.req = l₀.req ∧ l.trail.hand = some quote) h₀ hrun hth₀ ⟨rfl, hhand⟩
        (fun _ h => h) fun _ _ _ _ _ _ h hguard _ => ⟨Local.after_req.trans h.1,
          Local.after_hand_own hguard h.2 (by rw [howner, h.1])⟩
      obtain rfl := Option.some.inj (hth'.symm.trans hth)
      exact ⟨quote, hhand', hin, hout⟩
    | _ => cases hfirst
  | _ => cases hfirst

/-! ## Which rows are refused -/

lemma journal_checks_iff {j : JournalData} (hrow : rowGuard l (.tx (.insertJournal j)))
    (hvalid : ∀ quote, l.trail.hand = some quote → quote.Valid) :
    j.checks = true ↔ l.RateFits (.tx (.insertJournal j)) := by
  obtain ⟨hrate, hcolumn⟩ := hrow
  have hnone (h : l.exchangeRate = none) : j.checks = true := by
    rw [JournalData.checks, hrate, h]
    rfl
  obtain ⟨req, tx, trail⟩ := l
  cases req with
  | convertFunds u from_ to_ a key context =>
    cases hq : Local.rate ⟨.convertFunds u from_ to_ a key context, tx, trail⟩ with
    | none =>
      exact iff_of_true (hnone (by simp [Local.exchangeRate, hq])) (by simp [Local.RateFits, hq])
    | some q =>
      have heq : j.exchangeRate = some (numberOfDecimal (toFixed 8 q)) := by
        simp [hrate, Local.exchangeRate, hq]
      rw [JournalData.checks, heq, checksExchangeRate_toFixed_iff]
      simp [Local.RateFits, hq]
  | executeTrade u q key =>
    cases hhand : trail.hand with
    | none =>
      have hq : Local.rate ⟨.executeTrade u q key, tx, trail⟩ = none := by simp [Local.rate, hhand]
      exact iff_of_true (hnone (by simp [Local.exchangeRate, hq])) (by simp [Local.RateFits, hq])
    | some quote =>
      have hq : Local.rate ⟨.executeTrade u q key, tx, trail⟩ = some quote.effectiveRate := by
        simp [Local.rate, hhand]
      have heq : j.exchangeRate = some (numberOfDecimal quote.effectiveRate) := by
        simp [hrate, Local.exchangeRate, hq]
      rw [JournalData.checks, heq, checksExchangeRate_quote_iff (hvalid quote hhand).rate
        (hcolumn u q key rfl _ hq)]
      simp [Local.RateFits, hq]
  | _ =>
    exact iff_of_true (hnone (by simp [Local.exchangeRate, Local.rate]))
      (by simp [Local.RateFits, Local.rate])

/-- An order whose amounts are in range is refused for its rate. -/
lemma order_checks_iff {o : OrderData} {quote : Quote} (hvalid : quote.Valid)
    (hin : quote.amountInSubunits ≤ seed) (hout : quote.amountOutSubunits ≤ seed)
    (hoin : o.amountInSubunits = quote.amountInSubunits)
    (hoout : o.amountOutSubunits = quote.amountOutSubunits)
    (horate : o.executedRate = some quote.effectiveRate) :
    o.checks = true ↔ |quote.effectiveRate| < 10 ^ 8 := by
  rw [← numericColumn_isSome_iff hvalid.rate]
  simp [OrderData.checks, hoin, hoout, horate, hvalid.amountIn_pos, hvalid.amountOut_pos,
    fitsBigint_of_le hvalid.amountIn_pos.le hin, fitsBigint_of_le hvalid.amountOut_pos.le hout]

/-- The rows with a rate, that the command writes, meet the constraints of their tables. -/
def Cmd.checks : Cmd → Bool
  | .tx (.insertJournal j) => j.checks
  | .tx (.insertOrder o) => o.checks
  | .pool (.saveOrder o) => o.checks
  | _ => true

/-- A row that fails the constraints of its table is refused. -/
lemma Sys.exec_of_not_checks (hguard : guard cfg l c) (hchecks : c.checks = false) :
    s.exec t l.tx c = some (s, .error .checkViolation) := by
  cases c with
  | pool c =>
    cases c with
    | saveOrder o =>
      have hchecks : o.checks = false := hchecks
      simp [exec, execPool, hchecks]
    | _ => cases hchecks
  | tx c =>
    obtain ⟨tx, htx, haborted, -⟩ := hguard
    rw [htx, exec_tx haborted]
    cases c with
    | insertJournal j =>
      have hchecks : j.checks = false := hchecks
      simp [execTx, hchecks]
    | insertOrder o =>
      have hchecks : o.checks = false := hchecks
      simp [execTx, hchecks]
    | _ => cases hchecks
  | _ => cases hchecks

/-- Other rows are refused only for a key that is there. -/
lemma execTx_error {db : Database} {locks locks' : Locks} {seq : ℕ} {tx : Tx} {c : TxCmd} {e : Exn}
    (hrow : rowGuard l (.tx c)) (hexec : execTx db locks t seq tx c = some (locks', .error e)) :
    e = .uniqueViolation ∧ Cmd.MayCollide (.tx c) ∨
      e = .checkViolation ∧ Cmd.checks (.tx c) = false := by
  cases c with
  | selectForUpdate a =>
    simp only [execTx] at hexec
    split at hexec
    · split at hexec <;> cases hexec
    · split at hexec <;> cases hexec
  | insertBalance a =>
    simp only [execTx] at hexec
    split at hexec
    · cases hexec
      exact Or.inl ⟨rfl, trivial⟩
    · split at hexec <;> cases hexec
  | insertJournal j =>
    simp only [execTx] at hexec
    split at hexec
    · rename_i hchecks
      cases hexec
      exact Or.inr ⟨rfl, Bool.eq_false_of_not_eq_true hchecks⟩
    · split at hexec
      · cases hexec
        exact Or.inl ⟨rfl, trivial⟩
      · split at hexec <;> cases hexec
  | insertEntries id entries =>
    have hchecks : entries.all LedgerEntryInput.checks = true := hrow
    rw [execTx, if_pos hchecks] at hexec
    cases hexec
  | insertOrder o =>
    simp only [execTx] at hexec
    split at hexec
    · cases hexec
    · rename_i hchecks
      cases hexec
      exact Or.inr ⟨rfl, Bool.eq_false_of_not_eq_true hchecks⟩
  | updateBalance a amount =>
    simp only [execTx] at hexec
    split at hexec
    · cases hexec
    · have hchecks : 0 ≤ amount ∧ fitsBigint amount = true := hrow
      rw [if_pos hchecks] at hexec
      cases hexec
  | _ => cases hexec

lemma execPool_error {db : Database} {seq : ℕ} {c : PoolCmd} {e : Exn}
    (hexec : (execPool db seq c).2 = .error e) :
    e = .uniqueViolation ∧ Cmd.MayCollide (.pool c) ∨
      e = .checkViolation ∧ Cmd.checks (.pool c) = false := by
  cases c with
  | saveWallet u =>
    simp only [execPool] at hexec
    split at hexec
    · cases hexec
      exact Or.inl ⟨rfl, trivial⟩
    · cases hexec
  | saveOrder o =>
    simp only [execPool] at hexec
    split at hexec
    · cases hexec
    · rename_i hchecks
      cases hexec
      exact Or.inr ⟨rfl, Bool.eq_false_of_not_eq_true hchecks⟩
  | _ => cases hexec

lemma execRedis_error {redis redis' : Redis} {time : ℕ} {c : RedisCmd} {e : Exn}
    (hexec : execRedis redis time t c = some (redis', .error e)) : e = .unavailable := by
  cases c with
  | acquire u ttl =>
    simp only [execRedis] at hexec
    split at hexec <;> cases hexec
  | release u =>
    simp only [execRedis] at hexec
    split at hexec
    · cases hexec
    · cases hexec
      rfl
  | _ => cases hexec

/-- The commands of a request that do not succeed. -/
lemma Sys.exec_error (hguard : guard cfg l c) (hrow : rowGuard l c) {e : Exn}
    (hexec : s.exec t l.tx c = some (s₁, .error e)) :
    e = .unavailable ∧ ¬ c.IsStatement ∨ e = .uniqueViolation ∧ c.MayCollide ∨
      e = .checkViolation ∧ c.checks = false := by
  cases c with
  | pool c => exact Or.inr (execPool_error (congrArg Prod.snd (Option.some.inj hexec)))
  | tx c =>
    obtain ⟨tx, htx, haborted, -⟩ := hguard
    rw [htx, exec_tx haborted] at hexec
    obtain ⟨⟨locks, r⟩, hstatement, heq⟩ := Option.map_eq_some_iff.mp hexec
    obtain ⟨-, rfl⟩ := Prod.mk.inj heq
    exact Or.inr (execTx_error hrow hstatement)
  | commit =>
    obtain ⟨tx, j, htx, hbooks⟩ := hguard
    simp only [exec, htx] at hexec
    split at hexec <;> cases hexec
  | redis c =>
    obtain ⟨⟨redis, r⟩, hredis, heq⟩ := Option.map_eq_some_iff.mp hexec
    obtain ⟨-, rfl⟩ := Prod.mk.inj heq
    exact Or.inl ⟨execRedis_error hredis, id⟩
  | _ => cases hexec

/-- What decides of a row is whether the rate fits. -/
lemma checks_iff_rateFits (h₀ : Reachable cfg s₀) (hvalidated : s₀.Validated t)
    (hrun : Runs cfg anyStep s₀ s) (hth : s.threads t = some ⟨l, .call c k, true⟩) :
    c.checks = true ↔ l.RateFits c := by
  have hreach : Reachable cfg s := h₀.trans hrun
  have hrow := rowGuard_of_reachable hreach hth
  have hvalid (quote : Quote) (hhand : l.trail.hand = some quote) : quote.Valid :=
    (inv_of_reachable hreach).hands t _ quote hth hhand
  cases c with
  | pool c =>
    cases c with
    | saveOrder o =>
      obtain ⟨-, -, -, q, key, quote, reason, hreq, hhand, rfl⟩ :=
        (inv_of_reachable hreach).guard hth
      obtain ⟨quote', hhand', hin, hout⟩ := orders_of_validated h₀ hvalidated hrun hth hreq
      obtain rfl := Option.some.inj (hhand'.symm.trans hhand)
      refine (order_checks_iff (hvalid quote' hhand) hin hout rfl rfl rfl).trans ?_
      simp [Local.RateFits, Local.rate, hreq, hhand]
    | _ => exact iff_of_true rfl trivial
  | tx c =>
    cases c with
    | insertJournal j => exact journal_checks_iff hrow hvalid
    | insertOrder o =>
      obtain ⟨⟨q, key, quote, hreq, hhand, rfl⟩, hin, hout⟩ := hrow
      refine (order_checks_iff (hvalid quote hhand) hin hout rfl rfl rfl).trans ?_
      simp [Local.RateFits, Local.rate, hreq, hhand]
    | _ => exact iff_of_true rfl trivial
  | _ => exact iff_of_true rfl trivial

/-- The rows of a request that has passed its own validation meet the constraints of their
tables, and their columns keep them, unless it is the rate that does not fit; so no other row
is refused than one that another request has inserted before. -/
theorem check_violation_iff (h₀ : Reachable cfg s₀) (hvalidated : s₀.Validated t)
    (hrun : Runs cfg anyStep s₀ s) (hth : s.threads t = some ⟨l, .call c k, true⟩) :
    ((∃ s', s.exec t l.tx c = some (s', .error .checkViolation)) ↔ ¬ l.RateFits c) ∧
    ∀ s' e, c.IsStatement → l.RateFits c → s.exec t l.tx c = some (s', .error e) →
      e = .uniqueViolation ∧ c.MayCollide := by
  have hreach : Reachable cfg s := h₀.trans hrun
  have hguard := (inv_of_reachable hreach).guard hth
  have hrow := rowGuard_of_reachable hreach hth
  rw [← checks_iff_rateFits h₀ hvalidated hrun hth]
  refine ⟨⟨?_, fun hchecks => ?_⟩, fun s' e hstatement hchecks hexec => ?_⟩
  · rintro ⟨s', hexec⟩
    rcases Sys.exec_error hguard hrow hexec with h | h | h
    · cases h.1
    · cases h.1
    · rw [h.2]
      exact Bool.false_ne_true
  · exact ⟨s, Sys.exec_of_not_checks hguard (Bool.eq_false_of_not_eq_true hchecks)⟩
  · rcases Sys.exec_error hguard hrow hexec with h | h | h
    · exact absurd hstatement h.2
    · exact h
    · rw [hchecks] at h
      cases h.2

/-- The journal that the command inserts. -/
def Cmd.journal : Cmd → Option JournalData
  | .tx (.insertJournal j) => some j
  | _ => none

/-- A thread that is about to insert a journal. -/
lemma Sys.exists_call_of_journal {j : JournalData} (h : (s.next t).bind Cmd.journal = some j) :
    ∃ l k, s.threads t = some ⟨l, .call (.tx (.insertJournal j)) k, true⟩ := by
  obtain ⟨c, hnext, hj⟩ := Option.bind_eq_some_iff.mp h
  obtain ⟨th, hth, hc⟩ := Option.bind_eq_some_iff.mp hnext
  obtain rfl : c = .tx (.insertJournal j) := by
    unfold Cmd.journal at hj
    split at hj
    · rw [Option.some.inj hj]
    · cases hj
  obtain ⟨l, prog, alive⟩ := th
  unfold Thread.next at hc
  split at hc
  · rename_i halive hprog
    obtain rfl : alive = true := halive
    subst hprog
    obtain rfl := Option.some.inj hc
    exact ⟨_, _, hth⟩
  · cases hc

/-- User 1, who has 500 subunits of USD, converts 200 of them at par, up to the journal. -/
def parConversion : List Event :=
  fundRun ++ .spawn (.convertFunds 1 "USD" "EUR" (.integer 200) "k" .convert) ::
    (serve 20 2 ++ .run 20 (.rates parRates) :: serve 20 7)

/-- At par the journal is accepted. -/
theorem check_violation_iff_par : ∃ s l c k, Reachable {} s ∧
    s.threads 20 = some ⟨l, .call c k, true⟩ ∧
    ¬ ∃ s', s.exec 20 l.tx c = some (s', .error .checkViolation) := by
  have hplay : (runAll (Sys.step {}) anyStep Sys.initial parConversion).any (fun s =>
      ((s.next 20).bind Cmd.journal).isSome ∧ (s.threads 20).any fun th =>
        th.state.req = .convertFunds 1 "USD" "EUR" (.integer 200) "k" .convert ∧
        th.state.rate = some 1) = true := by decide +kernel
  obtain ⟨s, hrun, hs⟩ := exists_of_runAll hplay
  simp only [Bool.decide_and, Bool.decide_eq_true, Bool.and_eq_true, Option.any_eq_true,
    decide_eq_true_eq] at hs
  obtain ⟨hjournal, th, hth, hreq, hrate⟩ := hs
  obtain ⟨j, hj⟩ := Option.isSome_iff_exists.mp hjournal
  obtain ⟨l, k, hl⟩ := Sys.exists_call_of_journal hj
  obtain rfl := Option.some.inj (hth.symm.trans hl)
  obtain ⟨req, tx, trail⟩ := l
  obtain rfl : req = .convertFunds 1 "USD" "EUR" (.integer 200) "k" .convert := hreq
  have hvalidated : s.Validated 20 := ⟨_, _, k, hl, trivial⟩
  have hfits : Local.RateFits ⟨.convertFunds 1 "USD" "EUR" (.integer 200) "k" .convert, tx, trail⟩
      (.tx (.insertJournal j)) := by
    intro q hq
    obtain rfl := Option.some.inj (hrate.symm.trans hq)
    norm_num
  exact ⟨s, _, _, k, hrun, hl,
    fun h => (check_violation_iff hrun hvalidated .refl hl).1.mp h hfits⟩

/-- An NGN is worth a thousand millions of USD. -/
def steepRates : VersionedRates where
  version := "v1"
  base := "NGN"
  timestamp := "2025-01-01T00:00:00.000Z"
  rates := some fun
    | .usd => .finite (10 ^ 9) "1000000000"
    | _ => .finite 1 "1"

/-- User 1 is given 100 millions of USD and converts them, up to the journal. -/
def steepConversion : List Event :=
  .spawn (.fundWallet 1 "USD" (.integer (10 ^ 10)) "fund") :: serve 1 18 ++
    .spawn (.convertFunds 1 "USD" "NGN" (.integer (10 ^ 10)) "k" .convert) ::
      (serve 20 2 ++ .run 20 (.rates steepRates) :: serve 20 7)

/-- A conversion that has passed its own validation is refused by the database: its rate has no
digit among the first eight decimals. -/
theorem rate_rounded_to_zero : ∃ s l c k rates table, Reachable {} s ∧ s.Validated 20 ∧
    s.threads 20 = some ⟨l, .call c k, true⟩ ∧ l.trail.rates = some rates ∧
    rates.rates = some table ∧ (∀ a ∈ supportedCurrencies, (parseRate (table a)).isOk) ∧
    ∃ s', s.exec 20 l.tx c = some (s', .error .checkViolation) := by
  have hplay : (runAll (Sys.step {}) anyStep Sys.initial steepConversion).any (fun s =>
      ((s.next 20).bind Cmd.journal).any (fun j => ¬ j.checks) ∧ (s.threads 20).any fun th =>
        th.state.req = .convertFunds 1 "USD" "NGN" (.integer (10 ^ 10)) "k" .convert ∧
        th.state.trail.rates.any fun rates => rates.rates.any fun table =>
          ∀ a ∈ supportedCurrencies, (parseRate (table a)).isOk) = true := by decide +kernel
  obtain ⟨s, hrun, hs⟩ := exists_of_runAll hplay
  simp only [Bool.decide_and, Bool.and_eq_true, Option.any_eq_true, decide_eq_true_eq] at hs
  obtain ⟨⟨j, hj, hchecks⟩, th, hth, hreq, rates, hrates, table, htable, hparse⟩ := hs
  obtain ⟨l, k, hl⟩ := Sys.exists_call_of_journal hj
  obtain rfl := Option.some.inj (hth.symm.trans hl)
  have hguard := (inv_of_reachable hrun).guard hl
  obtain ⟨req, tx, trail⟩ := l
  obtain rfl : req = .convertFunds 1 "USD" "NGN" (.integer (10 ^ 10)) "k" .convert := hreq
  exact ⟨s, _, _, k, rates, table, hrun, ⟨_, _, k, hl, trivial⟩, hl, hrates, htable, hparse, s,
    Sys.exec_of_not_checks hguard (Bool.eq_false_of_not_eq_true hchecks)⟩

end FxExchange
