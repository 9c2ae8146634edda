import FxExchange.Proofs.Atomicity

/-
# No subunit is lost

The services compute with JavaScript numbers, which are exact up to `2 ^ 53` only.  Whatever
is booked is what exact integers come to: conservation keeps all balances of a currency below
the amount that the house was given, and whoever would have to pay out more than the house
has is refused.
-/

namespace FxExchange

open Service Transition
open Prog (Issues issues_bind issues_command issues_throwIf wp_bind wp_command wp_of_issues
  wp_mono wp_tryCatch wp_tryFinally)

variable {cfg : Config} {s s' s₁ : Sys} {t : Tid} {e : Event} {l : Local} {req : Request}

/-! ## What exact arithmetic comes to -/

/-- The numbers of a leg. -/
def LedgerEntryInput.numbers (e : LedgerEntryInput) : List ℤ :=
  [e.amount, e.balanceBefore, e.balanceAfter]

/-- The leg that a side becomes on the balances `before`. -/
def Side.onto (before : Account → ℤ) (sd : Side) : LedgerEntryInput :=
  { walletId := sd.walletId, userId := sd.userId, type := sd.type, currency := sd.currency
    amount := sd.amount
    balanceBefore := before ⟨sd.walletId, sd.currency⟩
    balanceAfter := match sd.type with
      | .credit => before ⟨sd.walletId, sd.currency⟩ + sd.amount
      | .debit => before ⟨sd.walletId, sd.currency⟩ - sd.amount }

/-- What a conversion comes to as an exact integer. -/
def VersionedRates.exactConversion (rates : VersionedRates) (f t : Currency) (a : ℤ) :
    Option ℤ :=
  match rates.rates with
  | none => none
  | some table =>
    match parseRate (table f), parseRate (table t) with
    | .ok x, .ok y => some (convertSubunits a f.code t.code (crossRate x y))
    | _, _ => none

/-- The sides of a request, with what it is worth at its rates or by its quote. -/
def Request.exactSides (req : Request) (hand : Option Quote) (rates : Option VersionedRates) :
    Option (List Side) :=
  match req with
  | .fundWallet u currency (.integer a) _ =>
    (supportedCurrency currency).map fun c => fundSides u c a
  | .convertFunds u from_ to_ (.integer a) _ _ =>
    (supportedCurrency from_).bind fun f => (supportedCurrency to_).bind fun t =>
      (rates.bind fun rates => rates.exactConversion f t a).map fun out =>
        exchangeSides u f t a out
  | .executeTrade u _ _ => hand.map fun quote =>
      exchangeSides u quote.fromCurrency quote.toCurrency quote.amountInSubunits
        quote.amountOutSubunits
  | _ => none

/-- The legs of a call in exact integers, on the balances `before`: every number that it
computes with is one of theirs. -/
def Thread.exactLegs (th : Thread) (before : Account → ℤ) : Option (List LedgerEntryInput) :=
  (th.state.req.exactSides th.state.trail.hand th.state.trail.rates).map fun sides =>
    sides.map (Side.onto before)

/-- Some number of the legs is not a double. -/
def Rounded (legs : List LedgerEntryInput) : Prop :=
  ∃ e ∈ legs, ∃ n ∈ e.numbers, number n ≠ n

/-- A step books the exact legs of the call, and has rounded none of their numbers. -/
structure BooksExactly (th : Thread) (j : JournalEntry) (s s' : Sys) : Prop
    extends PutsIn th.state.req j s s' where
  legs_eq : th.exactLegs s.db.amount = some j.legs
  exact : ¬ Rounded j.legs

/-! ## What a conversion pays out -/

/-- The house pays out, in the currency that is asked for, what the rates come to. -/
def Local.Priced (l : Local) (e : LedgerEntryInput) : Prop :=
  ∀ u from_ to_ a k context, l.req = .convertFunds u from_ to_ (.integer a) k context →
    e.walletId = .house → e.type = .debit →
    ∃ f t rates rate, supportedCurrency from_ = some f ∧ supportedCurrency to_ = some t ∧
      l.trail.rates = some rates ∧ rates.conversion f t a = some (e.amount, rate)

/-- The request converts between currencies at the mid rate. -/
def Request.isConversion : Request → Bool
  | .convertFunds _ _ _ _ _ _ => true
  | _ => false

/-- A conversion asks for its rates once, and books at them. -/
def pricing : Discipline Cmd.Ret Exn Local where
  guard l c := l.req.isConversion = true → match c with
    | .getRates => l.trail.rates = none
    | .tx (.insertEntries _ entries) => ∀ e ∈ entries, l.Priced e
    | _ => True
  outcome l c r l' := ∃ seq, l' = l.after seq c r

/-- The commands of a conversion that has its rates. -/
def AtRates (out : ℤ) : Cmd → Prop
  | .getRates => False
  | .tx (.insertEntries _ entries) =>
    ∀ e ∈ entries, e.walletId = .house → e.type = .debit → e.amount = out
  | _ => True

lemma issues_lockOrCreate_atRates {out : ℤ} {a : Account} :
    (lockOrCreateBalance a).Issues (AtRates out) := by
  refine issues_bind (issues_command trivial) fun found => ?_
  cases found with
  | none => exact issues_bind (issues_command trivial) fun _ => trivial
  | some v => trivial

lemma issues_lockBalance_atRates {out : ℤ} {c : Currency} :
    (lockBalance c).Issues (AtRates out) := by
  refine issues_bind (issues_command trivial) fun found => ?_
  cases found <;> trivial

lemma issues_convertFundsTx_atRates {u : UserId} {c : Conversion} {k : String}
    {purpose : TransactionPurpose} :
    (convertFundsTx u c k purpose).Issues (AtRates c.convertedAmount) := by
  refine issues_bind (issues_command trivial) fun _ => ?_
  refine issues_bind issues_throwIf fun _ => ?_
  refine issues_bind issues_lockOrCreate_atRates fun _ => ?_
  refine issues_bind issues_lockBalance_atRates fun _ => ?_
  refine issues_bind issues_lockBalance_atRates fun _ => ?_
  refine issues_bind issues_throwIf fun _ => ?_
  refine issues_bind ?_ fun _ => ?_
  · refine issues_bind (issues_command trivial) fun id => ?_
    refine issues_bind (issues_command ?_) fun _ => ?_
    · -- of the four legs one is a debit of the house
      intro e he hhouse hdebit
      simp only [List.mem_cons, List.not_mem_nil, or_false] at he
      rcases he with rfl | rfl | rfl | rfl
      · cases hhouse
      · cases hdebit
      · rfl
      · cases hhouse
    refine issues_bind (issues_command trivial) fun _ => ?_
    refine issues_bind (issues_command trivial) fun found => ?_
    cases found <;> trivial
  refine issues_bind (issues_command trivial) fun _ => ?_
  refine issues_bind (issues_command trivial) fun _ => ?_
  refine issues_bind (issues_command trivial) fun _ => ?_
  refine issues_bind (issues_command trivial) fun _ => ?_
  exact issues_bind (issues_command trivial) fun _ =>
    issues_bind (issues_dropWalletCache trivial) fun _ => trivial

/-- Only the provider's answer sets the rates. -/
lemma Local.after_rates {seq : ℕ} {c : Cmd} (hc : c ≠ .getRates) {r : Except Exn c.Ret} :
    (l.after seq c r).trail.rates = l.trail.rates := by
  cases c <;> (try rename_i c; cases c) <;> cases r <;> first | rfl | exact absurd rfl hc

/-- A conversion that has its rates books at them. -/
lemma wp_atRates {α : Type} {p : Service α} {u : UserId} {from_ to_ k : String} {a out : ℤ}
    {context : ConvertContext} {f t : Currency} {rates : VersionedRates} {rate : ℚ}
    (hreq : l.req = .convertFunds u from_ to_ (.integer a) k context)
    (hf : supportedCurrency from_ = some f) (ht : supportedCurrency to_ = some t)
    (hrates : l.trail.rates = some rates) (hout : rates.conversion f t a = some (out, rate))
    (hp : p.Issues (AtRates out)) : p.wp pricing (fun _ _ => True) l := by
  let I (l : Local) : Prop := l.req = .convertFunds u from_ to_ (.integer a) k context ∧
    l.trail.rates = some rates
  refine wp_mono (fun _ _ _ => trivial) (wp_of_issues (I := I) hp ⟨hreq, hrates⟩
    fun l c hc hl => ⟨fun _ => ?_, ?_⟩)
  · cases c with
    | getRates => exact hc.elim
    | tx c =>
      cases c with
      | insertEntries id entries =>
        intro e he u' from' to' a' k' context' hreq' hhouse hdebit
        cases hl.1.symm.trans hreq'
        exact ⟨f, t, rates, rate, hf, ht, hl.2, by rw [hc e he hhouse hdebit]; exact hout⟩
      | _ => trivial
    | _ => trivial
  · rintro r l' ⟨seq, rfl⟩
    have hne : c ≠ .getRates := by
      rintro rfl
      exact hc
    exact ⟨Local.after_req.trans hl.1, (Local.after_rates hne).trans hl.2⟩

/-- The rule of a command after which anything may be answered. -/
lemma wp_pricing_bind {β : Type} {c : Cmd} {f : c.Ret → Service β} (hguard : pricing.guard l c)
    (hok : ∀ seq a, (f a).wp pricing (fun _ _ => True) (l.afterOk seq c a)) :
    (issue c >>= f).wp pricing (fun _ _ => True) l := by
  refine wp_bind.mpr (wp_command.mpr ⟨hguard, ?_⟩)
  rintro (e | a) l' ⟨seq, rfl⟩
  · trivial
  · exact hok seq a

lemma wp_convertFunds_pricing {u : UserId} {from_ to_ k : String} {amount : JsNumber}
    {context : ConvertContext} : (convertFunds cfg u from_ to_ amount k context).wp pricing
      (fun _ _ => True) { req := .convertFunds u from_ to_ amount k context } := by
  refine wp_throwIf_bind (fun _ => trivial) fun _ => ?_
  refine wp_requireSupported (fun _ _ => trivial) fun f hf => ?_
  refine wp_requireSupported (fun _ _ => trivial) fun t ht => ?_
  refine wp_requirePositiveInteger (fun _ _ => trivial) fun a hamount ha => ?_
  subst hamount
  refine wp_pricing_bind (fun _ => trivial) fun seq existing => ?_
  cases existing with
  | some journal =>
    dsimp only
    split <;> trivial
  | none =>
    refine wp_bind.mpr (wp_tryCatch.mpr (wp_command.mpr ⟨fun _ => trivial, ?_⟩))
    rintro (e | granted) l' ⟨seq', rfl⟩
    · trivial
    refine wp_tryFinally.mpr (wp_mono (fun l' r _ => ?_) (p := convertFundsLocked u f t a k context)
      (Q := fun _ _ => True) ?_)
    · refine wp_tryCatch.mpr (wp_command.mpr ⟨fun _ => trivial, ?_⟩)
      rintro (e | released) l'' - <;> trivial
    · refine wp_pricing_bind (fun _ => rfl) fun seq'' rates => ?_
      refine wp_rateOf (fun _ _ => trivial) fun table x hrates hx => ?_
      refine wp_rateOf (fun _ _ => trivial) fun table' y hrates' hy => ?_
      obtain rfl := Option.some.inj (hrates.symm.trans hrates')
      refine wp_throwIf_bind (fun _ => trivial) fun _ => ?_
      refine wp_atRates rfl hf ht rfl
        (VersionedRates.conversion_eq_some_iff.mpr ⟨table, x, y, hrates, hx, hy, rfl⟩) ?_
      refine issues_bind (issues_findOrCreateWallet trivial trivial) fun _ => ?_
      refine issues_bind (issues_command trivial) fun _ => ?_
      exact issues_inTransaction issues_convertFundsTx_atRates trivial fun _ => trivial

lemma wp_program_pricing (cfg : Config) (req : Request) :
    (req.program cfg).wp pricing (fun _ _ => True) { req } := by
  by_cases hreq : req.isConversion = true
  · cases req with
    | convertFunds u from_ to_ amount k context =>
      refine wp_bind.mpr (wp_mono (fun l r _ => ?_) wp_convertFunds_pricing)
      cases r <;> trivial
    | _ => cases hreq
  · refine wp_mono (fun _ _ _ => trivial) (wp_of_issues (I := fun l => l.req = req)
      (program_issues cfg req) rfl fun l c _ hl => ⟨fun h => absurd (hl ▸ h) hreq, ?_⟩)
    rintro r l' ⟨seq, rfl⟩
    exact Local.after_req.trans hl

/-! ## What is booked -/

lemma Local.Priced.after {seq : ℕ} {c : Cmd} {r : Except Exn c.Ret} {e : LedgerEntryInput}
    (h : l.Priced e) (hguard : pricing.guard l c) : (l.after seq c r).Priced e := by
  intro u from_ to_ a k context hreq hhouse hdebit
  rw [Local.after_req] at hreq
  obtain ⟨f, t, rates, rate, hf, ht, hrates, hout⟩ := h u from_ to_ a k context hreq hhouse hdebit
  have hne : c ≠ .getRates := by
    rintro rfl
    have hnone : l.trail.rates = none := hguard (by rw [hreq]; rfl)
    rw [hnone] at hrates
    cases hrates
  exact ⟨f, t, rates, rate, hf, ht, (Local.after_rates hne).trans hrates, hout⟩

/-- A leg was there before, or it has just been inserted. -/
lemma Tx.after_legs {seq : ℕ} {tx : Tx} {c : TxCmd} {r : Except Exn c.Ret} {j : JournalEntry}
    (hj : j ∈ (tx.after seq c r).journals) {e : LedgerEntryInput} (he : e ∈ j.legs) :
    (∃ j' ∈ tx.journals, e ∈ j'.legs) ∨
      ∃ id entries, c = .insertEntries id entries ∧ e ∈ entries := by
  have hold (h : j ∈ tx.journals) : (∃ j' ∈ tx.journals, e ∈ j'.legs) ∨
      ∃ id entries, c = .insertEntries id entries ∧ e ∈ entries := Or.inl ⟨j, h, he⟩
  cases r with
  | error e => exact hold hj
  | ok a =>
    cases c with
    | insertJournal data =>
      rcases List.mem_append.mp hj with hj | hj
      · exact hold hj
      · obtain rfl := List.mem_singleton.mp hj
        cases he
    | insertEntries id entries =>
      obtain ⟨j', hj', rfl⟩ := List.mem_map.mp hj
      split at he
      · rw [JournalEntry.legs, List.map_append, List.mem_append] at he
        rcases he with he | he
        · exact Or.inl ⟨j', hj', he⟩
        · obtain ⟨_, hmem, rfl⟩ := List.mem_map.mp he
          obtain ⟨e, hentry, rfl⟩ := List.mem_map.mp hmem
          exact Or.inr ⟨id, entries, rfl, hentry⟩
      · exact Or.inl ⟨j', hj', he⟩
    | selectForUpdate b =>
      cases a with
      | none => exact hold hj
      | some v =>
        simp only [after, afterOk, lockRow] at hj
        split at hj <;> exact hold hj
    | insertBalance b =>
      simp only [after, afterOk, lockRow] at hj
      split at hj <;> exact hold hj
    | _ => exact hold hj

/-- The legs that a request has written. -/
def Local.Legs (l : Local) (e : LedgerEntryInput) : Prop :=
  ∃ tx, (l.tx = some tx ∨ l.trail.booked = some tx) ∧ ∃ j ∈ tx.journals, e ∈ j.legs

/-- The legs of a conversion are priced at its rates. -/
lemma priced_of_reachable (h : Reachable cfg s) {th : Thread} (hth : s.threads t = some th)
    {e : LedgerEntryInput} (he : th.state.Legs e) : th.state.Priced e := by
  revert t th
  refine h.invariant (I := fun s => ∀ {t : Tid} {th : Thread}, s.threads t = some th →
    th.state.Legs e → th.state.Priced e) (by simp [Sys.initial])
    fun s ev s' hreach hI _ hstep t th hth he => ?_
  rcases Sys.thread_step hstep hth with ⟨req, hstate⟩ | ⟨th₀, hth₀, hreq, htrail, htx⟩ |
    ⟨choice, l, c, k, s₁, r, -, hth₀, hrespond, hstate⟩
  · rw [hstate] at he
    obtain ⟨tx, htx | htx, -⟩ := he <;> cases htx
  · have hlegs : th₀.state.Legs e := by
      obtain ⟨tx, hsome, hj⟩ := he
      refine ⟨tx, hsome.imp (fun hopen => ?_) fun hbooked => htrail ▸ hbooked, hj⟩
      rcases htx with htx | htx <;> rw [htx] at hopen
      · exact hopen
      · cases hopen
    have hpriced := hI hth₀ hlegs
    unfold Local.Priced at hpriced ⊢
    rwa [hreq, htrail]
  · have hguard : pricing.guard l c := by
      have hwp := forall_programs (P := fun l p => p.wp pricing (fun _ _ => True) l) hreach
        (wp_program_pricing cfg) (fun s t choice l c k s₁ r _ _ _ _ hp => hp.2 r _ ⟨s.seq, rfl⟩)
        hth₀ rfl
      exact hwp.1
    rw [hstate] at he ⊢
    obtain ⟨tx, htx, j, hj, he⟩ := he
    have hold {tx₀ : Tx} (htx₀ : l.tx = some tx₀ ∨ l.trail.booked = some tx₀)
        (hj₀ : ∃ j ∈ tx₀.journals, e ∈ j.legs) : (l.after s.seq c r).Priced e :=
      (hI hth₀ ⟨tx₀, htx₀, hj₀⟩).after hguard
    cases (Sys.served_of_eq hrespond).txOrigin htx with
    | old htx₀ => exact hold htx₀ ⟨j, hj, he⟩
    | start time => cases hj
    | @abort x htx₀ => exact hold (Or.inl htx₀) ⟨j, hj, he⟩
    | @statement x d locks r' htx₀ hc hexec =>
      rcases Tx.after_legs hj he with hold' | ⟨id, entries, rfl, hmem⟩
      · exact hold (Or.inl htx₀) hold'
      · subst hc
        refine Local.Priced.after (fun u from_ to_ a k context hreq => ?_) hguard
        exact hguard (by rw [hreq]; rfl) e hmem u from_ to_ a k context hreq

/-- What the house was given is the most that one account can hold. -/
lemma balance_bounds (h : Reachable cfg s) (a : Account) :
    0 ≤ s.db.amount a ∧ s.db.amount a ≤ seed := by
  have hsheet := (inv_of_reachable h).ledger.sheet
  by_cases ha : a ∈ s.db.rows
  · exact ⟨hsheet.nonneg a ha, hsheet.le_seed ha⟩
  · rw [hsheet.absent a ha]
    exact ⟨le_rfl, by decide⟩

/-- Conservation keeps every number of a journal in the range of the exact ones. -/
lemma PutsIn.bounds (h : Reachable cfg s) (h₁ : Reachable cfg s₁) {req : Request}
    {j : JournalEntry} (hputs : PutsIn req j s s₁) (hsound : ∀ e ∈ j.legs, e.Sound)
    {e : LedgerEntryInput} (he : e ∈ j.legs) : ∀ n ∈ e.numbers, 0 ≤ n ∧ n ≤ seed := by
  have hbefore := balance_bounds h e.account
  have hafter := balance_bounds h₁ e.account
  obtain ⟨heq, heq₁⟩ := hputs.amount e he
  rw [heq] at hbefore
  rw [heq₁] at hafter
  obtain ⟨hpos, -, -, hsum⟩ := hsound e he
  have hamount : e.amount ≤ seed := by
    unfold LedgerEntryInput.delta at hsum
    split at hsum <;> omega
  intro n hn
  simp only [LedgerEntryInput.numbers, List.mem_cons, List.not_mem_nil, or_false] at hn
  rcases hn with rfl | rfl | rfl
  · exact ⟨hpos.le, hamount⟩
  · exact hbefore
  · exact hafter

/-- A number of the size of a balance is exact. -/
lemma number_of_le_seed {n : ℤ} (h : 0 ≤ n ∧ n ≤ seed) : number n = n := by
  refine number_of_natAbs_le ?_
  rw [abs_of_nonneg h.1]
  have hseed : seed ≤ 2 ^ 53 := by decide
  omega

/-- What a conversion books in exact integers. -/
lemma exactConversion_of_conversion {rates : VersionedRates} {f t : Currency} {a out : ℤ}
    {rate : ℚ} (h : rates.conversion f t a = some (out, rate)) (hout : 0 ≤ out ∧ out ≤ seed) :
    rates.exactConversion f t a = some out := by
  obtain ⟨table, x, y, hrates, hx, hy, heq⟩ := VersionedRates.conversion_eq_some_iff.mp h
  obtain ⟨rfl, -⟩ := Prod.mk.inj heq
  have hseed : seed < 2 ^ 53 := by decide
  have hnonneg : 0 ≤ convertSubunits a f.code t.code (crossRate x y) := by
    by_contra hneg
    have := number_neg_iff.mpr (not_le.mp hneg)
    omega
  simp only [VersionedRates.exactConversion, hrates, hx, hy]
  rw [number_eq_self hnonneg (by omega)]

/-- A committed journal has the sides that its request comes to in exact integers. -/
lemma exactSides_of_books (h : Reachable cfg s) {th : Thread} (hth : s.threads t = some th)
    {tx : Tx} {j : JournalEntry} (hbooked : th.state.trail.booked = some tx)
    (hbooks : Books th.state.req th.state.trail.hand tx j)
    (hbounds : ∀ e ∈ j.legs, ∀ n ∈ e.numbers, 0 ≤ n ∧ n ≤ seed) :
    th.state.req.exactSides th.state.trail.hand th.state.trail.rates =
      some (j.legs.map LedgerEntryInput.side) := by
  have hcarries := hbooks.carries
  have hpriced {e : LedgerEntryInput} (he : e ∈ j.legs) : th.state.Priced e :=
    priced_of_reachable h hth ⟨tx, Or.inr hbooked, j, by simp [hbooks.journals], he⟩
  unfold Local.Priced at hpriced
  generalize th.state.req = req at hcarries hpriced ⊢
  cases req with
  | fundWallet u currency amount k =>
    obtain ⟨c, a, hc, rfl, -, hlegs⟩ := hcarries
    simp [Request.exactSides, hc, hlegs]
  | convertFunds u from_ to_ amount k context =>
    obtain ⟨f, t, a, out, hf, ht, -, rfl, -, hlegs⟩ := hcarries
    -- the leg by which the house pays out
    have hmem : (⟨.house, houseUserId, .debit, t, out⟩ : Side) ∈
        j.legs.map LedgerEntryInput.side := by simp [hlegs, exchangeSides]
    obtain ⟨e, he, hside⟩ := List.mem_map.mp hmem
    obtain ⟨hhouse, -, hdebit, -, rfl⟩ : e.walletId = .house ∧ e.userId = houseUserId ∧
        e.type = .debit ∧ e.currency = t ∧ e.amount = out := by
      simpa [LedgerEntryInput.side] using hside
    obtain ⟨f', t', rates, rate, hf', ht', hrates, hout⟩ :=
      hpriced he u from_ to_ a k context rfl hhouse hdebit
    obtain rfl := Option.some.inj (hf.symm.trans hf')
    obtain rfl := Option.some.inj (ht.symm.trans ht')
    have hexact := exactConversion_of_conversion hout (hbounds e he e.amount (by simp
      [LedgerEntryInput.numbers]))
    simp [Request.exactSides, hf, ht, hrates, hexact, hlegs]
  | executeTrade u q k =>
    obtain ⟨quote, hhand, -, -, -, hlegs⟩ := hcarries
    simp [Request.exactSides, hhand, hlegs]
  | _ => exact hcarries.elim

/-- A leg is its side on the balances that it starts from. -/
lemma LedgerEntryInput.Sound.onto_side {e : LedgerEntryInput} (h : e.Sound)
    {before : Account → ℤ} (hbefore : before e.account = e.balanceBefore) :
    e.side.onto before = e := by
  have hafter := h.after_eq
  obtain ⟨w, u, type, c, a, b, b'⟩ := e
  change before ⟨w, c⟩ = b at hbefore
  subst hbefore
  cases type with
  | credit =>
    obtain rfl : b' = before ⟨w, c⟩ + a := hafter
    rfl
  | debit =>
    obtain rfl : b' = before ⟨w, c⟩ + -a := hafter
    simp [side, Side.onto, sub_eq_add_neg]

/-- What is committed is booked exactly. -/
lemma Took.booksExactly (h : Reachable cfg s) {th : Thread} (hth : s.threads t = some th)
    {s₀ : Sys} (htook : Took cfg t s s₀ s₁) {tx : Tx} {j : JournalEntry}
    (hcommits : s₁.commits = s₀.commits ++ [(t, tx)]) (hjournals : tx.journals = [j])
    (hputs : PutsIn th.state.req j s₀ s₁) : BooksExactly th j s₀ s₁ := by
  obtain ⟨hreach, ⟨choice, hstep⟩, hrun⟩ := htook
  have hmem : (t, tx) ∈ s.commits := commits_mono hrun (by simp [hcommits])
  obtain ⟨th', j', hth', hbooked, hbooks⟩ := (history_of_reachable h).booked _ hmem
  obtain rfl := Option.some.inj (hth.symm.trans hth')
  obtain rfl : j = j' := by simpa using hjournals.symm.trans hbooks.journals
  have hbounds {e : LedgerEntryInput} (he : e ∈ j.legs) :=
    hputs.bounds hreach (hreach.tail trivial hstep) hbooks.sound he
  refine ⟨hputs, ?_, ?_⟩
  · -- each leg is its side, put on the balances before the step
    have honto (e : LedgerEntryInput) (he : e ∈ j.legs) :
        (Side.onto s₀.db.amount ∘ LedgerEntryInput.side) e = id e :=
      (hbooks.sound e he).onto_side (hputs.amount e he).1
    rw [Thread.exactLegs, exactSides_of_books h hth hbooked hbooks fun e he => hbounds he,
      Option.map_some, List.map_map, List.map_congr_left honto, List.map_id]
  · rintro ⟨e, he, n, hn, hne⟩
    exact hne (number_of_le_seed (hbounds he n hn))

/-- JavaScript numbers lose no subunit.  All balances and all numbers of the journals are
exact; a call books what exact integers come to on the balances of that moment, and nothing
at all where one of its numbers would be rounded. -/
theorem amounts_exact (h : Reachable cfg s) :
    (∀ a, 0 ≤ s.db.amount a ∧ s.db.amount a ≤ seed ∧ number (s.db.amount a) = s.db.amount a) ∧
    (∀ j ∈ s.db.journals, ∀ e ∈ j.legs, ∀ n ∈ e.numbers, 0 ≤ n ∧ n ≤ seed ∧ number n = n) ∧
    ∀ t th, s.threads t = some th → th.state.req.key.isSome →
      (∀ s₀ s₁, Took cfg t s s₀ s₁ → SameBooks s₀ s₁ ∨ ∃ j, BooksExactly th j s₀ s₁) ∧
      (∀ s₀ s₁ legs, Took cfg t s s₀ s₁ → th.exactLegs s₀.db.amount = some legs →
        Rounded legs → SameBooks s₀ s₁) ∧
      ∀ r, th.operation = some r → ¬ th.Replays r →
        ∃ s₀ s₁, Took cfg t s s₀ s₁ ∧ BooksExactly th r.journal s₀ s₁ := by
  have hhist := history_of_reachable h
  refine ⟨fun a => ?_, fun j hj e he n hn => ?_, fun t th hth hkey => ?_⟩
  · have hbounds := balance_bounds h a
    exact ⟨hbounds.1, hbounds.2, number_of_le_seed hbounds⟩
  · obtain ⟨t, th, tx, hth, hcommit, -, hbooks⟩ := hhist.books_of_mem hj
    obtain ⟨s₀, s₁, ⟨hreach, ⟨choice, hstep⟩, -⟩, -, hputs⟩ :=
      exists_putsIn h hth hcommit hbooks.journals
    have hbounds := hputs.bounds hreach (hreach.tail trivial hstep) hbooks.sound he n hn
    exact ⟨hbounds.1, hbounds.2, number_of_le_seed hbounds⟩
  · have hall {s₀ s₁ : Sys} (htook : Took cfg t s s₀ s₁) :
        SameBooks s₀ s₁ ∨ ∃ j, BooksExactly th j s₀ s₁ := by
      rcases htook.outcome hth hkey with ⟨tx, j, hcommits, hj, hputs⟩ | huntouched
      · exact Or.inr ⟨j, htook.booksExactly h hth hcommits hj hputs⟩
      · exact Or.inl huntouched.toSameBooks
    refine ⟨fun s₀ s₁ htook => hall htook, fun s₀ s₁ legs htook hlegs hrounded => ?_,
      fun r hr hreplay => ?_⟩
    · rcases hall htook with hsame | ⟨j, hexactly⟩
      · exact hsame
      · obtain rfl := Option.some.inj (hlegs.symm.trans hexactly.legs_eq)
        exact absurd hrounded hexactly.exact
    · obtain ⟨tx, hcommit, -, hjournals⟩ := committed_of_success h hth hr hreplay
      obtain ⟨s₀, s₁, htook, hcommits, hputs⟩ := exists_putsIn h hth hcommit hjournals
      exact ⟨s₀, s₁, htook, htook.booksExactly h hth hcommits hjournals hputs⟩

/-- A trade, booked exactly. -/
theorem amounts_exact_traded : ∃ s th r, Reachable {} s ∧ s.threads 25 = some th ∧
    th.operation = some r ∧ ∃ s₀ s₁, Took {} 25 s s₀ s₁ ∧ BooksExactly th r.journal s₀ s₁ := by
  have hplay : (runAll (Sys.step {}) anyStep Sys.initial tradeRun).any (fun s =>
      (s.threads 25).any fun th => th.state.req.key.isSome ∧
        th.operation.any fun r => ¬ th.Replays r) = true := by decide +kernel
  obtain ⟨s, hrun, hs⟩ := exists_of_runAll hplay
  simp only [Bool.decide_and, Bool.and_eq_true, decide_eq_true_eq, Option.any_eq_true] at hs
  obtain ⟨th, hth, hkey, r, hr, hreplay⟩ := hs
  exact ⟨s, th, r, hrun, hth, hr, ((amounts_exact hrun).2.2 25 th hth hkey).2.2 r hr hreplay⟩

end FxExchange
