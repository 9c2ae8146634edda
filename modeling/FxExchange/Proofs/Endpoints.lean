import FxExchange.Model.Http
import FxExchange.Proofs.Registration

/-
# What the endpoints accept

A request gets to a service just when it is one of a few forms, and then the service finds
nothing wrong with its arguments.
-/

namespace FxExchange

variable {env : HttpEnv} {u : UserId} {value : String}

/-! ## Keys -/

/-- A key that is accepted is the trimmed header, with 1 to 255 code units. -/
lemma parseIdempotencyKey_eq_ok_iff {header : Option String} {k : String} :
    parseIdempotencyKey header = .ok k ↔
      header.map trim = some k ∧ k ≠ "" ∧ utf16Length k ≤ maxKeyLength := by
  cases header with
  | none => simp [parseIdempotencyKey]
  | some value =>
    simp only [parseIdempotencyKey, Option.map_some, Option.some.injEq]
    split
    · rename_i hempty
      refine iff_of_false (by simp) ?_
      rintro ⟨rfl, hne, -⟩
      exact hne hempty
    · split
      · rename_i hlong
        refine iff_of_false (by simp) ?_
        rintro ⟨rfl, -, hle⟩
        omega
      · rename_i hempty hshort
        rw [Except.ok.injEq]
        refine ⟨?_, And.left⟩
        rintro rfl
        exact ⟨rfl, hempty, not_lt.mp hshort⟩

/-! ## Fields -/

lemma validationPipe_bind {α : Type} {fields : List (List Constraint)} {f : Unit → Except Exn α}
    {a : α} : (validationPipe fields >>= f) = .ok a ↔
      (∀ constraints ∈ fields, ∀ c ∈ constraints, c.holds = true) ∧ f () = .ok a := by
  rw [← validationPipe_eq_ok_iff]
  cases validationPipe fields with
  | ok _ => exact (and_iff_right rfl).symm
  | error e =>
    refine iff_of_false ?_ (by simp)
    intro h
    cases h

/-- Behind the check of the field names. -/
lemma validationPipe_known_bind {α : Type} {unknown : List String}
    {fields : List (List Constraint)} {f : Unit → Except Exn α} {a : α} :
    (validationPipe (whitelistConstraints unknown ++ fields) >>= f) = .ok a ↔
      unknown = [] ∧ (∀ constraints ∈ fields, ∀ c ∈ constraints, c.holds = true) ∧
        f () = .ok a := by
  rw [validationPipe_bind]
  cases unknown with
  | nil => simp [whitelistConstraints]
  | cons property rest =>
    refine iff_of_false ?_ (by simp)
    rintro ⟨hall, -⟩
    have := hall _ (List.mem_append_left _ List.mem_cons_self) _ (List.mem_singleton_self _)
    cases this

lemma isSupportedCurrency_code (c : Currency) : isSupportedCurrency c.code = true := by
  rw [isSupportedCurrency, supportedCurrency_code]
  rfl

lemma toUpperCase_code (c : Currency) : toUpperCase c.code = c.code :=
  toUpperCase_of_supportedCurrency (supportedCurrency_code c)

/-- The currencies of a funding and of a conversion are the codes. -/
lemma currencyConstraints_iff {property : String} :
    (∀ c ∈ currencyConstraints env property value, c.holds = true) ↔
      ∃ currency : Currency, value = currency.code := by
  simp only [currencyConstraints, supportedConstraint, List.forall_mem_cons, List.not_mem_nil,
    false_implies, implies_true, and_true]
  constructor
  · rintro ⟨hsupported, -, hupper, -⟩
    obtain ⟨currency, hcurrency⟩ := Option.isSome_iff_exists.mp hsupported
    have hsame := (env.isUppercase_iff value hsupported).mp hupper
    exact ⟨currency, hsame.symm.trans (toUpperCase_of_supportedCurrency hcurrency)⟩
  · rintro ⟨currency, rfl⟩
    have hsupported := isSupportedCurrency_code currency
    refine ⟨hsupported, ?_, (env.isUppercase_iff _ hsupported).mpr (toUpperCase_code currency), ?_⟩
    · cases currency <;> decide
    · cases currency <;> decide

namespace Numeric

/-- An integer of a body. -/
def ofInt (n : ℤ) : Numeric := .finite n

lemma isInt_iff {x : Numeric} : x.isInt = true ↔ ∃ n : ℤ, x = .ofInt n := by
  cases x with
  | finite q =>
    simp only [isInt, decide_eq_true_eq, ofInt, finite.injEq]
    constructor
    · intro hden
      exact ⟨q.num, (Rat.den_eq_one_iff q).mp hden |>.symm⟩
    · rintro ⟨n, rfl⟩
      exact Rat.den_intCast n
  | infinite negative => simp [isInt, ofInt]
  | nan => simp [isInt, ofInt]

@[simp] lemma min_ofInt {n bound : ℤ} : (ofInt n).min bound = true ↔ bound ≤ n := by
  simp [ofInt, Numeric.min]

@[simp] lemma max_ofInt {n bound : ℤ} : (ofInt n).max bound = true ↔ n ≤ bound := by
  simp [ofInt, Numeric.max]

@[simp] lemma toJsNumber_ofInt {n : ℤ} : (ofInt n).toJsNumber = .integer n := by
  simp [ofInt, toJsNumber]

@[simp] lemma toBigInt_ofInt {n : ℤ} : (ofInt n).toBigInt = .ok n := by
  simp [ofInt, toBigInt]

end Numeric

/-- The amounts of a funding and of a conversion are the integers from 1 to the largest one. -/
lemma amountConstraints_iff {property : String} {x : Numeric} :
    (∀ c ∈ amountConstraints property x, c.holds = true) ↔
      ∃ n : ℤ, x = .ofInt n ∧ 1 ≤ n ∧ n ≤ maxAmount := by
  simp only [amountConstraints, List.forall_mem_cons, List.not_mem_nil, false_implies,
    implies_true, and_true]
  constructor
  · rintro ⟨hmax, hmin, hint⟩
    obtain ⟨n, rfl⟩ := Numeric.isInt_iff.mp hint
    exact ⟨n, rfl, Numeric.min_ofInt.mp hmin, Numeric.max_ofInt.mp hmax⟩
  · rintro ⟨n, rfl, hmin, hmax⟩
    exact ⟨Numeric.max_ofInt.mpr hmax, Numeric.min_ofInt.mpr hmin,
      Numeric.isInt_iff.mpr ⟨n, rfl⟩⟩

/-! ### The enumerations of a query -/

/-- The text of a value in a query string. -/
def TransactionType.text : TransactionType → String
  | .credit => "CREDIT"
  | .debit => "DEBIT"

/-- How a purpose is spelled. -/
def TransactionPurpose.text : TransactionPurpose → String
  | .funding => "FUNDING"
  | .exchange => "EXCHANGE"
  | .trade => "TRADE"

lemma lookup_transactionTypes_iff {text : String} {type : TransactionType} :
    transactionTypes.lookup text = some type ↔ text = type.text := by
  constructor
  · intro h
    simp only [transactionTypes, List.lookup_cons, List.lookup_nil] at h
    split at h
    · obtain rfl := Option.some.inj h
      exact eq_of_beq ‹_›
    · split at h
      · obtain rfl := Option.some.inj h
        exact eq_of_beq ‹_›
      · cases h
  · rintro rfl
    cases type <;> decide

lemma lookup_transactionPurposes_iff {text : String} {purpose : TransactionPurpose} :
    transactionPurposes.lookup text = some purpose ↔ text = purpose.text := by
  constructor
  · intro h
    simp only [transactionPurposes, List.lookup_cons, List.lookup_nil] at h
    split at h
    · obtain rfl := Option.some.inj h
      exact eq_of_beq ‹_›
    · split at h
      · obtain rfl := Option.some.inj h
        exact eq_of_beq ‹_›
      · split at h
        · obtain rfl := Option.some.inj h
          exact eq_of_beq ‹_›
        · cases h
  · rintro rfl
    cases purpose <;> decide

/-- The limit of a query is a number from 1 to 100. -/
lemma optional_limit {limit : Option Numeric}
    (h : ∀ c ∈ optional limit fun limit : Numeric =>
      [⟨limit.max 100, "limit must not be greater than 100"⟩,
       ⟨limit.min 1, "limit must not be less than 1"⟩,
       ⟨limit.isInt, "limit must be an integer number"⟩], c.holds = true) :
    ∃ limit' : Option ℕ, (∀ n ∈ limit', 1 ≤ n ∧ n ≤ 100) ∧
      limit = limit'.map fun n : ℕ => Numeric.ofInt n := by
  cases limit with
  | none => exact ⟨none, by simp, rfl⟩
  | some x =>
    simp only [optional, List.forall_mem_cons] at h
    obtain ⟨hmax, hmin, hint, -⟩ := h
    obtain ⟨n, rfl⟩ := Numeric.isInt_iff.mp hint
    have hmin' := Numeric.min_ofInt.mp hmin
    have hmax' := Numeric.max_ofInt.mp hmax
    obtain ⟨m, rfl⟩ := Int.eq_ofNat_of_zero_le (Int.le_of_lt hmin')
    refine ⟨some m, ?_, rfl⟩
    intro k hk
    obtain rfl := Option.some.inj hk
    omega

/-- A value of an enumeration is given by its text. -/
lemma optional_enum {α : Type} {property : String} {values : List (String × α)}
    {text : α → String} {given : Option String}
    (hvalues : ∀ {s a}, values.lookup s = some a ↔ s = text a)
    (h : ∀ c ∈ optional given fun s => [enumConstraint property values s], c.holds = true) :
    ∃ value : Option α, given = value.map text := by
  cases given with
  | none => exact ⟨none, rfl⟩
  | some s =>
    simp only [optional, enumConstraint, List.forall_mem_cons] at h
    obtain ⟨a, ha⟩ := Option.isSome_iff_exists.mp h.1
    exact ⟨some a, congrArg some (hvalues.mp ha)⟩

lemma holds_enum {α : Type} {property : String} {values : List (String × α)} {text : α → String}
    (hvalues : ∀ {s a}, values.lookup s = some a ↔ s = text a) (value : Option α) :
    ∀ c ∈ optional (value.map text) fun s => [enumConstraint property values s],
      c.holds = true := by
  cases value with
  | none => simp [optional]
  | some a =>
    simp only [Option.map_some, optional, List.forall_mem_cons]
    refine ⟨?_, by simp⟩
    rw [enumConstraint, hvalues.mpr rfl]
    rfl

lemma GetTransactionsDto.query_eq {cursor : Option String} {limit : Option ℕ}
    {currency : Option String} {type : Option TransactionType}
    {purpose : Option TransactionPurpose} :
    GetTransactionsDto.query ⟨cursor, limit.map fun n : ℕ => Numeric.ofInt n, currency,
      type.map TransactionType.text, purpose.map TransactionPurpose.text⟩ =
    { cursor, limit := limit.getD 20, currency, type, purpose } := by
  have htype :
      ((type.map TransactionType.text).bind fun s => transactionTypes.lookup s) = type := by
    cases type with
    | none => rfl
    | some a => exact lookup_transactionTypes_iff.mpr rfl
  have hpurpose : ((purpose.map TransactionPurpose.text).bind fun s =>
      transactionPurposes.lookup s) = purpose := by
    cases purpose with
    | none => rfl
    | some a => exact lookup_transactionPurposes_iff.mpr rfl
  unfold query
  rw [htype, hpurpose]
  cases limit with
  | none => rfl
  | some n => simp [Numeric.ofInt]

/-! ## Requests -/

/-- The requests that get to a service, and what it is called with. -/
inductive ApiCall.GoesTo (env : HttpEnv) (u : UserId) : ApiCall → ServiceCall → Prop
  | getWallet : GoesTo env u .getWallet (.wallet (.getWallet u))
  | fundWallet {header : Option String} {k : String} {c : Currency} {n : ℤ}
      (hkey : parseIdempotencyKey header = .ok k) (hmin : 1 ≤ n) (hmax : n ≤ maxAmount) :
    GoesTo env u (.fundWallet header ⟨c.code, .ofInt n⟩)
      (.wallet (.fundWallet u c.code (.integer n) k))
  | convert {header : Option String} {k : String} {f t : Currency} {n : ℤ}
      (hkey : parseIdempotencyKey header = .ok k) (hne : f ≠ t) (hmin : 1 ≤ n)
      (hmax : n ≤ maxAmount) :
    GoesTo env u (.convert header ⟨f.code, t.code, .ofInt n⟩)
      (.wallet (.convertFunds u f.code t.code (.integer n) k .convert))
  | trade {q k : String} (hid : env.isUUID q = true) :
    GoesTo env u (.trade ⟨q, k⟩) (.wallet (.executeTrade u (env.quoteId q) k))
  | createQuote {from_ to_ : String} {n : ℤ} (hfrom : isSupportedCurrency from_ = true)
      (hto : isSupportedCurrency to_ = true) (hmin : 1 ≤ n) :
    GoesTo env u (.createQuote ⟨from_, to_, .ofInt n⟩) (.wallet (.createQuote u from_ to_ n))
  | getRates : GoesTo env u .getRates .rates
  | getTransactions {cursor : Option String} {limit : Option ℕ} {currency : Option String}
      {type : Option TransactionType} {purpose : Option TransactionPurpose}
      (hlimit : ∀ n ∈ limit, 1 ≤ n ∧ n ≤ 100)
      (hcurrency : ∀ c ∈ currency, isSupportedCurrency c = true) :
    GoesTo env u
      (.getTransactions ⟨cursor, limit.map fun n : ℕ => Numeric.ofInt n, currency,
        type.map TransactionType.text, purpose.map TransactionPurpose.text⟩)
      (.history u { cursor, limit := limit.getD 20, currency, type, purpose })

/-- A call without a DTO takes any fields, the others only those of the DTO. -/
def ApiCall.Allows (unknown : List String) : ApiCall → Prop
  | .getWallet | .getRates => True
  | _ => unknown = []

lemma code_injective : Function.Injective Currency.code := by
  intro c c' h
  have hsame := congrArg supportedCurrency h
  rw [supportedCurrency_code, supportedCurrency_code] at hsame
  exact Option.some.inj hsame

lemma except_ok_bind {α β : Type} {a : α} {f : α → Except Exn β} :
    ((.ok a : Except Exn α) >>= f) = f a := rfl

lemma except_bind_eq_ok {α β : Type} {x : Except Exn α} {f : α → Except Exn β} {b : β}
    (h : (x >>= f) = .ok b) : ∃ a, x = .ok a ∧ f a = .ok b := by
  cases x with
  | ok a => exact ⟨a, rfl, h⟩
  | error e => cases h

/-- What gets to a service is one of the forms. -/
lemma goesTo_of_handle {call : ApiCall} {unknown : List String} {c : ServiceCall}
    (h : call.handle env u unknown = .ok c) : call.Allows unknown ∧ call.GoesTo env u c := by
  cases call with
  | getWallet =>
    obtain rfl := Except.ok.inj h
    exact ⟨trivial, .getWallet⟩
  | fundWallet header dto =>
    obtain ⟨currency, amount⟩ := dto
    obtain ⟨k, hkey, h⟩ := except_bind_eq_ok h
    obtain ⟨hknown, hfields, h⟩ := validationPipe_known_bind.mp h
    simp only [FundWalletDto.constraints, List.forall_mem_cons] at hfields
    obtain ⟨c, rfl⟩ := currencyConstraints_iff.mp hfields.1
    obtain ⟨n, rfl, hmin, hmax⟩ := amountConstraints_iff.mp hfields.2.1
    obtain rfl := Except.ok.inj h
    rw [Numeric.toJsNumber_ofInt]
    exact ⟨hknown, .fundWallet hkey hmin hmax⟩
  | convert header dto =>
    obtain ⟨from_, to_, amount⟩ := dto
    obtain ⟨k, hkey, h⟩ := except_bind_eq_ok h
    obtain ⟨hknown, hfields, h⟩ := validationPipe_known_bind.mp h
    simp only [ConvertDto.constraints, List.forall_mem_cons, decide_eq_true_eq] at hfields
    obtain ⟨hfrom, ⟨hne, hto⟩, hamount, -⟩ := hfields
    obtain ⟨f, rfl⟩ := currencyConstraints_iff.mp hfrom
    obtain ⟨t, rfl⟩ := currencyConstraints_iff.mp hto
    obtain ⟨n, rfl, hmin, hmax⟩ := amountConstraints_iff.mp hamount
    obtain rfl := Except.ok.inj h
    rw [Numeric.toJsNumber_ofInt]
    exact ⟨hknown, .convert hkey (fun heq => hne (congrArg Currency.code heq)) hmin hmax⟩
  | trade dto =>
    obtain ⟨hknown, hfields, h⟩ := validationPipe_known_bind.mp h
    simp only [ExecuteTradeDto.constraints, List.forall_mem_cons] at hfields
    obtain rfl := Except.ok.inj h
    exact ⟨hknown, .trade hfields.1.1⟩
  | createQuote dto =>
    obtain ⟨from_, to_, amount⟩ := dto
    obtain ⟨hknown, hfields, h⟩ := validationPipe_known_bind.mp h
    obtain ⟨n, hn, h⟩ := except_bind_eq_ok h
    simp only [CreateQuoteDto.constraints, supportedConstraint, List.forall_mem_cons] at hfields
    obtain ⟨⟨hfrom, -⟩, ⟨hto, -⟩, ⟨hmin, hint, -⟩, -⟩ := hfields
    obtain ⟨m, rfl⟩ := Numeric.isInt_iff.mp hint
    obtain rfl := Except.ok.inj (Numeric.toBigInt_ofInt.symm.trans hn)
    obtain rfl := Except.ok.inj h
    exact ⟨hknown, .createQuote hfrom hto (Numeric.min_ofInt.mp hmin)⟩
  | getRates =>
    obtain rfl := Except.ok.inj h
    exact ⟨trivial, .getRates⟩
  | getTransactions dto =>
    obtain ⟨cursor, limit, currency, type, purpose⟩ := dto
    obtain ⟨hknown, hfields, h⟩ := validationPipe_known_bind.mp h
    simp only [GetTransactionsDto.constraints, List.forall_mem_cons] at hfields
    obtain ⟨hlimit, hcurrency, htype, hpurpose, -⟩ := hfields
    obtain ⟨limit, hlimits, rfl⟩ := optional_limit hlimit
    obtain ⟨type, rfl⟩ := optional_enum lookup_transactionTypes_iff htype
    obtain ⟨purpose, rfl⟩ := optional_enum lookup_transactionPurposes_iff hpurpose
    obtain rfl := Except.ok.inj h
    rw [GetTransactionsDto.query_eq]
    refine ⟨hknown, .getTransactions hlimits fun c hc => ?_⟩
    obtain rfl : currency = some c := hc
    exact (List.forall_mem_cons.mp hcurrency).1

/-- Each of the forms gets to a service. -/
lemma handle_of_goesTo {call : ApiCall} {unknown : List String} {c : ServiceCall}
    (hknown : call.Allows unknown) (h : call.GoesTo env u c) :
    call.handle env u unknown = .ok c := by
  have hcode (property : String) (c : Currency) :
      ∀ check ∈ currencyConstraints env property c.code, check.holds = true :=
    currencyConstraints_iff.mpr ⟨c, rfl⟩
  have hamount (n : ℤ) (hmin : 1 ≤ n) (hmax : n ≤ maxAmount) :
      ∀ check ∈ amountConstraints "amount" (.ofInt n), check.holds = true :=
    amountConstraints_iff.mpr ⟨n, rfl, hmin, hmax⟩
  cases h with
  | getWallet => rfl
  | @fundWallet header k c n hkey hmin hmax =>
    simp only [ApiCall.handle, hkey, except_ok_bind]
    refine validationPipe_known_bind.mpr ⟨hknown, ?_, by rw [Numeric.toJsNumber_ofInt]; rfl⟩
    simp only [FundWalletDto.constraints, List.forall_mem_cons]
    exact ⟨hcode _ c, hamount n hmin hmax, by simp⟩
  | @convert header k f t n hkey hne hmin hmax =>
    simp only [ApiCall.handle, hkey, except_ok_bind]
    refine validationPipe_known_bind.mpr ⟨hknown, ?_, by rw [Numeric.toJsNumber_ofInt]; rfl⟩
    simp only [ConvertDto.constraints, List.forall_mem_cons, decide_eq_true_eq]
    exact ⟨hcode _ f, ⟨code_injective.ne hne, hcode _ t⟩, hamount n hmin hmax, by simp⟩
  | trade hid =>
    refine validationPipe_known_bind.mpr ⟨hknown, ?_, rfl⟩
    simpa [ExecuteTradeDto.constraints] using hid
  | @createQuote from_ to_ n hfrom hto hmin =>
    refine validationPipe_known_bind.mpr ⟨hknown, ?_, by rw [Numeric.toBigInt_ofInt]; rfl⟩
    simp only [CreateQuoteDto.constraints, supportedConstraint, List.forall_mem_cons]
    exact ⟨⟨hfrom, by simp⟩, ⟨hto, by simp⟩,
      ⟨Numeric.min_ofInt.mpr hmin, Numeric.isInt_iff.mpr ⟨n, rfl⟩, by simp⟩, by simp⟩
  | getRates => rfl
  | @getTransactions cursor limit currency type purpose hlimit hcurrency =>
    refine validationPipe_known_bind.mpr ⟨hknown, ?_, by rw [GetTransactionsDto.query_eq]; rfl⟩
    simp only [GetTransactionsDto.constraints, List.forall_mem_cons]
    refine ⟨?_, ?_, ?_, ?_, by simp⟩
    · cases limit with
      | none => simp [optional]
      | some n =>
        obtain ⟨hmin, hmax⟩ := hlimit n rfl
        simp only [Option.map_some, optional, List.forall_mem_cons]
        exact ⟨Numeric.max_ofInt.mpr (by omega), Numeric.min_ofInt.mpr (by omega),
          Numeric.isInt_iff.mpr ⟨n, rfl⟩, by simp⟩
    · cases currency with
      | none => simp [optional]
      | some c =>
        simp only [optional, List.forall_mem_cons]
        exact ⟨hcurrency c rfl, by simp⟩
    · exact holds_enum lookup_transactionTypes_iff type
    · exact holds_enum lookup_transactionPurposes_iff purpose

/-- The middleware lets those through whose token is accepted. -/
lemma use_eq_ok_iff {now : ℕ} {authorization : Option String} {user : Payload} :
    AuthMiddleware.use env now authorization = .ok user ↔
      ∃ token, bearer authorization = some token ∧ env.verify now token = some user := by
  unfold AuthMiddleware.use
  split
  · rename_i hnone
    simp [hnone]
  · rename_i token htoken
    split
    · rename_i hverify
      simp [htoken, hverify]
    · rename_i payload hverify
      simp [htoken, hverify]

/-- A request goes past the middleware, the guard and the checks of its endpoint. -/
lemma HttpRequest.handle_eq_ok {r : HttpRequest} {now : ℕ} {c : ServiceCall} :
    r.handle env now = .ok c ↔ ∃ user, AuthMiddleware.use env now r.authorization = .ok user ∧
      r.overLimit = false ∧ r.call.handle env user.sub r.unknown = .ok c := by
  unfold HttpRequest.handle ThrottlerGuard.canActivate
  cases AuthMiddleware.use env now r.authorization with
  | error e => simp
  | ok user =>
    cases r.overLimit with
    | true => simp
    | false =>
      have hthrough (x : Except Exn ServiceCall) :
          x.mapError HttpException.exn = .ok c ↔ x = .ok c := by
        cases x <;> simp [Except.mapError]
      simpa using hthrough _

/-- What gets to a service comes with a token that is accepted. -/
lemma HttpRequest.goesTo_of_handle {r : HttpRequest} {now : ℕ} {c : ServiceCall}
    (h : r.handle env now = .ok c) :
    ∃ token user, r.token = some token ∧ env.verify now token = some user ∧
      r.call.GoesTo env user.sub c := by
  obtain ⟨user, huser, -, hcall⟩ := HttpRequest.handle_eq_ok.mp h
  obtain ⟨token, htoken, hverify⟩ := use_eq_ok_iff.mp huser
  exact ⟨token, user, htoken, hverify, (FxExchange.goesTo_of_handle hcall).2⟩

/-- A request gets to a service just when the throttler lets it through, its token is accepted and
it is one of the forms, with no other fields; it is served for the subject of the token. -/
theorem handle_eq_ok_iff {r : HttpRequest} {now : ℕ} {c : ServiceCall} :
    r.handle env now = .ok c ↔ r.overLimit = false ∧ r.call.Allows r.unknown ∧
      ∃ token user, r.token = some token ∧ env.verify now token = some user ∧
        r.call.GoesTo env user.sub c := by
  rw [HttpRequest.handle_eq_ok]
  constructor
  · rintro ⟨user, huser, hlimit, hcall⟩
    obtain ⟨token, htoken, hverify⟩ := use_eq_ok_iff.mp huser
    obtain ⟨hknown, hgoes⟩ := FxExchange.goesTo_of_handle hcall
    exact ⟨hlimit, hknown, token, user, htoken, hverify, hgoes⟩
  · rintro ⟨hlimit, hknown, token, user, htoken, hverify, hgoes⟩
    exact ⟨user, use_eq_ok_iff.mpr ⟨token, htoken, hverify⟩, hlimit, handle_of_goesTo hknown hgoes⟩

end FxExchange
