import FxExchange.Model.Auth
import FxExchange.Model.System
import FxExchange.Model.Transactions

/-
# The API

What stands in front of the services: `auth/middleware/auth.middleware.ts`, the `ThrottlerGuard`
of `app.module.ts`, the decorators of the controllers, the DTOs of the wallet, the quotes and the
history under the `ValidationPipe`, and the exception filter.  A body has its strings where the
DTO has a string.  At the end all of this is put together with the accounts and the wallets
behind it.
-/

namespace FxExchange

/-! ## Exceptions -/

/-- What an endpoint can throw. -/
inductive HttpException
  | unauthorized (message : String)
  /-- `ThrottlerException`. -/
  | throttled
  | exn (e : Exn)
  deriving DecidableEq, Repr

/-- The body of a reply without its `timestamp` and the `correlationId` of the request; `success`
is false in all of them. -/
structure ErrorBody where
  statusCode : ℕ
  message : String
  deriving DecidableEq, Repr

namespace AllExceptionsFilter

/-- `msg || error`. -/
def messageOf (message error : String) : String := if message = "" then error else message

/-- `AllExceptionsFilter.catch`. -/
def respond : HttpException → ErrorBody
  | .unauthorized message => ⟨401, messageOf message "Unauthorized"⟩
  | .throttled => ⟨429, "ThrottlerException: Too Many Requests"⟩
  | .exn (.badRequest message) => ⟨400, messageOf message "Bad Request"⟩
  | .exn (.internalServerError message) => ⟨500, messageOf message "Internal Server Error"⟩
  | .exn _ => ⟨500, "Internal server error"⟩

end AllExceptionsFilter

/-! ## `auth/middleware/auth.middleware.ts` -/

/-- The payload of a token. -/
structure Payload where
  sub : UserId
  email : String
  deriving DecidableEq, Repr

/-- What the API calls and is not in the repository: the auth packages, and the validators of
the DTOs. -/
structure HttpEnv extends AuthEnv where
  /-- `JwtService.verifyAsync`, at a time.  It counts in seconds. -/
  verify : (now : ℕ) → (token : String) → Option Payload
  verify_sign : ∀ t now sub email, verify now (sign t sub email) =
    if now / 1000 < t / 1000 + 3600 then some { sub, email } else none
  /-- `isUppercase` and `isUUID` of the `validator` package. -/
  isUppercase : String → Bool
  isUppercase_iff : ∀ value, isSupportedCurrency value = true →
    (isUppercase value = true ↔ toUpperCase value = value)
  isUUID : String → Bool
  /-- The quote that has this id, or would have it. -/
  quoteId : String → QuoteId

/-- `authHeader.split(' ')[1]`, if the header starts with `Bearer` and a space. -/
def bearer (authorization : Option String) : Option String :=
  match authorization with
  | none => none
  | some header =>
    if "Bearer ".toList <+: header.toList then
      some (String.ofList ((header.toList.drop 7).takeWhile fun c => c ≠ ' '))
    else none

/-- `AuthMiddleware.use`: what becomes `req.user`. -/
def AuthMiddleware.use (env : HttpEnv) (now : ℕ) (authorization : Option String) :
    Except HttpException Payload :=
  match bearer authorization with
  | none => .error (.unauthorized "Missing or invalid authorization header")
  | some token =>
    match env.verify now token with
    | none => .error (.unauthorized "Invalid or expired token")
    | some payload => .ok payload

/-! ## `common/pipes/parse-idempotency-key.pipe.ts` -/

/-- The longest idempotency key. -/
def maxKeyLength : ℕ := 255

/-- `IdempotencyKey`, of the header. -/
def parseIdempotencyKey (value : Option String) : Except Exn String :=
  match value with
  | none => .error (.badRequest
      "x-idempotency-key header is required and must be a non-empty string")
  | some value =>
    if trim value = "" then .error (.badRequest
      "x-idempotency-key header is required and must be a non-empty string")
    else if maxKeyLength < utf16Length (trim value) then
      .error (.badRequest ("x-idempotency-key must not exceed " ++ toString maxKeyLength ++
        " characters"))
    else .ok (trim value)

/-! ## DTOs -/

/-- A number of a body or a query; where the DTO has `@Type(() => Number)`, what it has
become. -/
inductive Numeric
  | finite (q : ℚ)
  | infinite (negative : Bool)
  | nan
  deriving DecidableEq, Repr

namespace Numeric

/-- `IsInt`. -/
def isInt : Numeric → Bool
  | finite q => q.den = 1
  | _ => false

/-- `@Min(bound)`. -/
def min (bound : ℤ) : Numeric → Bool
  | finite q => (bound : ℚ) ≤ q
  | infinite negative => !negative
  | nan => false

/-- `@Max(bound)`. -/
def max (bound : ℤ) : Numeric → Bool
  | finite q => q ≤ (bound : ℚ)
  | infinite negative => negative
  | nan => false

/-- The number as the services look at it. -/
def toJsNumber : Numeric → JsNumber
  | finite q => if q.den = 1 then .integer q.num else .notInteger
  | _ => .notInteger

/-- `BigInt(value)`. -/
def toBigInt : Numeric → Except Exn ℤ
  | finite q => if q.den = 1 then .ok q.num else .error (.error "RangeError")
  | _ => .error (.error "RangeError")

end Numeric

/-- `@IsSupportedCurrency()`. -/
def supportedConstraint (value : String) : Constraint :=
  ⟨isSupportedCurrency value,
    "Currency must be one of: " ++ ", ".intercalate (supportedCurrencies.map Currency.code)⟩

/-- The decorators of the currencies of `FundWalletDto` and `ConvertDto`. -/
def currencyConstraints (env : HttpEnv) (property value : String) : List Constraint :=
  [supportedConstraint value,
   ⟨isLength value 3 3, lengthMessage property value 3 3⟩,
   ⟨env.isUppercase value, property ++ " must be uppercase"⟩,
   ⟨isNotEmpty value, property ++ " should not be empty"⟩]

/-- The largest amount of a funding or a conversion. -/
def maxAmount : ℤ := 100000000000

/-- The decorators of the amounts of `FundWalletDto` and `ConvertDto`. -/
def amountConstraints (property : String) (value : Numeric) : List Constraint :=
  [⟨value.max maxAmount, "Amount exceeds the maximum allowed value"⟩,
   ⟨value.min 1, property ++ " must not be less than 1"⟩,
   ⟨value.isInt, property ++ " must be an integer number"⟩]

/-- The body of `POST /wallet/fund`. -/
structure FundWalletDto where
  currency : String
  amount : Numeric
  deriving DecidableEq, Repr

/-- The decorators of `FundWalletDto`, field by field. -/
def FundWalletDto.constraints (env : HttpEnv) (dto : FundWalletDto) : List (List Constraint) :=
  [currencyConstraints env "currency" dto.currency, amountConstraints "amount" dto.amount]

/-- The body of `POST /wallet/convert`. -/
structure ConvertDto where
  fromCurrency : String
  toCurrency : String
  amount : Numeric
  deriving DecidableEq, Repr

/-- `CurrenciesNotEqual` compares the texts. -/
def ConvertDto.constraints (env : HttpEnv) (dto : ConvertDto) : List (List Constraint) :=
  [currencyConstraints env "fromCurrency" dto.fromCurrency,
   ⟨dto.fromCurrency ≠ dto.toCurrency, "fromCurrency and toCurrency must be different"⟩ ::
     currencyConstraints env "toCurrency" dto.toCurrency,
   amountConstraints "amount" dto.amount]

/-- The body of `POST /wallet/trade`. -/
structure ExecuteTradeDto where
  quoteId : String
  idempotencyKey : String
  deriving DecidableEq, Repr

/-- The decorators of `ExecuteTradeDto`, field by field. -/
def ExecuteTradeDto.constraints (env : HttpEnv) (dto : ExecuteTradeDto) :
    List (List Constraint) :=
  [[⟨env.isUUID dto.quoteId, "quoteId must be a UUID"⟩]]

/-- The body of `POST /fx/quotes`. -/
structure CreateQuoteDto where
  fromCurrency : String
  toCurrency : String
  amountInSubunits : Numeric
  deriving DecidableEq, Repr

/-- The decorators of `CreateQuoteDto`, field by field. -/
def CreateQuoteDto.constraints (dto : CreateQuoteDto) : List (List Constraint) :=
  [[supportedConstraint dto.fromCurrency], [supportedConstraint dto.toCurrency],
   [⟨dto.amountInSubunits.min 1, "amountInSubunits must not be less than 1"⟩,
    ⟨dto.amountInSubunits.isInt, "amountInSubunits must be an integer number"⟩]]

/-- The fields are those of the query string that are there. -/
structure GetTransactionsDto where
  cursor : Option String := none
  limit : Option Numeric := none
  currency : Option String := none
  type : Option String := none
  purpose : Option String := none
  deriving DecidableEq, Repr

/-- The values of `TransactionType`. -/
def transactionTypes : List (String × TransactionType) := [("CREDIT", .credit), ("DEBIT", .debit)]

/-- The values of `TransactionPurpose`. -/
def transactionPurposes : List (String × TransactionPurpose) :=
  [("FUNDING", .funding), ("EXCHANGE", .exchange), ("TRADE", .trade)]

/-- `@IsEnum(…)`. -/
def enumConstraint {α : Type} (property : String) (values : List (String × α)) (value : String) :
    Constraint :=
  ⟨(values.lookup value).isSome, property ++ " must be one of the following values: " ++
    ", ".intercalate (values.map Prod.fst)⟩

/-- `@IsOptional()`: a field that is not there is not looked at. -/
def optional {α : Type} (value : Option α) (constraints : α → List Constraint) :
    List Constraint :=
  match value with
  | none => []
  | some value => constraints value

/-- The decorators of `GetTransactionsDto`, field by field. -/
def GetTransactionsDto.constraints (dto : GetTransactionsDto) : List (List Constraint) :=
  [optional dto.limit fun limit =>
     [⟨limit.max 100, "limit must not be greater than 100"⟩,
      ⟨limit.min 1, "limit must not be less than 1"⟩,
      ⟨limit.isInt, "limit must be an integer number"⟩],
   optional dto.currency fun currency => [supportedConstraint currency],
   optional dto.type fun type => [enumConstraint "type" transactionTypes type],
   optional dto.purpose fun purpose => [enumConstraint "purpose" transactionPurposes purpose]]

/-- What the service reads of the DTO; the limit is 20 unless it is given. -/
def GetTransactionsDto.query (dto : GetTransactionsDto) : TransactionsQuery where
  cursor := dto.cursor
  limit :=
    match dto.limit with
    | some (.finite q) => q.num.toNat
    | _ => 20
  currency := dto.currency
  type := dto.type.bind fun type => transactionTypes.lookup type
  purpose := dto.purpose.bind fun purpose => transactionPurposes.lookup purpose

/-! ## The controllers -/

/-- An endpoint behind `AuthMiddleware`, with what it reads of the request. -/
inductive ApiCall
  | getWallet
  | fundWallet (idempotencyKey : Option String) (dto : FundWalletDto)
  | convert (idempotencyKey : Option String) (dto : ConvertDto)
  | trade (dto : ExecuteTradeDto)
  | createQuote (dto : CreateQuoteDto)
  | getRates
  | getTransactions (dto : GetTransactionsDto)
  deriving DecidableEq, Repr

/-- A request, as it comes to the application. -/
structure HttpRequest where
  authorization : Option String
  /-- The `ThrottlerGuard` finds that its client has used up its requests. -/
  overLimit : Bool := false
  call : ApiCall
  /-- The fields of its body or query that the DTO does not have. -/
  unknown : List String := []
  deriving DecidableEq, Repr

/-- The token that a request brings. -/
def HttpRequest.token (r : HttpRequest) : Option String := bearer r.authorization

/-- What a controller calls. -/
inductive ServiceCall
  | wallet (req : Request)
  | rates
  | history (userId : UserId) (query : TransactionsQuery)

/-- `forbidNonWhitelisted`: each of the fields is an error of its own, before those of the DTO. -/
def whitelistConstraints (unknown : List String) : List (List Constraint) :=
  unknown.map fun property => [⟨false, "property " ++ property ++ " should not exist"⟩]

/-- The endpoints of `WalletController`, `FxController` and `TransactionsController`. -/
def ApiCall.handle (env : HttpEnv) (userId : UserId) (unknown : List String) :
    ApiCall → Except Exn ServiceCall
  | .getWallet => .ok (.wallet (.getWallet userId))
  | .fundWallet header dto => do
    let idempotencyKey ← parseIdempotencyKey header
    validationPipe (whitelistConstraints unknown ++ dto.constraints env)
    return .wallet (.fundWallet userId dto.currency dto.amount.toJsNumber idempotencyKey)
  | .convert header dto => do
    let idempotencyKey ← parseIdempotencyKey header
    validationPipe (whitelistConstraints unknown ++ dto.constraints env)
    return .wallet (.convertFunds userId dto.fromCurrency dto.toCurrency dto.amount.toJsNumber
      idempotencyKey .convert)
  | .trade dto => do
    validationPipe (whitelistConstraints unknown ++ dto.constraints env)
    return .wallet (.executeTrade userId (env.quoteId dto.quoteId) dto.idempotencyKey)
  | .createQuote dto => do
    validationPipe (whitelistConstraints unknown ++ dto.constraints)
    let amountInSubunits ← dto.amountInSubunits.toBigInt
    return .wallet (.createQuote userId dto.fromCurrency dto.toCurrency amountInSubunits)
  | .getRates => .ok .rates
  | .getTransactions dto => do
    validationPipe (whitelistConstraints unknown ++ dto.constraints)
    return .history userId dto.query

/-- `ThrottlerGuard.canActivate`. -/
def ThrottlerGuard.canActivate (overLimit : Bool) : Except HttpException Unit :=
  if overLimit then .error .throttled else .ok ()

/-- From the middleware over the guard to the service; `@CurrentUser('sub')` is the subject of the
token. -/
def HttpRequest.handle (env : HttpEnv) (now : ℕ) (r : HttpRequest) :
    Except HttpException ServiceCall :=
  match AuthMiddleware.use env now r.authorization, ThrottlerGuard.canActivate r.overLimit with
  | .error e, _ => .error e
  | .ok _, .error e => .error e
  | .ok user, .ok _ => (r.call.handle env user.sub r.unknown).mapError .exn

/-! ## The site -/

/-- What has become of a request. -/
inductive Outcome
  | refused (body : ErrorBody)
  | thread (t : Tid)
  | rates
  | history (userId : UserId) (query : TransactionsQuery)
  deriving DecidableEq, Repr

/-- The accounts and the wallets, with the requests that have come in. -/
structure Site where
  auth : AuthState
  sys : Sys
  /-- The requests that have come in, in order; no program reads this. -/
  traffic : List (HttpRequest × Outcome)

/-- A request arrives, or something moves behind the API. -/
inductive SiteEvent
  /-- A request for an endpoint behind the middleware. -/
  | http (r : HttpRequest)
  /-- The auth endpoints move. -/
  | auth (e : AuthEvent)
  | run (t : Tid) (choice : Choice)
  | crash (t : Tid)
  | tick (ms : ℕ)

namespace Site

/-- Nobody has an account, and no request has come. -/
def initial : Site := { auth := .initial, sys := .initial, traffic := [] }

/-- The request has come to this. -/
def log (s : Site) (r : HttpRequest) (outcome : Outcome) : Site :=
  { s with traffic := s.traffic ++ [(r, outcome)] }

/-- What comes of an event, if it can happen. -/
def step (env : HttpEnv) (cfg : Config) (s : Site) : SiteEvent → Option Site
  | .http r =>
    match r.handle env s.auth.store.now with
    | .error e => some (s.log r (.refused (AllExceptionsFilter.respond e)))
    | .ok (.wallet req) => (s.sys.step cfg (.spawn req)).map fun sys =>
        { s.log r (.thread s.sys.seq) with sys }
    | .ok .rates => some (s.log r .rates)
    | .ok (.history userId query) => some (s.log r (.history userId query))
  -- the clock is that of the site
  | .auth (.tick _) => none
  | .auth e => ((authServer env.toAuthEnv).step s.auth e).map fun auth => { s with auth }
  | .run t choice => (s.sys.step cfg (.run t choice)).map fun sys => { s with sys }
  | .crash t => (s.sys.step cfg (.crash t)).map fun sys => { s with sys }
  | .tick ms =>
    ((authServer env.toAuthEnv).step s.auth (.tick ms)).bind fun auth =>
      (s.sys.step cfg (.tick ms)).map fun sys => { s with auth, sys }

/-- Runs of the site, all of whose steps satisfy `ok`. -/
abbrev Runs (env : HttpEnv) (cfg : Config) (ok : Site → SiteEvent → Prop) : Site → Site → Prop :=
  Transition.Runs (Site.step env cfg) ok

end Site

end FxExchange
