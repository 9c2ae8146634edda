import FxExchange.Model.Money

/-
# Entities

The rows of the database with the constraints of the migrations, the quote kept in Redis,
and what requests get back.  A uuid is a natural number; a timestamp is a number of
milliseconds.
-/

namespace FxExchange

/-- The ids that the database and `uuidv4` give, in the order in which they are drawn. -/
abbrev Uuid : Type := ℕ

/-- The id of a user. -/
abbrev UserId : Type := Uuid

/-- The id of a quote. -/
abbrev QuoteId : Type := Uuid

/-- `HOUSE_USER_ID`, the nil uuid. -/
def houseUserId : UserId := 0

/-- A wallet row.  `UQ_wallets_userId` and `UQ_wallets_system_singleton` leave at most one
for each user and one for the house, so the owner identifies it. -/
inductive WalletId
  | house
  | user (u : UserId)
  deriving DecidableEq, Repr

/-- A row of `balances`, identified by `UQ_balances_walletId_currency`. -/
structure Account where
  walletId : WalletId
  currency : Currency
  deriving DecidableEq, Repr

/-! ## Column types -/

/-- The range of a `bigint` column. -/
def fitsBigint (n : ℤ) : Bool := -2 ^ 63 ≤ n ∧ n < 2 ^ 63

/-- Postgres rounds a `numeric` half away from zero. -/
def roundHalfAway (q : ℚ) : ℤ := if 0 ≤ q then ⌊q + 1 / 2⌋ else -⌊-q + 1 / 2⌋

/-- What a `numeric(precision, scale)` column keeps of a value, if it is in range. -/
def numericColumn (precision scale : ℕ) (q : ℚ) : Option ℚ :=
  let v : ℚ := roundHalfAway (q * 10 ^ scale) / 10 ^ scale
  if |v| < 10 ^ (precision - scale) then some v else none

/-! ## Ledger -/

/-- The side of a leg. -/
inductive TransactionType
  | credit | debit
  deriving DecidableEq, Repr

/-- What a journal was booked for. -/
inductive TransactionPurpose
  | funding | exchange | trade
  deriving DecidableEq, Repr

/-- How far a journal is. -/
inductive TransactionStatus
  | pending | success | failed
  deriving DecidableEq, Repr

/-- A leg of a journal, with the balances around it. -/
structure LedgerEntryInput where
  walletId : WalletId
  userId : UserId
  type : TransactionType
  currency : Currency
  amount : ℤ
  balanceBefore : ℤ
  balanceAfter : ℤ
  deriving DecidableEq, Repr

namespace LedgerEntryInput

/-- The balance row that the leg is about. -/
def account (e : LedgerEntryInput) : Account := ⟨e.walletId, e.currency⟩

/-- The change that the leg records: a CREDIT adds its amount, a DEBIT takes it away. -/
def delta (e : LedgerEntryInput) : ℤ :=
  match e.type with
  | .credit => e.amount
  | .debit => -e.amount

/-- `CHK_transaction_logs_*` and the `bigint` columns. -/
def checks (e : LedgerEntryInput) : Bool :=
  0 < e.amount ∧ 0 ≤ e.balanceBefore ∧ 0 ≤ e.balanceAfter ∧
    fitsBigint e.amount ∧ fitsBigint e.balanceBefore ∧ fitsBigint e.balanceAfter

end LedgerEntryInput

/-- A row of `transaction_logs`. -/
structure TransactionLog extends LedgerEntryInput where
  createdAt : ℕ
  deriving DecidableEq, Repr

/-- The columns of a journal that the service sets. -/
structure JournalData where
  walletId : WalletId
  userId : UserId
  purpose : TransactionPurpose
  status : TransactionStatus
  idempotencyKey : String
  exchangeRate : Option ℚ
  deriving DecidableEq, Repr

/-- What the `numeric(18,8)` column keeps of the rate, a number that the driver sends as its
text. -/
def exchangeRateColumn (rate : ℚ) : Option ℚ := numericColumn 18 8 (numberText rate)

/-- `CHK_journal_entries_exchangeRate` and the column. -/
def checksExchangeRate : Option ℚ → Bool
  | none => true
  | some rate =>
    match exchangeRateColumn rate with
    | none => false
    | some v => 0 < v

/-- The check on a row of `journal_entries`. -/
def JournalData.checks (j : JournalData) : Bool := checksExchangeRate j.exchangeRate

/-- A row of `journal_entries` with its eagerly loaded legs. -/
structure JournalEntry extends JournalData where
  id : Uuid
  createdAt : ℕ
  entries : List TransactionLog
  deriving DecidableEq, Repr

/-! ## Outbox -/

/-- How far an outbox entry is. -/
inductive OutboxStatus
  | pending | processing | published | failed
  deriving DecidableEq, Repr

/-- The payload of a `journal.created` event. -/
structure JournalCreated extends JournalData where
  journalId : Uuid
  entries : List LedgerEntryInput
  deriving DecidableEq, Repr

/-- A row of `outbox_entries`. -/
structure OutboxEntry where
  id : Uuid
  eventType : String
  payload : JournalCreated
  status : OutboxStatus
  retryCount : ℕ
  createdAt : ℕ
  deriving DecidableEq, Repr

/-! ## Orders -/

/-- The kinds of orders. -/
inductive OrderType
  | market
  deriving DecidableEq, Repr

/-- How far an order is. -/
inductive OrderStatus
  | pending | filled | rejected
  deriving DecidableEq, Repr

/-- The columns of an order that the service sets. -/
structure OrderData where
  userId : UserId
  fromCurrency : Currency
  toCurrency : Currency
  amountInSubunits : ℤ
  amountOutSubunits : ℤ
  type : OrderType
  status : OrderStatus
  quoteId : Option QuoteId
  executedRate : Option ℚ
  journalEntryId : Option Uuid
  rejectionReason : Option String
  filledAt : Option ℕ
  deriving DecidableEq, Repr

/-- `CHK_orders_amountIn_pos`, `CHK_orders_amountOut_pos` and the column types. -/
def OrderData.checks (o : OrderData) : Bool :=
  0 < o.amountInSubunits ∧ 0 < o.amountOutSubunits ∧
    fitsBigint o.amountInSubunits ∧ fitsBigint o.amountOutSubunits ∧
    (o.executedRate.all fun rate => (numericColumn 18 10 rate).isSome)

/-- A row of `orders`. -/
structure Order extends OrderData where
  id : Uuid
  deriving DecidableEq, Repr

/-! ## Rates and quotes -/

/-- `VersionedRates`: the table of a snapshot and its version. -/
structure VersionedRates where
  version : String
  base : String
  timestamp : String
  /-- `none` when the provider's body had no rates at all. -/
  rates : Option (Currency → RateValue)

/-- The quote as it is stored under its key.  The rates are strings with 10 decimals in the
source; here they are the numbers that these print. -/
structure Quote where
  id : QuoteId
  userId : UserId
  fromCurrency : Currency
  toCurrency : Currency
  amountInSubunits : ℤ
  amountOutSubunits : ℤ
  midRate : ℚ
  bid : ℚ
  ask : ℚ
  effectiveRate : ℚ
  expiresAt : ℕ
  rateVersion : String
  deriving DecidableEq, Repr

/-! ## Responses and exceptions -/

/-- `WalletResponseDto`. -/
structure WalletResponse where
  walletId : WalletId
  userId : UserId
  balances : Currency → Option ℤ

/-- What `fundWallet`, `convertFunds` and `executeTrade` return; each sets only some of the
optional fields. -/
structure OperationResponse where
  message : String
  status : TransactionStatus
  journal : JournalEntry
  rateVersion : Option String := none
  exchangeRate : Option ℚ := none
  orderId : Option Uuid := none
  executedRate : Option ℚ := none
  amountInSubunits : Option ℤ := none
  amountOutSubunits : Option ℤ := none
  deriving DecidableEq, Repr

/-- What an operation answers. -/
inductive Response
  | operation (r : OperationResponse)
  | quote (q : Quote)
  | consumed (q : Option Quote)
  | wallet (w : WalletResponse)

/-- Everything that can be thrown: the HTTP exceptions of the service, other errors with
their message, and what the database and Redis clients throw. -/
inductive Exn
  | badRequest (message : String)
  | internalServerError (message : String)
  | error (message : String)
  /-- The server, the network or the client failed. -/
  | unavailable
  | uniqueViolation
  | checkViolation
  deriving DecidableEq, Repr

/-- `error.message`. -/
def Exn.message : Exn → String
  | badRequest m => m
  | internalServerError m => m
  | error m => m
  | unavailable => "Connection terminated unexpectedly"
  | uniqueViolation => "duplicate key value violates unique constraint"
  | checkViolation => "new row violates check constraint"

end FxExchange
