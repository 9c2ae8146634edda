import FxExchange.Model.Services

/-
# The wallet service

`wallet/wallet.service.ts`: reading a wallet, funding, converting and trading.
-/

namespace FxExchange

open Service
open Prog (tryCatch throwIf)

/-! ## Parts that the three operations share -/

/-- The caller's wallet row, created on first use. -/
def findOrCreateWallet (userId : UserId) : Service Unit := do
  let wallet ← findWallet userId
  if wallet then pure () else saveWallet userId

/-- Lock a balance row of the caller, or insert it with amount 0; answers its amount. -/
def lockOrCreateBalance (a : Account) : Service ℤ := do
  let balance ← selectForUpdate a
  match balance with
  | some amount => pure amount
  | none => do
    insertBalance a
    pure 0

/-- The `try … catch … finally` around the work of a transaction.  Releasing the query
runner does not change the database. -/
def inTransaction {α : Type} (failure : String) (rejected : Exn → Service Unit)
    (body : Service α) : Service α :=
  tryCatch body fun error => do
    rollbackTransaction
    rejected error
    match error with
    | .badRequest message => .throw (.badRequest message)
    | _ => .throw (.badRequest failure)

/-- `redis.del('wallet:balances:<userId>').catch(() => {})`. -/
def dropWalletCache (userId : UserId) : Service Unit :=
  tryCatch (issue (.redis (.delWallet userId))) fun _ => pure ()

/-- `Number.isInteger(amount) && amount > 0`. -/
def requirePositiveInteger : JsNumber → Service ℤ
  | .notInteger => .throw (.badRequest
      "Amount must be a positive integer in smallest currency unit")
  | .integer n =>
    if n ≤ 0 then
      .throw (.badRequest "Amount must be a positive integer in smallest currency unit")
    else
      pure n

/-- The house cannot pay this currency. -/
def houseLiquidityExhausted (currency : Currency) : Exn :=
  .badRequest ("House liquidity exhausted for " ++ currency.code)

/-- The user cannot pay this currency. -/
def insufficientBalance (currency : Currency) : Exn :=
  .badRequest ("Insufficient " ++ currency.code ++ " balance")

/-- A leg on the wallet of a user. -/
def userLeg (userId : UserId) (type : TransactionType) (currency : Currency)
    (amount balanceBefore balanceAfter : ℤ) : LedgerEntryInput :=
  { walletId := .user userId, userId, type, currency, amount, balanceBefore, balanceAfter }

/-- A leg on the house wallet. -/
def houseLeg (type : TransactionType) (currency : Currency)
    (amount balanceBefore balanceAfter : ℤ) : LedgerEntryInput :=
  { walletId := .house, userId := houseUserId, type, currency, amount, balanceBefore,
    balanceAfter }

/-! ## `getWallet` -/

/-- `WalletService.getWallet`: from the cache, or from the database, with a new wallet where
there is none. -/
def getWallet (userId : UserId) : Service WalletResponse := do
  let cached ← tryCatch (issue (.redis (.getWallet userId))) fun _ => pure none
  match cached with
  | some wallet => pure wallet
  | none => do
    let wallet ← findWalletBalances userId
    let result ← match wallet with
      | some wallet => pure wallet
      | none => do
        saveWallet userId
        pure { walletId := .user userId, userId, balances := fun _ => none }
    tryCatch (issue (.redis (.setWallet userId result 3600))) fun _ => pure ()
    pure result

/-! ## `fundWallet` -/

/-- The work of the funding transaction. -/
def fundWalletTx (userId : UserId) (currency : Currency) (amount : ℤ)
    (idempotencyKey : String) : Service OperationResponse := do
  let balance ← lockOrCreateBalance ⟨.user userId, currency⟩
  let balanceBefore := number balance
  let balanceAfter := number (balanceBefore + amount)
  let houseBalance ← lockBalance currency
  let houseBefore := number houseBalance
  let houseAfter := number (houseBefore - amount)
  throwIf (houseAfter < 0) (houseLiquidityExhausted currency)
  let journal ← recordJournalEntry
    { walletId := .user userId, userId
      purpose := .funding
      idempotencyKey
      exchangeRate := none
      status := .success
      entries :=
        [userLeg userId .credit currency amount balanceBefore balanceAfter,
         houseLeg .debit currency amount houseBefore houseAfter] }
  updateBalance ⟨.user userId, currency⟩ balanceAfter
  updateBalance ⟨.house, currency⟩ houseAfter
  commitTransaction
  dropWalletCache userId
  pure { message := "Wallet funded successfully", status := .success, journal }

/-- The answer to a funding that has been booked before. -/
def fundReplay (journal : JournalEntry) : OperationResponse :=
  { message := "Wallet funded successfully (idempotent)", status := .success, journal }

/-- The action that `fundWallet` runs under the wallet lock. -/
def fundWalletLocked (userId : UserId) (currency : Currency) (amount : ℤ)
    (idempotencyKey : String) : Service OperationResponse := do
  let replay ← findByIdempotencyKey userId idempotencyKey
  match replay.filter (fun journal => journal.status = .success) with
  | some journal => pure (fundReplay journal)
  | none => do
    findOrCreateWallet userId
    let _ ← startTransaction
    inTransaction "Failed to fund wallet" (fun _ => pure ())
      (fundWalletTx userId currency amount idempotencyKey)

/-- `WalletService.fundWallet`. -/
def fundWallet (cfg : Config) (userId : UserId) (currency : String) (amount : JsNumber)
    (idempotencyKey : String) : Service OperationResponse := do
  let currency ← requireSupported currency
  let amount ← requirePositiveInteger amount
  let existing ← findByIdempotencyKey userId idempotencyKey
  match existing with
  | some journal =>
    match journal.status with
    | .success => pure (fundReplay journal)
    | .pending => .throw (.badRequest "Transaction is currently being processed. Please wait.")
    | .failed => .throw (.badRequest
        "Transaction previously failed. Please use a new idempotency key.")
  | none => acquire cfg userId (fundWalletLocked userId currency amount idempotencyKey)

/-! ## `convertFunds` -/

/-- The `context` argument of `convertFunds`. -/
inductive ConvertContext
  | convert | trade
  deriving DecidableEq, Repr

namespace ConvertContext

/-- How the context is spelled. -/
def text : ConvertContext → String
  | convert => "convert"
  | trade => "trade"

/-- What is booked in the context. -/
def purpose : ConvertContext → TransactionPurpose
  | trade => .trade
  | convert => .exchange

end ConvertContext

/-- What a conversion has worked out before its transaction starts. -/
structure Conversion where
  fromCurrency : Currency
  toCurrency : Currency
  amount : ℤ
  convertedAmount : ℤ
  exchangeRate : ℚ
  rateVersion : String

/-- The work of the conversion transaction. -/
def convertFundsTx (userId : UserId) (c : Conversion) (idempotencyKey : String)
    (purpose : TransactionPurpose) : Service OperationResponse := do
  let fromBalance ← selectForUpdate ⟨.user userId, c.fromCurrency⟩
  throwIf (∀ amount ∈ fromBalance, number amount < c.amount)
    (insufficientBalance c.fromCurrency)
  let toBalance ← lockOrCreateBalance ⟨.user userId, c.toCurrency⟩
  let fromBefore := number (fromBalance.getD 0)
  let fromAfter := number (fromBefore - c.amount)
  let toBefore := number toBalance
  let toAfter := number (toBefore + c.convertedAmount)
  let houseFrom ← lockBalance c.fromCurrency
  let houseTo ← lockBalance c.toCurrency
  let houseFromBefore := number houseFrom
  let houseFromAfter := number (houseFromBefore + c.amount)
  let houseToBefore := number houseTo
  let houseToAfter := number (houseToBefore - c.convertedAmount)
  throwIf (houseToAfter < 0) (houseLiquidityExhausted c.toCurrency)
  let journal ← recordJournalEntry
    { walletId := .user userId, userId, purpose, idempotencyKey
      exchangeRate := some c.exchangeRate
      status := .success
      entries :=
        [userLeg userId .debit c.fromCurrency c.amount fromBefore fromAfter,
         houseLeg .credit c.fromCurrency c.amount houseFromBefore houseFromAfter,
         houseLeg .debit c.toCurrency c.convertedAmount houseToBefore houseToAfter,
         userLeg userId .credit c.toCurrency c.convertedAmount toBefore toAfter] }
  updateBalance ⟨.user userId, c.fromCurrency⟩ fromAfter
  updateBalance ⟨.user userId, c.toCurrency⟩ toAfter
  updateBalance ⟨.house, c.fromCurrency⟩ houseFromAfter
  updateBalance ⟨.house, c.toCurrency⟩ houseToAfter
  commitTransaction
  dropWalletCache userId
  pure { message := "Conversion successful", status := .success, journal
         rateVersion := some c.rateVersion, exchangeRate := some c.exchangeRate }

/-- The action that `convertFunds` runs under the wallet lock. -/
def convertFundsLocked (userId : UserId) (fromCurrency toCurrency : Currency) (amount : ℤ)
    (idempotencyKey : String) (context : ConvertContext) : Service OperationResponse := do
  let rates ← getRates
  let fromRate ← rateOf rates fromCurrency
  let toRate ← rateOf rates toCurrency
  let exchangeRateDecimal := crossRate fromRate toRate
  let exchangeRate := numberOfDecimal (toFixed 8 exchangeRateDecimal)
  let convertedAmount := number
    (convertSubunits amount fromCurrency.code toCurrency.code exchangeRateDecimal)
  throwIf (convertedAmount ≤ 0) (.badRequest ("Amount too small to " ++ context.text ++ "."))
  findOrCreateWallet userId
  let _ ← startTransaction
  inTransaction "Failed to convert funds" (fun _ => pure ())
    (convertFundsTx userId
      { fromCurrency, toCurrency, amount, convertedAmount, exchangeRate,
        rateVersion := rates.version }
      idempotencyKey context.purpose)

/-- `Number(null)` is 0: a funding journal has no exchange rate. -/
def convertReplay (journal : JournalEntry) : OperationResponse :=
  { message := "Conversion successful (idempotent)", status := journal.status, journal
    exchangeRate := some (numberOfDecimal (journal.exchangeRate.getD 0)) }

/-- `WalletService.convertFunds`. -/
def convertFunds (cfg : Config) (userId : UserId) (from_ to_ : String) (amount : JsNumber)
    (idempotencyKey : String) (context : ConvertContext) : Service OperationResponse := do
  throwIf (toUpperCase from_ = toUpperCase to_)
    (.badRequest "Cannot convert to the same currency")
  let fromCurrency ← requireSupported from_
  let toCurrency ← requireSupported to_
  let amount ← requirePositiveInteger amount
  let existing ← findByIdempotencyKey userId idempotencyKey
  match existing with
  | some journal =>
    match journal.status with
    | .success => pure (convertReplay journal)
    | .pending => .throw (.badRequest "Conversion is currently being processed. Please wait.")
    | .failed => .throw (.badRequest
        "Conversion previously failed. Please use a new idempotency key.")
  | none =>
    acquire cfg userId
      (convertFundsLocked userId fromCurrency toCurrency amount idempotencyKey context)

/-- `WalletService.tradeFunds`. -/
def tradeFunds (cfg : Config) (userId : UserId) (from_ to_ : String) (amount : JsNumber)
    (idempotencyKey : String) : Service OperationResponse :=
  convertFunds cfg userId from_ to_ amount idempotencyKey .trade

/-! ## `executeTrade` -/

/-- The columns of an order for a quote, before anything is known of its outcome. -/
def orderOfQuote (userId : UserId) (quote : Quote) : OrderData :=
  { userId
    fromCurrency := quote.fromCurrency
    toCurrency := quote.toCurrency
    amountInSubunits := quote.amountInSubunits
    amountOutSubunits := quote.amountOutSubunits
    type := .market
    status := .pending
    quoteId := some quote.id
    executedRate := some quote.effectiveRate
    journalEntryId := none
    rejectionReason := none
    filledAt := none }

/-- The work of the trade transaction; its amounts are `bigint`s until they reach the
ledger. -/
def executeTradeTx (userId : UserId) (quote : Quote) (idempotencyKey : String) :
    Service OperationResponse := do
  let amountIn := quote.amountInSubunits
  let amountOut := quote.amountOutSubunits
  let fromBalance ← selectForUpdate ⟨.user userId, quote.fromCurrency⟩
  throwIf (∀ amount ∈ fromBalance, amount < amountIn) (insufficientBalance quote.fromCurrency)
  let toBefore ← lockOrCreateBalance ⟨.user userId, quote.toCurrency⟩
  let houseFromBefore ← lockBalance quote.fromCurrency
  let houseToBefore ← lockBalance quote.toCurrency
  let fromBefore := fromBalance.getD 0
  let fromAfter := fromBefore - amountIn
  let toAfter := toBefore + amountOut
  let houseFromAfter := houseFromBefore + amountIn
  let houseToAfter := houseToBefore - amountOut
  throwIf (houseToAfter < 0) (houseLiquidityExhausted quote.toCurrency)
  let savedOrderId ← insertOrder (orderOfQuote userId quote)
  let journal ← recordJournalEntry
    { walletId := .user userId, userId
      purpose := .trade
      idempotencyKey
      exchangeRate := some (numberOfDecimal quote.effectiveRate)
      status := .success
      entries :=
        [userLeg userId .debit quote.fromCurrency (number amountIn)
           (number fromBefore) (number fromAfter),
         houseLeg .credit quote.fromCurrency (number amountIn)
           (number houseFromBefore) (number houseFromAfter),
         houseLeg .debit quote.toCurrency (number amountOut)
           (number houseToBefore) (number houseToAfter),
         userLeg userId .credit quote.toCurrency (number amountOut)
           (number toBefore) (number toAfter)] }
  updateBalance ⟨.user userId, quote.fromCurrency⟩ (number fromAfter)
  updateBalance ⟨.user userId, quote.toCurrency⟩ (number toAfter)
  updateBalance ⟨.house, quote.fromCurrency⟩ (number houseFromAfter)
  updateBalance ⟨.house, quote.toCurrency⟩ (number houseToAfter)
  let filledAt ← now
  updateOrder savedOrderId journal.id filledAt
  commitTransaction
  dropWalletCache userId
  pure { message := "Trade executed successfully", status := .success, journal
         orderId := some savedOrderId
         executedRate := some quote.effectiveRate
         amountInSubunits := some amountIn
         amountOutSubunits := some amountOut }

/-- The rejected order that is written after the rollback, outside the transaction; if it
cannot be written that is ignored. -/
def saveRejected (userId : UserId) (quote : Quote) (error : Exn) : Service Unit :=
  tryCatch
    (do
      let _ ← saveOrder
        { orderOfQuote userId quote with
          status := .rejected
          rejectionReason := some error.message }
      pure ())
    fun _ => pure ()

/-- The action that `executeTrade` runs under the wallet lock. -/
def executeTradeLocked (userId : UserId) (quote : Quote) (idempotencyKey : String) :
    Service OperationResponse := do
  findOrCreateWallet userId
  let _ ← startTransaction
  inTransaction "Failed to execute trade" (saveRejected userId quote)
    (executeTradeTx userId quote idempotencyKey)

/-- The answer to a trade that has been booked before. -/
def tradeReplay (journal : JournalEntry) : OperationResponse :=
  { message := "Trade executed (idempotent)", status := .success, journal }

/-- `WalletService.executeTrade`. -/
def executeTrade (cfg : Config) (userId : UserId) (quoteId : QuoteId)
    (idempotencyKey : String) : Service OperationResponse := do
  let existing ← findByIdempotencyKey userId idempotencyKey
  match existing with
  | some journal =>
    match journal.status with
    | .success => pure (tradeReplay journal)
    | .pending => .throw (.badRequest "Trade is currently being processed. Please wait.")
    | .failed => .throw (.badRequest
        "Trade previously failed. Please request a new quote and use a new idempotency key.")
  | none => do
    let quote ← consumeQuote quoteId userId
    match quote with
    | none => .throw (.badRequest
        "Quote expired, already used, or does not belong to this user")
    | some quote => acquire cfg userId (executeTradeLocked userId quote idempotencyKey)

/-! ## Requests -/

/-- The calls that users make. -/
inductive Request
  | fundWallet (userId : UserId) (currency : String) (amount : JsNumber) (key : String)
  | convertFunds (userId : UserId) (from_ to_ : String) (amount : JsNumber) (key : String)
      (context : ConvertContext)
  | createQuote (userId : UserId) (from_ to_ : String) (amountInSubunits : ℤ)
  | consumeQuote (userId : UserId) (quoteId : QuoteId)
  | executeTrade (userId : UserId) (quoteId : QuoteId) (key : String)
  | getWallet (userId : UserId)
  deriving DecidableEq, Repr

namespace Request

/-- Who makes the request. -/
def userId : Request → UserId
  | fundWallet u _ _ _ => u
  | convertFunds u _ _ _ _ _ => u
  | createQuote u _ _ _ => u
  | consumeQuote u _ => u
  | executeTrade u _ _ => u
  | getWallet u => u

/-- The idempotency key, of the requests that have one. -/
def key : Request → Option String
  | fundWallet _ _ _ k => some k
  | convertFunds _ _ _ _ k _ => some k
  | executeTrade _ _ k => some k
  | _ => none

/-- The program that serves the request; `tradeFunds` is `convertFunds` in the trade
context. -/
def program (cfg : Config) : Request → Service Response
  | fundWallet u c a k => do return .operation (← FxExchange.fundWallet cfg u c a k)
  | convertFunds u f t a k ctx => do
      return .operation (← FxExchange.convertFunds cfg u f t a k ctx)
  | createQuote u f t a => do return .quote (← FxExchange.createQuote cfg u f t a)
  | consumeQuote u q => do return .consumed (← FxExchange.consumeQuote q u)
  | executeTrade u q k => do return .operation (← FxExchange.executeTrade cfg u q k)
  | getWallet u => do return .wallet (← FxExchange.getWallet u)

end Request

end FxExchange
