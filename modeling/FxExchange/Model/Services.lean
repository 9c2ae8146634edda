import FxExchange.Model.Commands

/-
# The services below the wallet

`LockService`, `HouseAccountService`, the writing half of `TransactionsService`, and
`QuoteService`.
-/

namespace FxExchange

open Service
open Prog (tryCatch tryFinally throwIf)

/-! ## `common/lock/lock.service.ts` -/

/-- `LockService.acquire` of `wallet:<userId>`: a refusal becomes an HTTP exception, and a
failing release is logged and otherwise ignored. -/
def acquire {α : Type} (cfg : Config) (userId : UserId) (action : Service α) : Service α := do
  tryCatch (redlockAcquire userId cfg.lockTtl) fun _ =>
    .throw (.internalServerError "System is busy, please try again later")
  tryFinally action (tryCatch (redlockRelease userId) fun _ => pure ())

/-! ## `wallet/house-account.service.ts` -/

/-- `HouseAccountService.lockBalance`: the amount of the locked row. -/
def lockBalance (currency : Currency) : Service ℤ := do
  let balance ← selectForUpdate ⟨.house, currency⟩
  match balance with
  | some amount => pure amount
  | none => .throw (.internalServerError
      ("House balance for " ++ currency.code ++ " missing -- seed migration incomplete"))

/-! ## `transactions/transactions.service.ts` -/

/-- `RecordJournalOptions`. -/
structure RecordJournalOptions extends JournalData where
  entries : List LedgerEntryInput

/-- `TransactionsService.recordJournalEntry`. -/
def recordJournalEntry (options : RecordJournalOptions) : Service JournalEntry := do
  let savedId ← insertJournal options.toJournalData
  insertEntries savedId options.entries
  let _ ← insertOutbox "journal.created"
    { options.toJournalData with journalId := savedId, entries := options.entries }
  let saved ← findJournal savedId
  match saved with
  | some journal => pure journal
  | none => .throw (.error "Failed to retrieve saved journal entry")

/-! ## `fx/quote.service.ts` -/

/-- `parseRate(rates.rates[currency])`. -/
def rateOf (rates : VersionedRates) (currency : Currency) : Service ℚ :=
  match rates.rates with
  | none => .throw (.error "Cannot read properties of undefined")
  | some table =>
    match parseRate (table currency) with
    | .error message => .throw (.error message)
    | .ok rate => pure rate

/-- A request currency, normalised; an unsupported one is refused. -/
def requireSupported (value : String) : Service Currency :=
  match supportedCurrency value with
  | some currency => pure currency
  | none => .throw (.badRequest ("Unsupported currency: " ++ toUpperCase value))

/-- `QuoteService.createQuote`. -/
def createQuote (cfg : Config) (userId : UserId) (from_ to_ : String)
    (amountInSubunits : ℤ) : Service Quote := do
  throwIf (toUpperCase from_ = toUpperCase to_)
    (.badRequest "Cannot quote same-currency conversion")
  let fromCurrency ← requireSupported from_
  let toCurrency ← requireSupported to_
  throwIf (amountInSubunits ≤ 0) (.badRequest "amountInSubunits must be a positive integer")
  let rates ← getRates
  let fromRate ← rateOf rates fromCurrency
  let toRate ← rateOf rates toCurrency
  let midRate := crossRate fromRate toRate
  let spread := applySpread midRate cfg.spreadBps
  let amountOut := convertSubunits amountInSubunits fromCurrency.code toCurrency.code spread.bid
  throwIf (amountOut ≤ 0)
    (.badRequest "Amount too small to quote: would yield zero subunits after spread")
  let id ← uuidv4
  let time ← now
  let quote : Quote :=
    { id, userId, fromCurrency, toCurrency, amountInSubunits
      amountOutSubunits := amountOut
      midRate := toFixed 10 midRate
      bid := toFixed 10 spread.bid
      ask := toFixed 10 spread.ask
      effectiveRate := toFixed 10 spread.bid
      expiresAt := time + cfg.ttlSeconds * 1000
      rateVersion := rates.version }
  set quote.id quote cfg.ttlSeconds
  pure quote

/-- The read-and-delete of a quote: GETDEL, or GET and DEL where it is not available. -/
def takeQuote (quoteId : QuoteId) : Service (Option Quote) :=
  tryCatch (getdel quoteId) fun _ => do
    let raw ← get quoteId
    match raw with
    | none => pure none
    | some quote => do
      del quoteId
      pure (some quote)

/-- Put a quote back under its remaining time to live, if any is left. -/
def restoreQuote (quoteId : QuoteId) (parsed : Quote) : Service Unit := do
  let time ← now
  let remainingMs : ℤ := parsed.expiresAt - time
  let remainingSeconds : ℤ := ⌈(remainingMs : ℚ) / 1000⌉
  if 0 < remainingSeconds then
    tryCatch (set quoteId parsed remainingSeconds.toNat) fun _ => pure ()
  else
    pure ()

/-- `QuoteService.consumeQuote`.  What is stored under a quote's key was written by
`createQuote`, so that the parser's error path is not taken. -/
def consumeQuote (quoteId : QuoteId) (userId : UserId) : Service (Option Quote) := do
  let raw ← takeQuote quoteId
  match raw with
  | none => pure none
  | some parsed =>
    if parsed.userId ≠ userId then do
      restoreQuote quoteId parsed
      pure none
    else
      pure (some parsed)

end FxExchange
