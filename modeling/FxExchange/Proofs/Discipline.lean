import FxExchange.Proofs.Booking

/-
# The discipline of a request

What every program keeps to when it issues a command (`guard`), and what it may assume of
the answers (`Reply`).  The assumptions are discharged where the system as a whole is
looked at; the guards are what is known there of the commands of the other threads.

`nice` is a switch: when it is on, the answers also meet `Admits`, which says that nothing
stands in the way of the request.  So one verification of a program tells what it does in
general, and what it does when it is not disturbed.
-/

namespace FxExchange

/-! ## What a request is about -/

/-- The request passes the validation of its own arguments. -/
def Request.Valid : Request → Prop
  | .fundWallet _ currency amount _ =>
    (supportedCurrency currency).isSome ∧ ∃ a, amount = .integer a ∧ 0 < a
  | .convertFunds _ from_ to_ amount _ _ =>
    toUpperCase from_ ≠ toUpperCase to_ ∧ (supportedCurrency from_).isSome ∧
      (supportedCurrency to_).isSome ∧ ∃ a, amount = .integer a ∧ 0 < a
  | _ => True

/-- The call redeems the quote `q`. -/
def Request.Redeems (q : QuoteId) : Request → Prop
  | .consumeQuote _ q' => q' = q
  | .executeTrade _ q' _ => q' = q
  | _ => False

/-- What a conversion comes to at some rates, and its exchange rate. -/
def VersionedRates.conversion (rates : VersionedRates) (f t : Currency) (a : ℤ) :
    Option (ℤ × ℚ) :=
  match rates.rates with
  | none => none
  | some table =>
    match parseRate (table f), parseRate (table t) with
    | .ok x, .ok y =>
      some (number (convertSubunits a f.code t.code (crossRate x y)),
        numberOfDecimal (toFixed 8 (crossRate x y)))
    | _, _ => none

namespace Local

/-- The currencies that the request moves money between: from the first into the second. -/
def pair (l : Local) : Option (Currency × Currency) :=
  match l.req with
  | .convertFunds _ from_ to_ _ _ _ =>
    match supportedCurrency from_, supportedCurrency to_ with
    | some f, some t => some (f, t)
    | _, _ => none
  | .executeTrade _ _ _ => l.trail.hand.map fun quote => (quote.fromCurrency, quote.toCurrency)
  | _ => none

/-- What the request takes from an account. -/
def takes (l : Local) (a : Account) : Option ℤ :=
  match l.req with
  | .fundWallet _ currency (.integer n) _ =>
    if a.walletId = .house ∧ supportedCurrency currency = some a.currency then some n else none
  | .convertFunds u from_ to_ (.integer n) _ _ =>
    if a.walletId = .user u ∧ supportedCurrency from_ = some a.currency then some n
    else if a.walletId = .house ∧ supportedCurrency to_ = some a.currency then
      (l.trail.rates.bind fun rates => (supportedCurrency from_).bind fun f =>
        rates.conversion f a.currency n).map Prod.fst
    else none
  | .executeTrade u _ _ =>
    l.trail.hand.bind fun quote =>
      if a = ⟨.user u, quote.fromCurrency⟩ then some quote.amountInSubunits
      else if a = ⟨.house, quote.toCurrency⟩ then some quote.amountOutSubunits
      else none
  | _ => none

/-- `b` comes after `a` in the order in which the request locks rows: its own rows before
those of the house, and in one wallet the currency that it pays before the one it gets. -/
def Before (l : Local) (a b : Account) : Prop :=
  (a.walletId ≠ .house ∧ b.walletId = .house) ∨
    (a.walletId = b.walletId ∧ l.pair = some (a.currency, b.currency))

/-- The request has looked up its key without success where this settles what it does. -/
def Committed (l : Local) : Prop :=
  l.trail.missed ∧ match l.req with
    | .fundWallet _ _ _ _ => l.trail.missedInLock ∧ l.trail.inLock
    | _ => True

end Local

/-! ## Guards -/

/-- A row may be locked: the transaction has written no balance and no journal yet, does not
hold the row, and holds only rows that come before it. -/
structure MayLock (l : Local) (tx : Tx) (a : Account) : Prop where
  updates : tx.updates = []
  journals : tx.journals = []
  own : a.walletId = .house ∨ a.walletId = .user l.req.userId
  notMem : ∀ k ∈ tx.locks, k.account ≠ a
  before : ∀ k ∈ tx.locks, l.Before k.account a

/-- What a thread has to have when it issues a statement of its transaction. -/
def txGuard (l : Local) (tx : Tx) : TxCmd → Prop
  | .selectForUpdate a => MayLock l tx a
  | .insertBalance a => MayLock l tx a ∧ a.walletId = .user l.req.userId
  | .insertJournal j =>
    j.userId = l.req.userId ∧ l.req.key = some j.idempotencyKey ∧ tx.journals = [] ∧
      l.Committed
  | .updateBalance a _ => ∃ k ∈ tx.locks, k.account = a
  | _ => True

/-- A time to live that reaches to the quote's expiry, rounded up to whole seconds. -/
structure Reaches (l : Local) (quote : Quote) (exSeconds : ℕ) : Prop where
  le : quote.expiresAt ≤ l.trail.clock + 1000 * exSeconds
  lt : l.trail.clock + 1000 * exSeconds < quote.expiresAt + 1000

/-- A quote is put back by a caller that is not its owner. -/
structure MayRestore (l : Local) (quote : Quote) : Prop where
  hand : l.trail.hand = some quote
  owner : quote.userId ≠ l.req.userId

/-- A new quote is stored under a fresh id. -/
structure MayIssue (cfg : Config) (l : Local) (quote : Quote) (exSeconds : ℕ) : Prop where
  hand : l.trail.hand = none
  uuid : l.trail.uuid = some quote.id
  issued : l.trail.issued = none
  owner : quote.userId = l.req.userId
  valid : quote.Valid
  expiresAt : quote.expiresAt = l.trail.clock + 1000 * exSeconds
  ttl : exSeconds = cfg.ttlSeconds

/-- What a thread has to have when it calls Redis. -/
def redisGuard (cfg : Config) (l : Local) : RedisCmd → Prop
  | .getdel q => l.req.Redeems q ∧ l.trail.hand = none ∧ l.trail.uuid = none ∧
      l.trail.fellBack = false ∧ l.trail.booked = none ∧ l.trail.rejected = none
  | .get q => l.req.Redeems q ∧ l.trail.hand = none ∧ l.trail.uuid = none ∧
      l.trail.fellBack = true ∧ l.trail.booked = none ∧ l.trail.rejected = none
  | .del q => l.req.Redeems q ∧ l.trail.fellBack = true
  | .set q quote exSeconds => quote.id = q ∧ Reaches l quote exSeconds ∧
      l.trail.booked = none ∧ l.trail.rejected = none ∧ l.tx = none ∧
      (MayRestore l quote ∨ MayIssue cfg l quote exSeconds)
  | .acquire u _ => u = l.req.userId ∧ l.tx = none ∧ l.trail.inLock = false ∧
      l.trail.missedInLock = false
  | .release u => u = l.req.userId ∧ l.tx = none ∧ l.trail.inLock = true
  | _ => True

/-- A rejected order is saved by a trade that has booked nothing. -/
structure MayReject (l : Local) (o : OrderData) : Prop where
  tx : l.tx = none
  booked : l.trail.booked = none
  rejected : l.trail.rejected = none
  order : ∃ q k quote reason, l.req = .executeTrade quote.userId q k ∧
    l.trail.hand = some quote ∧ o = rejectedOrder quote.userId quote reason

/-- What a thread has to have when it issues a command. -/
def guard (cfg : Config) (l : Local) : Cmd → Prop
  | .pool (.findByIdempotencyKey u k) => u = l.req.userId ∧ l.req.key = some k ∧ l.req.Valid ∧
      l.tx = none ∧ l.trail.booked = none
  | .pool (.saveOrder o) => MayReject l o
  | .startTransaction => l.tx = none ∧ l.trail.booked = none ∧ l.trail.rejected = none ∧
      l.trail.inLock = true
  | .tx c => ∃ tx, l.tx = some tx ∧ tx.aborted = false ∧ txGuard l tx c
  | .commit => ∃ tx j, l.tx = some tx ∧ Books l.req l.trail.hand tx j
  | .redis c => redisGuard cfg l c
  | .uuid => l.trail.hand = none ∧ l.trail.uuid = none ∧ l.trail.issued = none
  | _ => True

/-! ## Answers -/

/-- What the answer to a statement says about the transaction. -/
def TxReply (tx : Tx) : (c : TxCmd) → c.Ret → Prop
  | .selectForUpdate a, some v => 0 ≤ v ∧
      (∀ k ∈ tx.locks, k.account.currency = a.currency → k.amount + v ≤ seed) ∧ v ≤ seed
  | .insertJournal j, _ => j.checks
  | .insertEntries _ entries, _ => entries.all LedgerEntryInput.checks
  | .insertOrder o, _ => o.checks
  | .findJournal id, found =>
    ∀ j, tx.journals.find? (fun j => j.id = id) = some j → found = some j
  | _, _ => True

/-- What is known of the answer to a command that has succeeded. -/
def Reply (l : Local) : (c : Cmd) → c.Ret → Prop
  | .pool (.findByIdempotencyKey u k), some j =>
    j.userId = u ∧ j.idempotencyKey = k ∧ j.status = .success
  | .tx c, a => ∃ tx, l.tx = some tx ∧ TxReply tx c a
  | .redis (.getdel q), some quote => quote.id = q ∧ quote.Valid
  | .redis (.get q), some quote => quote.id = q ∧ quote.Valid
  | _, _ => True

/-- The statement is carried out whenever the rows that it writes pass their constraints. -/
def txAdmits (l : Local) : (c : TxCmd) → Except Exn c.Ret → Prop
  | .selectForUpdate a, .ok none => l.takes a = none ∧ a.walletId ≠ .house
  | .selectForUpdate a, .ok (some v) => ∀ x, l.takes a = some x → x ≤ v
  | .insertJournal j, .error _ => j.checks = false
  | .insertEntries _ entries, .error _ => entries.all LedgerEntryInput.checks = false
  | .insertOrder o, .error _ => o.checks = false
  | .updateBalance _ v, .error _ => ¬ (0 ≤ v ∧ fitsBigint v)
  | _, .error _ => False
  | _, .ok _ => True

/-- The answer does not stand in the way of the request: nothing fails, the rates and the
quote can be booked, and the rows cover what is taken from them. -/
def Admits (l : Local) : (c : Cmd) → Except Exn c.Ret → Prop
  | .tx c, r => txAdmits l c r
  | .getRates, .ok rates =>
    ∀ u from_ to_ a k context f t, l.req = .convertFunds u from_ to_ (.integer a) k context →
      supportedCurrency from_ = some f → supportedCurrency to_ = some t →
      ∃ out rate, rates.conversion f t a = some (out, rate) ∧ 0 < out ∧
        checksExchangeRate (some rate)
  | .redis (.getdel _), .ok found =>
    ∃ quote, found = some quote ∧ quote.userId = l.req.userId ∧
      checksExchangeRate (some (numberOfDecimal quote.effectiveRate)) ∧
      (numericColumn 18 10 quote.effectiveRate).isSome
  | .pool (.saveOrder _), _ => True
  | _, .error _ => False
  | _, .ok _ => True

/-- The discipline of the requests. -/
def discipline (cfg : Config) (nice : Prop) : Discipline Cmd.Ret Exn Local where
  guard := guard cfg
  outcome l c r l' := (∃ seq, l' = l.after seq c r) ∧ (∀ a, r = .ok a → Reply l c a) ∧
    (nice → Admits l c r)

/-! ## Rows -/

/-- The cross rate of two currencies, if the provider's answer has a rate for both. -/
def VersionedRates.midRate (rates : VersionedRates) (f t : Currency) : Option ℚ :=
  match rates.rates with
  | none => none
  | some table =>
    match parseRate (table f), parseRate (table t) with
    | .ok x, .ok y => some (crossRate x y)
    | _, _ => none

/-- The rate at which the request exchanges money. -/
def Local.rate (l : Local) : Option ℚ :=
  match l.req with
  | .convertFunds _ from_ to_ _ _ _ =>
    match supportedCurrency from_, supportedCurrency to_ with
    | some f, some t => l.trail.rates.bind fun rates => rates.midRate f t
    | _, _ => none
  | .executeTrade _ _ _ => l.trail.hand.map Quote.effectiveRate
  | _ => none

/-- The rate as it is sent to the journal. -/
def Local.exchangeRate (l : Local) : Option ℚ :=
  match l.req with
  | .convertFunds _ _ _ _ _ _ => l.rate.map fun q => numberOfDecimal (toFixed 8 q)
  | _ => l.rate.map numberOfDecimal

/-- The order is for the quote in hand, whose amounts have been paid for. -/
structure OrdersInRange (l : Local) (o : OrderData) : Prop where
  order : ∃ q k quote, l.req = .executeTrade quote.userId q k ∧ l.trail.hand = some quote ∧
    o = orderOfQuote quote.userId quote
  amountIn_le : o.amountInSubunits ≤ seed
  amountOut_le : o.amountOutSubunits ≤ seed

/-- What is known of the rows that a request writes: they can be stored, as far as this does
not depend on the rate. -/
def rowGuard (l : Local) : Cmd → Prop
  | .tx (.insertJournal j) => j.exchangeRate = l.exchangeRate ∧
      ∀ u q k, l.req = .executeTrade u q k → ∀ rate ∈ l.rate, (numericColumn 18 10 rate).isSome
  | .tx (.insertEntries _ entries) => entries.all LedgerEntryInput.checks
  | .tx (.insertOrder o) => OrdersInRange l o
  | .tx (.updateBalance _ amount) => 0 ≤ amount ∧ fitsBigint amount
  | _ => True

/-- The discipline of the requests, with what is known of their rows. -/
def recording (cfg : Config) (nice : Prop) : Discipline Cmd.Ret Exn Local :=
  (discipline cfg nice).restrict rowGuard

/-! ## What a request ends with -/

/-- The answer of a request, in its last state. -/
def Answer (nice : Prop) (l : Local) : Except Exn Response → Prop
  | .ok (.operation r) => l.tx = none ∧ r.status = .success ∧ l.req.Valid ∧
      ((∃ tx, l.trail.booked = some tx ∧ tx.journals = [r.journal]) ∨
        (l.trail.booked = none ∧ l.trail.found = some r.journal))
  | .ok (.consumed found) => l.tx = none ∧ l.trail.booked = none ∧ l.req.key = none ∧
      ∀ quote, found = some quote → l.trail.hand = some quote ∧ quote.userId = l.req.userId
  | .ok _ => l.tx = none ∧ l.trail.booked = none ∧ l.req.key = none
  | .error _ => l.tx = none ∧ l.trail.booked = none ∧
      (nice → l.req.key.isSome → ¬ l.req.Valid)

end FxExchange
