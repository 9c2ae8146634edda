import FxExchange.Lib.Custody
import FxExchange.Lib.LockOrder
import FxExchange.Model.Wallet
import Mathlib.Algebra.BigOperators.Group.Finset.Basic

/-
# The stores

What the commands do to Postgres and to Redis.

Postgres has the committed database, a table of row locks and a table of the keys of
uncommitted unique-index entries.  A transaction keeps its own writes to itself; they reach
the database together when it commits.  A statement that meets a lock or a key of another
transaction waits: it has no effect and no answer for the time being (`none`).  An inserted
row is locked by its transaction like one that was selected `FOR UPDATE`.

Redis values have a deadline; a value is there as long as the clock is before it.
-/

namespace FxExchange

open LockOrder

/-- The id of a thread, and of its transaction. -/
abbrev Tid : Type := ℕ

/-! ## The database -/

/-- `SEED` of the house account migration: 9 · 10¹⁵ subunits of every currency. -/
def seed : ℤ := 9000000000000000

/-- The committed tables. -/
structure Database where
  /-- The users that have a wallet row. -/
  wallets : Finset UserId
  /-- The balance rows, and their amounts. -/
  rows : Finset Account
  amount : Account → ℤ
  journals : List JournalEntry
  orders : List Order
  outbox : List OutboxEntry

namespace Database

/-- The balance rows of the house. -/
def houseRows : Finset Account :=
  (supportedCurrencies.map fun c => (⟨.house, c⟩ : Account)).toFinset

/-- What an account holds before anything has happened to it. -/
def opening (a : Account) : ℤ :=
  match a.walletId with
  | .house => seed
  | .user _ => 0

/-- The database after the migrations. -/
def migrated : Database where
  wallets := ∅
  rows := houseRows
  amount := opening
  journals := []
  orders := []
  outbox := []

/-- The balance that the user has in a currency, if there is a row. -/
def balancesOf (db : Database) (u : UserId) (c : Currency) : Option ℤ :=
  if (⟨.user u, c⟩ : Account) ∈ db.rows then some (db.amount ⟨.user u, c⟩) else none

/-- The journal that the user has under a key. -/
def findByIdempotencyKey (db : Database) (u : UserId) (k : String) : Option JournalEntry :=
  db.journals.find? fun j => j.userId = u ∧ j.idempotencyKey = k

end Database

/-! ## Transactions -/

/-- The row that an inserted journal becomes, still without legs. -/
def JournalData.row (j : JournalData) (id : Uuid) (createdAt : ℕ) : JournalEntry :=
  { j with
    id, createdAt, entries := []
    exchangeRate := j.exchangeRate.bind exchangeRateColumn }

/-- The row that an inserted order becomes. -/
def OrderData.row (o : OrderData) (id : Uuid) : Order :=
  { o with id, executedRate := o.executedRate.bind (numericColumn 18 10) }

/-- A row that a transaction has locked: the place of the lock in the order in which all
locks were granted, the amount that was read, and whether the row was inserted. -/
structure RowLock where
  account : Account
  seq : ℕ
  amount : ℤ
  created : Bool
  deriving DecidableEq, Repr

/-- An open transaction: its locks and its own writes. -/
structure Tx where
  startedAt : ℕ
  locks : List RowLock := []
  updates : List (Account × ℤ) := []
  journals : List JournalEntry := []
  outbox : List OutboxEntry := []
  orders : List Order := []
  /-- A statement has failed: nothing but the end of the transaction is accepted. -/
  aborted : Bool := false
  deriving DecidableEq, Repr

/-- Write amounts, one after the other. -/
def writeAll (amount : Account → ℤ) (writes : List (Account × ℤ)) : Account → ℤ :=
  writes.foldl (fun f w => Function.update f w.1 w.2) amount

namespace Tx

/-- The rows that the transaction has inserted. -/
def created (tx : Tx) : List Account := (tx.locks.filter RowLock.created).map RowLock.account

/-- All writes to balance rows: inserted rows start at 0. -/
def writes (tx : Tx) : List (Account × ℤ) := tx.created.map (·, 0) ++ tx.updates

/-- What the transaction itself sees of the balance rows. -/
def view (tx : Tx) (db : Database) : Account → ℤ := writeAll db.amount tx.writes

/-- The transaction has this row lock, too. -/
def lockRow (tx : Tx) (lock : RowLock) : Tx :=
  if lock.account ∈ tx.locks.map RowLock.account then tx
  else { tx with locks := tx.locks ++ [lock] }

/-- The transaction after a statement has been answered; `seq` is the new identifier and the
place in the order of locks. -/
def afterOk (tx : Tx) (seq : ℕ) : (c : TxCmd) → c.Ret → Tx
  | .selectForUpdate _, none => tx
  | .selectForUpdate a, some amount => tx.lockRow ⟨a, seq, amount, false⟩
  | .insertBalance a, _ => tx.lockRow ⟨a, seq, 0, true⟩
  | .insertJournal j, id =>
    { tx with journals := tx.journals ++ [j.row id tx.startedAt] }
  | .insertEntries id entries, _ =>
    { tx with journals := tx.journals.map fun j =>
        if j.id = id then
          { j with entries := j.entries ++
              entries.map fun e => { e with createdAt := tx.startedAt } }
        else j }
  | .insertOutbox eventType payload, id =>
    { tx with outbox := tx.outbox ++
        [{ id, eventType, payload, status := .pending, retryCount := 0
           createdAt := tx.startedAt }] }
  | .findJournal _, _ => tx
  | .insertOrder o, id =>
    { tx with orders := tx.orders ++ [o.row id] }
  | .updateBalance a amount, _ => { tx with updates := tx.updates ++ [(a, amount)] }
  | .updateOrder id journalEntryId filledAt, _ =>
    { tx with orders := tx.orders.map fun o =>
        if o.id = id then
          { o with
            status := .filled, journalEntryId := some journalEntryId, filledAt := some filledAt }
        else o }

/-- After a statement that failed nothing but the end of the transaction is accepted. -/
def after (tx : Tx) (seq : ℕ) (c : TxCmd) : Except Exn c.Ret → Tx
  | .ok a => tx.afterOk seq c a
  | .error _ => { tx with aborted := true }

end Tx

/-- The database with the writes of a transaction. -/
def Database.apply (db : Database) (tx : Tx) : Database :=
  { db with
    rows := db.rows ∪ tx.created.toFinset
    amount := writeAll db.amount tx.writes
    journals := db.journals ++ tx.journals
    orders := db.orders ++ tx.orders
    outbox := db.outbox ++ tx.outbox }

/-- The locks of the database: rows, and `UQ_journal_entries_userId_idempotencyKey` entries
of uncommitted journals. -/
structure Locks where
  rows : Table Account Tid
  keys : Table (UserId × String) Tid

namespace Locks

/-- Nothing is locked. -/
def empty : Locks := ⟨fun _ => none, fun _ => none⟩

/-- The transaction of `t` has ended. -/
def releaseAll (locks : Locks) (t : Tid) : Locks :=
  ⟨locks.rows.releaseAll t, locks.keys.releaseAll t⟩

/-- `t` has been granted the lock of a row. -/
def lockRow (locks : Locks) (t : Tid) (a : Account) : Locks :=
  { locks with rows := locks.rows.grant t a }

/-- `t` has the entry of a key in the unique index, not committed yet. -/
def lockKey (locks : Locks) (t : Tid) (key : UserId × String) : Locks :=
  { locks with keys := locks.keys.grant t key }

end Locks

/-- A statement of the transaction `tx` of `t`; `seq` is the next new identifier. -/
def execTx (db : Database) (locks : Locks) (t : Tid) (seq : ℕ) (tx : Tx) :
    (c : TxCmd) → Option (Locks × Except Exn c.Ret)
  | .selectForUpdate a =>
    -- a row that no transaction has committed is not seen, and nothing is locked
    if a ∈ db.rows then
      if locks.rows.heldByOther t a then none
      else some (locks.lockRow t a, .ok (some (tx.view db a)))
    else if a ∈ tx.created then some (locks, .ok (some (tx.view db a)))
    else some (locks, .ok none)
  | .insertBalance a =>
    if a ∈ db.rows ∨ a ∈ tx.created then some (locks, .error .uniqueViolation)
    else if locks.rows.heldByOther t a then none
    else some (locks.lockRow t a, .ok ())
  | .insertJournal j =>
    if ¬ j.checks then some (locks, .error .checkViolation)
    else if (db.findByIdempotencyKey j.userId j.idempotencyKey).isSome ∨
        locks.keys (j.userId, j.idempotencyKey) = some t then
      some (locks, .error .uniqueViolation)
    else if locks.keys.heldByOther t (j.userId, j.idempotencyKey) then none
    else some (locks.lockKey t (j.userId, j.idempotencyKey), .ok seq)
  | .insertEntries _ entries =>
    some (locks, if entries.all LedgerEntryInput.checks then .ok () else .error .checkViolation)
  | .insertOutbox _ _ => some (locks, .ok seq)
  | .findJournal id => some (locks, .ok ((tx.journals ++ db.journals).find? fun j => j.id = id))
  | .insertOrder o => some (locks, if o.checks then .ok seq else .error .checkViolation)
  | .updateBalance a amount =>
    if locks.rows.heldByOther t a then none
    else some (locks, if 0 ≤ amount ∧ fitsBigint amount then .ok () else .error .checkViolation)
  | .updateOrder _ _ _ => some (locks, .ok ())

/-- A statement on a pooled connection. -/
def execPool (db : Database) (seq : ℕ) : (c : PoolCmd) → Database × Except Exn c.Ret
  | .findByIdempotencyKey u k => (db, .ok (db.findByIdempotencyKey u k))
  | .findWallet u => (db, .ok (u ∈ db.wallets))
  | .saveWallet u =>
    if u ∈ db.wallets then (db, .error .uniqueViolation)
    else ({ db with wallets := insert u db.wallets }, .ok ())
  | .findWalletBalances u =>
    (db, .ok (if u ∈ db.wallets then
        some { walletId := .user u, userId := u, balances := db.balancesOf u }
      else none))
  | .saveOrder o =>
    if o.checks then
      ({ db with orders := db.orders ++ [o.row seq] }, .ok seq)
    else (db, .error .checkViolation)

/-! ## Redis -/

/-- The keys of Redis that the operations use. -/
structure Redis where
  /-- `fx:quote:<id>`. -/
  quotes : QuoteId → Option (Quote × ℕ)
  /-- `wallet:<userId>`: the holder of the Redlock. -/
  locks : UserId → Option (Tid × ℕ)
  /-- `wallet:balances:<userId>`. -/
  wallets : UserId → Option (WalletResponse × ℕ)

namespace Redis

/-- No key is set. -/
def empty : Redis := ⟨fun _ => none, fun _ => none, fun _ => none⟩

end Redis

/-- A Redis command of `t`.  Redlock grants a resource that is free, and waits for one that
is not; it releases only a lock that is still the caller's own. -/
def execRedis (redis : Redis) (time : ℕ) (t : Tid) :
    (c : RedisCmd) → Option (Redis × Except Exn c.Ret)
  | .getdel q =>
    some ({ redis with quotes := Function.update redis.quotes q none },
      .ok (Custody.live (redis.quotes q) time))
  | .get q => some (redis, .ok (Custody.live (redis.quotes q) time))
  | .del q => some ({ redis with quotes := Function.update redis.quotes q none }, .ok ())
  | .set q quote ex =>
    some ({ redis with
        quotes := Function.update redis.quotes q (some (quote, time + 1000 * ex)) }, .ok ())
  | .acquire u ttl =>
    match Custody.live (redis.locks u) time with
    | some _ => none
    | none => some ({ redis with locks := Function.update redis.locks u (some (t, time + ttl)) },
        .ok ())
  | .release u =>
    if Custody.live (redis.locks u) time = some t then
      some ({ redis with locks := Function.update redis.locks u none }, .ok ())
    else some (redis, .error .unavailable)
  | .getWallet u => some (redis, .ok (Custody.live (redis.wallets u) time))
  | .setWallet u wallet ex =>
    some ({ redis with
        wallets := Function.update redis.wallets u (some (wallet, time + 1000 * ex)) }, .ok ())
  | .delWallet u =>
    some ({ redis with wallets := Function.update redis.wallets u none }, .ok ())

end FxExchange
