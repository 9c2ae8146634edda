import FxExchange.Lib.Program
import FxExchange.Model.Entities

/-
# The commands of the services

Everything that a service asks of Postgres, of Redis, of the FX provider and of its own
process, as one type of commands: each is one round trip, and between two of them any other
request may run.  A service function is a program over these commands.
-/

namespace FxExchange

/-- Statements of the repositories, each on a pooled connection and in its own
transaction. -/
inductive PoolCmd
  /-- `TransactionsService.findByIdempotencyKey`. -/
  | findByIdempotencyKey (userId : UserId) (key : String)
  /-- `walletRepository.findOne({ where: { userId } })`. -/
  | findWallet (userId : UserId)
  /-- `walletRepository.save(walletRepository.create({ userId }))`. -/
  | saveWallet (userId : UserId)
  /-- `walletRepository.findOne` with `relations: ['balances']`. -/
  | findWalletBalances (userId : UserId)
  /-- `orderRepository.save`. -/
  | saveOrder (o : OrderData)

/-- The answer to a command on the pool. -/
@[simp] abbrev PoolCmd.Ret : PoolCmd → Type
  | findByIdempotencyKey _ _ => Option JournalEntry
  | findWallet _ => Bool
  | saveWallet _ => Unit
  | findWalletBalances _ => Option WalletResponse
  | saveOrder _ => Uuid

/-- Statements of the query runner inside its transaction. -/
inductive TxCmd
  /-- `SELECT … FOR UPDATE` of a balance row; answers its amount. -/
  | selectForUpdate (a : Account)
  /-- Insert a balance row with amount 0. -/
  | insertBalance (a : Account)
  | insertJournal (j : JournalData)
  | insertEntries (journalId : Uuid) (entries : List LedgerEntryInput)
  | insertOutbox (eventType : String) (payload : JournalCreated)
  | findJournal (journalId : Uuid)
  | insertOrder (o : OrderData)
  | updateBalance (a : Account) (amount : ℤ)
  /-- Set an order to FILLED with its journal and the time. -/
  | updateOrder (orderId journalEntryId : Uuid) (filledAt : ℕ)

/-- The answer to a statement of a transaction. -/
@[simp] abbrev TxCmd.Ret : TxCmd → Type
  | selectForUpdate _ => Option ℤ
  | insertBalance _ => Unit
  | insertJournal _ => Uuid
  | insertEntries _ _ => Unit
  | insertOutbox _ _ => Uuid
  | findJournal _ => Option JournalEntry
  | insertOrder _ => Uuid
  | updateBalance _ _ => Unit
  | updateOrder _ _ _ => Unit

/-- Redis commands; `acquire` and `release` are those of Redlock. -/
inductive RedisCmd
  | getdel (quoteId : QuoteId)
  | get (quoteId : QuoteId)
  | del (quoteId : QuoteId)
  | set (quoteId : QuoteId) (quote : Quote) (exSeconds : ℕ)
  | acquire (userId : UserId) (ttlMs : ℕ)
  | release (userId : UserId)
  | getWallet (userId : UserId)
  | setWallet (userId : UserId) (wallet : WalletResponse) (exSeconds : ℕ)
  | delWallet (userId : UserId)

/-- The answer to a command for Redis. -/
@[simp] abbrev RedisCmd.Ret : RedisCmd → Type
  | getdel _ => Option Quote
  | get _ => Option Quote
  | del _ => Unit
  | set _ _ _ => Unit
  | acquire _ _ => Unit
  | release _ => Unit
  | getWallet _ => Option WalletResponse
  | setWallet _ _ _ => Unit
  | delWallet _ => Unit

/-- What the operations call. -/
inductive Cmd
  | pool (c : PoolCmd)
  /-- Connect a query runner and start its transaction; answers the time of the start. -/
  | startTransaction
  | tx (c : TxCmd)
  | commit
  | rollback
  | redis (c : RedisCmd)
  /-- `FxService.getRates`. -/
  | getRates
  /-- `Date.now()`. -/
  | now
  /-- `uuidv4()`. -/
  | uuid

/-- The answer to a command. -/
@[simp] abbrev Cmd.Ret : Cmd → Type
  | pool c => c.Ret
  | startTransaction => ℕ
  | tx c => c.Ret
  | commit => Unit
  | rollback => Unit
  | redis c => c.Ret
  | getRates => VersionedRates
  | now => ℕ
  | uuid => Uuid

/-- The service functions. -/
abbrev Service (α : Type) : Type := Prog Cmd.Ret Exn α

/-- What the services are configured with: `FX_SPREAD_BPS`, `FX_QUOTE_TTL_SECONDS` and
`LOCK_TTL_MS`. -/
structure Config where
  spreadBps : ℚ := 50
  ttlSeconds : ℕ := 10
  lockTtl : ℕ := 10000

namespace Service

/-- Issue one command; its failure is thrown. -/
def issue (c : Cmd) : Service c.Ret := Prog.command c

/-- The journal that the user has under this key. -/
def findByIdempotencyKey (userId : UserId) (key : String) : Service (Option JournalEntry) :=
  issue (.pool (.findByIdempotencyKey userId key))

/-- Whether the user has a wallet. -/
def findWallet (userId : UserId) : Service Bool := issue (.pool (.findWallet userId))

/-- Inserts a wallet without balances. -/
def saveWallet (userId : UserId) : Service Unit := issue (.pool (.saveWallet userId))

/-- The wallet of the user with its balances. -/
def findWalletBalances (userId : UserId) : Service (Option WalletResponse) :=
  issue (.pool (.findWalletBalances userId))

/-- Saves an order outside of any transaction. -/
def saveOrder (o : OrderData) : Service Uuid := issue (.pool (.saveOrder o))

/-- Starts a transaction. -/
def startTransaction : Service ℕ := issue .startTransaction

/-- Reads a balance under its row lock. -/
def selectForUpdate (a : Account) : Service (Option ℤ) := issue (.tx (.selectForUpdate a))

/-- Inserts a balance of zero. -/
def insertBalance (a : Account) : Service Unit := issue (.tx (.insertBalance a))

/-- Inserts a journal; answers its id. -/
def insertJournal (j : JournalData) : Service Uuid := issue (.tx (.insertJournal j))

/-- Inserts the legs of a journal. -/
def insertEntries (journalId : Uuid) (entries : List LedgerEntryInput) : Service Unit :=
  issue (.tx (.insertEntries journalId entries))

/-- Inserts an outbox entry; answers its id. -/
def insertOutbox (eventType : String) (payload : JournalCreated) : Service Uuid :=
  issue (.tx (.insertOutbox eventType payload))

/-- Reads a journal with its legs in its own transaction. -/
def findJournal (journalId : Uuid) : Service (Option JournalEntry) :=
  issue (.tx (.findJournal journalId))

/-- Inserts an order; answers its id. -/
def insertOrder (o : OrderData) : Service Uuid := issue (.tx (.insertOrder o))

/-- Sets a balance. -/
def updateBalance (a : Account) (amount : ℤ) : Service Unit :=
  issue (.tx (.updateBalance a amount))

/-- Marks an order as filled. -/
def updateOrder (orderId journalEntryId : Uuid) (filledAt : ℕ) : Service Unit :=
  issue (.tx (.updateOrder orderId journalEntryId filledAt))

/-- Commits. -/
def commitTransaction : Service Unit := issue .commit

/-- Rolls back. -/
def rollbackTransaction : Service Unit := issue .rollback

/-- `GETDEL` of a quote. -/
def getdel (quoteId : QuoteId) : Service (Option Quote) := issue (.redis (.getdel quoteId))

/-- `GET` of a quote. -/
def get (quoteId : QuoteId) : Service (Option Quote) := issue (.redis (.get quoteId))

/-- `DEL` of a quote. -/
def del (quoteId : QuoteId) : Service Unit := issue (.redis (.del quoteId))

/-- `SET … EX` of a quote. -/
def set (quoteId : QuoteId) (quote : Quote) (exSeconds : ℕ) : Service Unit :=
  issue (.redis (.set quoteId quote exSeconds))

/-- Acquires the lock of a wallet for some milliseconds. -/
def redlockAcquire (userId : UserId) (ttlMs : ℕ) : Service Unit :=
  issue (.redis (.acquire userId ttlMs))

/-- Releases the lock of a wallet. -/
def redlockRelease (userId : UserId) : Service Unit := issue (.redis (.release userId))

/-- The current rates. -/
def getRates : Service VersionedRates := issue .getRates

/-- The current time. -/
def now : Service ℕ := issue .now

/-- A new id. -/
def uuidv4 : Service Uuid := issue .uuid

end Service

end FxExchange
