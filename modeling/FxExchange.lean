import FxExchange.Lib.Transition
import FxExchange.Lib.Program
import FxExchange.Lib.DoubleEntry
import FxExchange.Lib.LockOrder
import FxExchange.Lib.Custody
import FxExchange.Lib.TimedLock
import FxExchange.Lib.Keyset
import FxExchange.Lib.Base64
import FxExchange.Lib.Utf8
import FxExchange.Lib.Rounding
import FxExchange.Lib.Clearing
import FxExchange.Lib.Interleaving
import FxExchange.Proofs.Deadlock
import FxExchange.Proofs.Idempotency
import FxExchange.Proofs.Duplicates
import FxExchange.Proofs.Orders
import FxExchange.Proofs.Audit
import FxExchange.Proofs.Retries
import FxExchange.Proofs.Atomicity
import FxExchange.Proofs.Exactness
import FxExchange.Proofs.Conversion
import FxExchange.Proofs.Payouts
import FxExchange.Proofs.QuotedRates
import FxExchange.Proofs.Pages
import FxExchange.Proofs.Filters
import FxExchange.Proofs.Timeline
import FxExchange.Proofs.Rates
import FxExchange.Proofs.Columns
import FxExchange.Proofs.Fallback
import FxExchange.Proofs.Subunits
import FxExchange.Proofs.WalletCache
import FxExchange.Proofs.Isolation
import FxExchange.Proofs.Locking
import FxExchange.Proofs.Verification
import FxExchange.Proofs.Registration
import FxExchange.Proofs.Solo
import FxExchange.Proofs.Draining
import FxExchange.Proofs.Shown
import FxExchange.Proofs.Prices
