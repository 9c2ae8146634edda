import FxExchange.Lib.DoubleEntry
import FxExchange.Model.System

/-
# What a transaction books

The contract between the three operations and the books: a transaction that one of them
commits has one journal, whose legs carry the movement that was asked for, start from the
amounts of the rows it has locked, and end in the amounts it has written.
-/

namespace FxExchange

open DoubleEntry

/-! ## Legs -/

/-- A leg without its balances. -/
structure Side where
  walletId : WalletId
  userId : UserId
  type : TransactionType
  currency : Currency
  amount : ℤ
  deriving DecidableEq, Repr

namespace LedgerEntryInput

/-- A leg without the balances around it. -/
def side (e : LedgerEntryInput) : Side := ⟨e.walletId, e.userId, e.type, e.currency, e.amount⟩

/-- The leg as a posting. -/
def leg (e : LedgerEntryInput) : Leg Account :=
  ⟨e.account, e.delta, e.balanceBefore, e.balanceAfter⟩

/-- The leg has a positive amount, and leads from its balance before to its balance after. -/
structure Sound (e : LedgerEntryInput) : Prop where
  amount_pos : 0 < e.amount
  before_nonneg : 0 ≤ e.balanceBefore
  after_nonneg : 0 ≤ e.balanceAfter
  after_eq : e.balanceAfter = e.balanceBefore + e.delta

end LedgerEntryInput

/-- The legs of a journal, without the ids of their rows. -/
def JournalEntry.legs (j : JournalEntry) : List LedgerEntryInput :=
  j.entries.map TransactionLog.toLedgerEntryInput

/-- The sides of a funding: the house pays the user. -/
def fundSides (u : UserId) (c : Currency) (a : ℤ) : List Side :=
  [⟨.user u, u, .credit, c, a⟩, ⟨.house, houseUserId, .debit, c, a⟩]

/-- The sides of an exchange: the user pays the house in one currency, and the house the
user in another one. -/
def exchangeSides (u : UserId) (from_ to_ : Currency) (amountIn amountOut : ℤ) : List Side :=
  [⟨.user u, u, .debit, from_, amountIn⟩, ⟨.house, houseUserId, .credit, from_, amountIn⟩,
   ⟨.house, houseUserId, .debit, to_, amountOut⟩, ⟨.user u, u, .credit, to_, amountOut⟩]

/-! ## The movement that a request asks for -/

/-- The journal carries what the request asks for, a trade by the quote it has in hand. -/
def Carries (req : Request) (hand : Option Quote) (j : JournalEntry) : Prop :=
  match req with
  | .fundWallet u currency amount _ =>
    ∃ c a, supportedCurrency currency = some c ∧ amount = .integer a ∧
      j.purpose = .funding ∧ j.legs.map LedgerEntryInput.side = fundSides u c a
  | .convertFunds u from_ to_ amount _ context =>
    ∃ f t a out, supportedCurrency from_ = some f ∧ supportedCurrency to_ = some t ∧ f ≠ t ∧
      amount = .integer a ∧ j.purpose = context.purpose ∧
      j.legs.map LedgerEntryInput.side = exchangeSides u f t a out
  | .executeTrade u q _ =>
    ∃ quote, hand = some quote ∧ quote.id = q ∧ quote.userId = u ∧ j.purpose = .trade ∧
      j.legs.map LedgerEntryInput.side = exchangeSides u quote.fromCurrency quote.toCurrency
        quote.amountInSubunits quote.amountOutSubunits
  | _ => False

/-- The order of a trade that was executed at `filledAt` and booked as `journalId`. -/
def filledOrder (u : UserId) (quote : Quote) (id journalId : Uuid) (filledAt : ℕ) : Order :=
  { orderOfQuote u quote with
    id, status := .filled, journalEntryId := some journalId, filledAt := some filledAt }

/-- The rejected order of a trade. -/
def rejectedOrder (u : UserId) (quote : Quote) (reason : String) : OrderData :=
  { orderOfQuote u quote with status := .rejected, rejectionReason := some reason }

/-- The orders that a request writes together with its journal. -/
def OrdersOf (req : Request) (hand : Option Quote) (j : JournalEntry) (orders : List Order) :
    Prop :=
  match req with
  | .executeTrade u _ _ =>
    ∃ quote id filledAt, hand = some quote ∧ orders = [filledOrder u quote id j.id filledAt]
  | _ => orders = []

/-! ## The contract -/

/-- `tx` is ready to be committed by the request, and `j` is its journal. -/
structure Books (req : Request) (hand : Option Quote) (tx : Tx) (j : JournalEntry) : Prop where
  aborted : tx.aborted = false
  journals : tx.journals = [j]
  userId : j.userId = req.userId
  key : req.key = some j.idempotencyKey
  status : j.status = .success
  carries : Carries req hand j
  sound : ∀ e ∈ j.legs, e.Sound
  nodup : (j.legs.map LedgerEntryInput.account).Nodup
  balanced : ∀ c, groupNet Account.currency c (j.legs.map LedgerEntryInput.leg) = 0
  locks : (tx.locks.map fun k => (k.account, k.amount)).Perm
    (j.legs.map fun e => (e.account, e.balanceBefore))
  updates : tx.updates.Perm (j.legs.map fun e => (e.account, e.balanceAfter))
  outbox : ∃ o, tx.outbox = [o] ∧ o.eventType = "journal.created" ∧
    o.payload.journalId = j.id ∧ o.payload.entries = j.legs
  orders : OrdersOf req hand j tx.orders

/-- What `createQuote` makes sure of. -/
structure Quote.Valid (q : Quote) : Prop where
  distinct : q.fromCurrency ≠ q.toCurrency
  amountIn_pos : 0 < q.amountInSubunits
  amountOut_pos : 0 < q.amountOutSubunits
  rate : ∃ n : ℤ, q.effectiveRate = n / 10 ^ 10

/-! ## Column values -/

lemma roundHalfAway_intCast (n : ℤ) : roundHalfAway (n : ℚ) = n := by
  have hup (m : ℤ) : ⌊(m : ℚ) + 1 / 2⌋ = m := by
    rw [Int.floor_eq_iff]
    constructor <;> linarith
  unfold roundHalfAway
  split
  · exact hup n
  · have := hup (-n)
    push_cast at this
    rw [this, neg_neg]

/-- A column keeps a value that has no more decimals than it. -/
lemma numericColumn_of_decimals {precision scale : ℕ} {q : ℚ} {n : ℤ}
    (hq : q = n / 10 ^ scale) (h : (numericColumn precision scale q).isSome) :
    numericColumn precision scale q = some q := by
  have hmul : q * 10 ^ scale = n := by
    rw [hq]
    exact div_mul_cancel₀ _ (by positivity)
  unfold numericColumn at h ⊢
  simp only [hmul, roundHalfAway_intCast, ← hq] at h ⊢
  split at h
  · rename_i hlt
    rw [if_pos hlt]
  · exact absurd h (by simp)

end FxExchange
