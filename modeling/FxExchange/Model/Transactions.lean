import FxExchange.Lib.Base64
import FxExchange.Lib.Program
import FxExchange.Lib.Utf8
import FxExchange.Model.Entities
import Mathlib.Data.List.Sort

/-
# The transaction history

The reading half of `transactions/transactions.service.ts`: pages of a user's journals and the
cursors between them.  `createdAt` is a number of microseconds here; nothing depends on the
unit.
-/

namespace FxExchange

/-! ## Texts of other systems -/

/-- How Postgres and the JavaScript engine write and read timestamps and uuids. -/
structure Formats where
  /-- `to_char(…, 'YYYY-MM-DD"T"HH24:MI:SS.US')`. -/
  toChar : ℕ → String
  /-- `…::timestamp`, where the text can be cast. -/
  timestamp : String → Option ℕ
  uuidText : Uuid → String
  /-- A parameter that is compared with a uuid column, where the text can be cast. -/
  uuid : String → Option Uuid
  /-- `Date.parse`; `none` is `NaN`. -/
  dateParse : String → Option ℤ

/-- What a hexadecimal digit stands for. -/
def hexDigit (c : Char) : Option ℕ :=
  if '0' ≤ c ∧ c ≤ '9' then some (c.toNat - 48)
  else if 'a' ≤ c ∧ c ≤ 'f' then some (c.toNat - 87)
  else if 'A' ≤ c ∧ c ≤ 'F' then some (c.toNat - 55)
  else none

/-- The next `n` bytes of a uuid, of two digits each; a hyphen may stand after every second
byte but the last.  What is left of the text comes with the number read. -/
def uuidBytes : ℕ → ℕ → List Char → Option (ℕ × List Char)
  | 0, acc, src => some (acc, src)
  | n + 1, acc, a :: b :: src => do
    let high ← hexDigit a
    let low ← hexDigit b
    let src := if n ≠ 0 ∧ n % 2 = 0 ∧ src.head? = some '-' then src.drop 1 else src
    uuidBytes n (acc * 256 + high * 16 + low) src
  | _, _, _ => none

/-- `uuid_in` of Postgres: sixteen bytes, in braces or not. -/
def uuidIn : List Char → Option Uuid
  | '{' :: src => (uuidBytes 16 0 src).bind fun read =>
    if read.2 = ['}'] then some read.1 else none
  | src => (uuidBytes 16 0 src).bind fun read => if read.2 = [] then some read.1 else none

/-! ## Cursors -/

/-- `encodeCursor`: base64url of `<createdAt>|<id>`. -/
def encodeCursor (createdAt id : String) : String :=
  Base64.encode (Utf8.encode (createdAt ++ "|" ++ id))

/-- What a cursor is refused with. -/
def invalidCursor : Exn := .badRequest "Invalid cursor"

/-- `decodeCursor`.  Neither decoder ever throws. -/
def decodeCursor (F : Formats) (cursor : String) : Except Exn (String × String) :=
  let decoded := (Utf8.decode (Base64.decode cursor)).toList
  if '|' ∉ decoded then .error invalidCursor
  else
    let createdAt := String.ofList (decoded.takeWhile (· ≠ '|'))
    let id := String.ofList ((decoded.dropWhile (· ≠ '|')).drop 1)
    if createdAt = "" ∨ id = "" ∨ F.dateParse createdAt = none then .error invalidCursor
    else .ok (createdAt, id)

/-! ## Pages -/

/-- `GetTransactionsDto`, after its defaults. -/
structure TransactionsQuery where
  cursor : Option String := none
  limit : ℕ := 20
  currency : Option String := none
  type : Option TransactionType := none
  purpose : Option TransactionPurpose := none
  deriving DecidableEq, Repr

/-- A string counts as given when it is not empty. -/
def given (value : Option String) : Option String := value.filter fun v => v ≠ ""

/-- The conditions on a journal other than those on its owner and its position. -/
def TransactionsQuery.selects (q : TransactionsQuery) (j : JournalEntry) : Bool :=
  ((given q.currency = none ∧ q.type = none) ∨ ∃ e ∈ j.entries,
    (∀ c ∈ given q.currency, e.currency.code = toUpperCase c) ∧ ∀ t ∈ q.type, e.type = t) ∧
  ∀ p ∈ q.purpose, j.purpose = p

/-- `createdAt DESC, id DESC`. -/
def JournalEntry.Newer (a b : JournalEntry) : Prop :=
  b.createdAt < a.createdAt ∨ b.createdAt = a.createdAt ∧ b.id ≤ a.id

instance : DecidableRel JournalEntry.Newer := fun _ _ =>
  inferInstanceAs (Decidable (_ ∨ _ ∧ _))

/-- A row of the query for the page: `id` and `cat`. -/
structure PageRow where
  id : String
  cat : String
  deriving DecidableEq, Repr

/-- A row of the page query. -/
def JournalEntry.pageRow (F : Formats) (j : JournalEntry) : PageRow :=
  { id := F.uuidText j.id, cat := F.toChar j.createdAt }

/-- The journals that the query for the page finds, `limit + 1` of them at most. -/
def pageRows (F : Formats) (journals : List JournalEntry) (userId : UserId)
    (q : TransactionsQuery) (position : Option (ℕ × Uuid)) : List PageRow :=
  let found := journals.filter fun j => j.userId = userId ∧
    (∀ p ∈ position, j.createdAt < p.1 ∨ j.createdAt = p.1 ∧ j.id < p.2) ∧ q.selects j
  ((found.insertionSort JournalEntry.Newer).take (q.limit + 1)).map (JournalEntry.pageRow F)

/-- `find({ where: { id: In(ids) } })`: the journals come in any order, here in that of the
list, and are put back into the order of the page. -/
def hydrate (F : Formats) (journals : List JournalEntry) (ids : List String) :
    List JournalEntry :=
  let found := journals.filter fun j => F.uuidText j.id ∈ ids
  ids.filterMap fun id => found.find? fun j => F.uuidText j.id = id

/-- A page of the history, and the cursor of the next one. -/
structure TransactionsPage where
  items : List JournalEntry
  nextCursor : Option String
  hasNextPage : Bool

/-- What the two queries of a request find in the table. -/
structure View where
  keys : List JournalEntry
  rows : List JournalEntry

/-- The position that a cursor stands for, if Postgres can cast its two texts. -/
def castPosition (F : Formats) (cursor : String × String) : Except Exn (ℕ × Uuid) :=
  match F.timestamp cursor.1, F.uuid cursor.2 with
  | some createdAt, some id => .ok (createdAt, id)
  | none, _ => .error (.error ("invalid input syntax for type timestamp: " ++ cursor.1))
  | _, none => .error (.error ("invalid input syntax for type uuid: " ++ cursor.2))

/-- The position after which the page starts. -/
def readPosition (F : Formats) (cursor : Option String) : Except Exn (Option (ℕ × Uuid)) :=
  match given cursor with
  | none => .ok none
  | some cursor => do
    let decoded ← decodeCursor F cursor
    let position ← castPosition F decoded
    return some position

/-- The answer, from the rows of the page and one more. -/
def pageOf (F : Formats) (journals : List JournalEntry) (limit : ℕ) (rows : List PageRow) :
    TransactionsPage :=
  let hasNextPage : Bool := limit < rows.length
  let page := if hasNextPage then rows.take limit else rows
  { items := hydrate F journals (page.map PageRow.id)
    nextCursor :=
      if hasNextPage then page.getLast?.map fun row => encodeCursor row.cat row.id else none
    hasNextPage }

/-- `TransactionsService.getTransactions`. -/
def getTransactions (F : Formats) (view : View) (userId : UserId) (q : TransactionsQuery) :
    Except Exn TransactionsPage := do
  let position ← readPosition F q.cursor
  return pageOf F view.rows q.limit (pageRows F view.keys userId q position)

/-! ## The queries of a request -/

/-- The queries of `getTransactions`.  Their texts are sent as parameters, and it is Postgres
that casts them. -/
inductive HistoryQuery
  /-- The page of ids: of `query` the filters and the limit, and `cAt` and `cId`. -/
  | getRawMany (userId : UserId) (query : TransactionsQuery) (position : Option (String × String))
  /-- `find({ where: { id: In(ids) } })`. -/
  | find (ids : List String)

/-- The answer to a query. -/
@[simp] abbrev HistoryQuery.Ret : HistoryQuery → Type
  | .getRawMany _ _ _ => List PageRow
  | .find _ => List JournalEntry

/-- What runs the queries of the history. -/
abbrev HistoryRequest := Prog HistoryQuery.Ret Exn

/-- The page query: ids and times only, one row more than the limit. -/
def getRawMany (userId : UserId) (q : TransactionsQuery) (position : Option (String × String)) :
    HistoryRequest (List PageRow) := Prog.command (HistoryQuery.getRawMany userId q position)

/-- The journals with these ids, with their legs. -/
def findByIds (ids : List String) : HistoryRequest (List JournalEntry) :=
  Prog.command (HistoryQuery.find ids)

/-- `cursor ? this.decodeCursor(cursor) : null`. -/
def readCursor (F : Formats) (cursor : Option String) :
    HistoryRequest (Option (String × String)) :=
  match given cursor with
  | none => .pure none
  | some cursor =>
    match decodeCursor F cursor with
    | .ok position => .pure (some position)
    | .error e => .throw e

/-- The journals of a page, in its order. -/
def hydratePage (F : Formats) (ids : List String) : HistoryRequest (List JournalEntry) :=
  if ids = [] then .pure []
  else do
    let found ← findByIds ids
    return ids.filterMap fun id => found.find? fun j => F.uuidText j.id = id

/-- What comes after the first query: its rows are the page and one more. -/
def completePage (F : Formats) (limit : ℕ) (rows : List PageRow) :
    HistoryRequest TransactionsPage := do
  let hasNextPage : Bool := limit < rows.length
  let page := if hasNextPage then rows.take limit else rows
  let items ← hydratePage F (page.map PageRow.id)
  return {
    items
    nextCursor :=
      if hasNextPage then page.getLast?.map fun row => encodeCursor row.cat row.id else none
    hasNextPage }

/-- `TransactionsService.getTransactions`, query by query. -/
def TransactionsService.getTransactions (F : Formats) (userId : UserId)
    (q : TransactionsQuery) : HistoryRequest TransactionsPage := do
  let decodedCursor ← readCursor F q.cursor
  let rows ← getRawMany userId q decodedCursor
  completePage F q.limit rows

/-- What Postgres answers, from the journals that each of the two queries meets. -/
def View.answer (F : Formats) (v : View) : (c : HistoryQuery) → View × Except Exn c.Ret
  | .getRawMany userId q none => (v, .ok (pageRows F v.keys userId q none))
  | .getRawMany userId q (some texts) =>
    (v, (castPosition F texts).map fun position => pageRows F v.keys userId q (some position))
  | .find ids => (v, .ok (v.rows.filter fun j => F.uuidText j.id ∈ ids))

/-! ## Following the cursors -/

/-- A caller that asks for the first page, and then for the page of each cursor that it is
given; the views are those that its requests meet.  Whether it has come to the end. -/
def walkTransactions (F : Formats) (userId : UserId) (q : TransactionsQuery) :
    List View → Option String → Except Exn (List TransactionsPage × Bool)
  | [], _ => .ok ([], false)
  | view :: views, cursor => do
    let page ← getTransactions F view userId { q with cursor }
    match page.nextCursor with
    | none => pure ([page], true)
    | some next => do
      let (pages, done) ← walkTransactions F userId q views (some next)
      pure (page :: pages, done)

end FxExchange
