import FxExchange.Proofs.Discipline

/-
# Postgres

The invariant of the database with its locks and open transactions, and what each statement
does to it.  Rows are locked before they are read and stay locked until the transaction
ends, so what a transaction has read of a row is what the database holds of it when the
transaction commits.
-/

namespace FxExchange

open DoubleEntry LockOrder

/-! ## The invariant -/

/-- All that there is of a currency. -/
def Database.total (db : Database) (c : Currency) : ℤ :=
  ∑ a ∈ db.rows with a.currency = c, db.amount a

/-- What the unique index of the journals is on. -/
def JournalEntry.userKey (j : JournalEntry) : UserId × String := (j.userId, j.idempotencyKey)

/-- The books of a database. -/
structure Sheet (db : Database) : Prop where
  house : ∀ c, (⟨.house, c⟩ : Account) ∈ db.rows
  nonneg : ∀ a ∈ db.rows, 0 ≤ db.amount a
  absent : ∀ a ∉ db.rows, db.amount a = 0
  total : ∀ c, db.total c = seed
  success : ∀ j ∈ db.journals, j.status = .success
  unique : (db.journals.map JournalEntry.userKey).Nodup

/-- A row lock shows what the database holds. -/
def RowLock.Current (db : Database) (k : RowLock) : Prop :=
  if k.created then k.account ∉ db.rows ∧ k.amount = 0
  else k.account ∈ db.rows ∧ k.amount = db.amount k.account

/-- The database with its locks and the open transactions of all threads. -/
structure Ledger (db : Database) (locks : Locks) (txs : Tid → Option Tx) : Prop where
  sheet : Sheet db
  rowLocks : ∀ a t, locks.rows a = some t ↔
    ∃ tx, txs t = some tx ∧ ∃ k ∈ tx.locks, k.account = a
  keyLocks : ∀ key t, locks.keys key = some t ↔
    ∃ tx, txs t = some tx ∧ key ∈ tx.journals.map JournalEntry.userKey
  keyFree : ∀ key t, locks.keys key = some t → key ∉ db.journals.map JournalEntry.userKey
  current : ∀ t tx, txs t = some tx → ∀ k ∈ tx.locks, k.Current db

lemma sheet_migrated : Sheet Database.migrated where
  house c := by simp [Database.migrated, Database.houseRows, mem_supportedCurrencies]
  nonneg a _ := by
    obtain ⟨w, c⟩ := a
    cases w <;> simp [Database.migrated, Database.opening, seed]
  absent a ha := by
    obtain ⟨w, c⟩ := a
    cases w with
    | house => exact absurd (by simp [Database.migrated, Database.houseRows,
        mem_supportedCurrencies]) ha
    | user u => rfl
  total c := by
    have hrow : (Database.migrated.rows.filter fun a => a.currency = c) = {⟨.house, c⟩} := by
      cases c <;> rfl
    rw [Database.total, hrow, Finset.sum_singleton]
    rfl
  success := by simp [Database.migrated]
  unique := by simp [Database.migrated]

lemma ledger_initial : Ledger Database.migrated Locks.empty fun _ => none where
  sheet := sheet_migrated
  rowLocks := by simp [Locks.empty]
  keyLocks := by simp [Locks.empty]
  keyFree := by simp [Locks.empty]
  current := by simp

/-! ## Reading -/

lemma Sheet.le_seed {db : Database} (h : Sheet db) {a : Account} (ha : a ∈ db.rows) :
    db.amount a ≤ seed := by
  rw [← h.total a.currency]
  exact le_sum h.nonneg ha Account.currency

lemma Sheet.add_le_seed {db : Database} (h : Sheet db) {a b : Account} (ha : a ∈ db.rows)
    (hb : b ∈ db.rows) (hab : a ≠ b) (hc : a.currency = b.currency) :
    db.amount a + db.amount b ≤ seed := by
  rw [← h.total b.currency]
  exact add_le_sum h.nonneg ha hb hab hc

lemma Database.find_eq_none_iff {db : Database} {u : UserId} {k : String} :
    db.findByIdempotencyKey u k = none ↔ (u, k) ∉ db.journals.map JournalEntry.userKey := by
  simp [findByIdempotencyKey, JournalEntry.userKey, List.find?_eq_none]

lemma Database.of_find_eq_some {db : Database} {u : UserId} {k : String} {j : JournalEntry}
    (h : db.findByIdempotencyKey u k = some j) :
    j ∈ db.journals ∧ j.userId = u ∧ j.idempotencyKey = k := by
  have hp := List.find?_some h
  exact ⟨List.mem_of_find?_eq_some h, by simpa using hp⟩

variable {db : Database} {locks locks' : Locks} {txs : Tid → Option Tx} {t : Tid} {tx : Tx}
  {seq : ℕ}

/-- A row that a transaction has inserted is locked by it. -/
lemma Tx.notMem_created {a : Account} (h : ∀ k ∈ tx.locks, k.account ≠ a) : a ∉ tx.created := by
  intro hmem
  obtain ⟨k, hk, rfl⟩ := List.mem_map.mp hmem
  exact h k (List.mem_filter.mp hk).1 rfl

namespace Ledger

/-- What a transaction sees of a row of the database, as long as it has written nothing. -/
lemma view_eq (h : Ledger db locks txs) (htx : txs t = some tx) (hupdates : tx.updates = [])
    {a : Account} (ha : a ∈ db.rows) : tx.view db a = db.amount a := by
  have hcreated : a ∉ tx.created := by
    intro hmem
    obtain ⟨k, hk, rfl⟩ := List.mem_map.mp hmem
    obtain ⟨hk, hc⟩ := List.mem_filter.mp hk
    have := h.current t tx htx k hk
    rw [RowLock.Current, if_pos hc] at this
    exact this.1 ha
  have hwrites (l : List Account) (hl : a ∉ l) (amount : Account → ℤ) :
      writeAll amount (l.map (·, 0)) a = amount a := by
    induction l generalizing amount with
    | nil => rfl
    | cons b l ih =>
      simp only [List.mem_cons, not_or] at hl
      exact (ih hl.2 _).trans (Function.update_of_ne hl.1 _ _)
  rw [Tx.view, Tx.writes, hupdates, List.append_nil]
  exact hwrites _ hcreated _

/-- The answers of statements are what the discipline lets their callers assume. -/
lemma txReply {l : Local} {c : TxCmd} {a : c.Ret} (h : Ledger db locks txs)
    (htx : txs t = some tx) (hguard : txGuard l tx c)
    (hexec : execTx db locks t seq tx c = some (locks', .ok a)) : TxReply tx c a := by
  cases c with
  | selectForUpdate b =>
    obtain ⟨hupdates, -, hown, hnotMem, hbefore⟩ := hguard
    simp only [execTx] at hexec
    split at hexec
    · rename_i hb
      split at hexec
      · cases hexec
      · obtain ⟨-, rfl⟩ : _ ∧ some (tx.view db b) = a := by
          simpa using hexec
        rw [h.view_eq htx hupdates hb]
        refine ⟨h.sheet.nonneg b hb, fun k hk hc => ?_, h.sheet.le_seed hb⟩
        have hcur := h.current t tx htx k hk
        unfold RowLock.Current at hcur
        split at hcur
        · rw [hcur.2, zero_add]
          exact h.sheet.le_seed hb
        · rw [hcur.2]
          exact h.sheet.add_le_seed hcur.1 hb (hnotMem k hk) hc
    · split at hexec
      · exact absurd ‹_› (Tx.notMem_created hnotMem)
      · obtain ⟨-, rfl⟩ : _ ∧ none = a := by simpa using hexec
        trivial
  | insertJournal j =>
    simp only [execTx] at hexec
    split at hexec
    · simp at hexec
    · rename_i hchecks
      exact not_not.mp hchecks
  | insertEntries id entries =>
    simp only [execTx] at hexec
    split at hexec
    · assumption
    · simp at hexec
  | insertOrder o =>
    simp only [execTx] at hexec
    split at hexec
    · assumption
    · simp at hexec
  | findJournal id =>
    obtain ⟨-, rfl⟩ : _ ∧ (tx.journals ++ db.journals).find? (fun j => j.id = id) = a := by
      simpa [execTx] using hexec
    intro j hj
    simp [List.find?_append, hj]
  | insertBalance b => trivial
  | insertOutbox e p => trivial
  | updateBalance b v => trivial
  | updateOrder o j f => trivial

end Ledger

/-! ## Statements -/

namespace Ledger

/-- Writes that leave alone what is locked. -/
lemma rewrite (h : Ledger db locks txs) (htx : txs t = some tx) {tx' : Tx}
    (hlocks : tx'.locks = tx.locks)
    (hkeys : tx'.journals.map JournalEntry.userKey = tx.journals.map JournalEntry.userKey) :
    Ledger db locks (Function.update txs t (some tx')) where
  sheet := h.sheet
  rowLocks a t' := by
    rw [h.rowLocks]
    rcases eq_or_ne t' t with rfl | ht
    · simp [htx, hlocks]
    · simp [Function.update_of_ne ht]
  keyLocks key t' := by
    rw [h.keyLocks]
    rcases eq_or_ne t' t with rfl | ht
    · simp only [htx, Function.update_self, Option.some.injEq, exists_eq_left', hkeys]
    · simp [Function.update_of_ne ht]
  keyFree := h.keyFree
  current t' tx₁ htx₁ k hk := by
    rcases eq_or_ne t' t with rfl | ht
    · rw [Function.update_self] at htx₁
      obtain rfl := Option.some.inj htx₁
      exact h.current _ tx htx k (hlocks ▸ hk)
    · rw [Function.update_of_ne ht] at htx₁
      exact h.current _ tx₁ htx₁ k hk

/-- A row that no other transaction has locked is locked. -/
lemma lockRow (h : Ledger db locks txs) (htx : txs t = some tx) {k : RowLock}
    (hfree : locks.rows.heldByOther t k.account = false) (hcurrent : k.Current db)
    (hnotMem : ∀ k' ∈ tx.locks, k'.account ≠ k.account) :
    Ledger db (locks.lockRow t k.account) (Function.update txs t (some (tx.lockRow k))) := by
  have hlocks : (tx.lockRow k).locks = tx.locks ++ [k] := by
    rw [Tx.lockRow, if_neg (by simpa using hnotMem)]
  have hjournals : (tx.lockRow k).journals = tx.journals := by
    unfold Tx.lockRow
    split <;> rfl
  refine ⟨h.sheet, ?_, ?_, h.keyFree, ?_⟩
  · intro a t'
    rw [Locks.lockRow, Table.grant_eq_some_iff, h.rowLocks]
    rcases eq_or_ne t' t with rfl | ht
    · simp only [htx, Function.update_self, Option.some.injEq, exists_eq_left', hlocks,
        List.mem_append, List.mem_singleton, and_true]
      constructor
      · rintro (rfl | ⟨-, k', hk', rfl⟩)
        · exact ⟨k, Or.inr rfl, rfl⟩
        · exact ⟨k', Or.inl hk', rfl⟩
      · rintro ⟨k', hk' | rfl, rfl⟩
        · exact Or.inr ⟨hnotMem k' hk', k', hk', rfl⟩
        · exact Or.inl rfl
    · rw [Function.update_of_ne ht]
      constructor
      · rintro (⟨-, rfl⟩ | ⟨-, hheld⟩)
        · exact absurd rfl ht
        · exact hheld
      · intro hheld
        refine Or.inr ⟨?_, hheld⟩
        rintro rfl
        have := Table.heldByOther_eq_false_iff.mp hfree t' ((h.rowLocks _ _).mpr hheld)
        exact ht this
  · intro key t'
    rw [Locks.lockRow, h.keyLocks]
    rcases eq_or_ne t' t with rfl | ht
    · simp [htx, hjournals]
    · simp [Function.update_of_ne ht]
  · intro t' tx₁ htx₁ k' hk'
    rcases eq_or_ne t' t with rfl | ht
    · rw [Function.update_self] at htx₁
      obtain rfl := Option.some.inj htx₁
      rw [hlocks, List.mem_append, List.mem_singleton] at hk'
      rcases hk' with hk' | rfl
      · exact h.current _ tx htx k' hk'
      · exact hcurrent
    · rw [Function.update_of_ne ht] at htx₁
      exact h.current _ tx₁ htx₁ k' hk'

/-- A journal is written whose key nobody else has. -/
lemma lockKey (h : Ledger db locks txs) (htx : txs t = some tx) {tx' : Tx} {j : JournalEntry}
    (hfree : locks.keys.heldByOther t j.userKey = false)
    (hnew : j.userKey ∉ db.journals.map JournalEntry.userKey) (hlocks : tx'.locks = tx.locks)
    (hjournals : tx'.journals = tx.journals ++ [j]) :
    Ledger db (locks.lockKey t j.userKey) (Function.update txs t (some tx')) := by
  refine ⟨h.sheet, ?_, ?_, ?_, ?_⟩
  · intro a t'
    rw [Locks.lockKey, h.rowLocks]
    rcases eq_or_ne t' t with rfl | ht
    · simp [htx, hlocks]
    · simp [Function.update_of_ne ht]
  · intro key t'
    rw [Locks.lockKey, Table.grant_eq_some_iff, h.keyLocks]
    rcases eq_or_ne t' t with rfl | ht
    · simp only [htx, Function.update_self, Option.some.injEq, exists_eq_left', hjournals,
        List.map_append, List.mem_append, List.map_cons, List.map_nil, List.mem_singleton,
        and_true]
      by_cases hkey : key = j.userKey <;> simp [hkey]
    · rw [Function.update_of_ne ht]
      constructor
      · rintro (⟨-, rfl⟩ | ⟨-, hheld⟩)
        · exact absurd rfl ht
        · exact hheld
      · intro hheld
        refine Or.inr ⟨?_, hheld⟩
        rintro rfl
        have := Table.heldByOther_eq_false_iff.mp hfree t' ((h.keyLocks _ _).mpr hheld)
        exact ht this
  · intro key t' hkey
    rw [Locks.lockKey, Table.grant_eq_some_iff] at hkey
    rcases hkey with ⟨rfl, -⟩ | ⟨-, hkey⟩
    · exact hnew
    · exact h.keyFree key t' hkey
  · intro t' tx₁ htx₁ k hk
    rcases eq_or_ne t' t with rfl | ht
    · rw [Function.update_self] at htx₁
      obtain rfl := Option.some.inj htx₁
      exact h.current _ tx htx k (hlocks ▸ hk)
    · rw [Function.update_of_ne ht] at htx₁
      exact h.current _ tx₁ htx₁ k hk

/-- A statement that fails keeps the invariant. -/
lemma abort (h : Ledger db locks txs) (htx : txs t = some tx) :
    Ledger db locks (Function.update txs t (some { tx with aborted := true })) :=
  h.rewrite htx rfl rfl

/-- A statement that is answered keeps the invariant. -/
theorem execTx {l : Local} {c : TxCmd} {r : Except Exn c.Ret} (h : Ledger db locks txs)
    (htx : txs t = some tx) (hguard : txGuard l tx c)
    (hexec : FxExchange.execTx db locks t seq tx c = some (locks', r)) :
    Ledger db locks' (Function.update txs t (some (tx.after seq c r))) := by
  cases c with
  | selectForUpdate a =>
    obtain ⟨hupdates, -, hown, hnotMem, hbefore⟩ := hguard
    simp only [FxExchange.execTx] at hexec
    split at hexec
    · rename_i ha
      split at hexec
      · cases hexec
      · rename_i hfree
        obtain ⟨rfl, rfl⟩ := Prod.mk.inj (Option.some.inj hexec)
        rw [h.view_eq htx hupdates ha]
        exact h.lockRow htx (k := ⟨a, seq, db.amount a, false⟩) (by simpa using hfree)
          ⟨ha, rfl⟩ hnotMem
    · split at hexec
      · exact absurd ‹_› (Tx.notMem_created hnotMem)
      · obtain ⟨rfl, rfl⟩ := Prod.mk.inj (Option.some.inj hexec)
        exact h.rewrite htx rfl rfl
  | insertBalance a =>
    obtain ⟨⟨hupdates, -, hown, hnotMem, hbefore⟩, -⟩ := hguard
    simp only [FxExchange.execTx] at hexec
    split at hexec
    · obtain ⟨rfl, rfl⟩ := Prod.mk.inj (Option.some.inj hexec)
      exact h.abort htx
    · rename_i hnew
      split at hexec
      · cases hexec
      · rename_i hfree
        obtain ⟨rfl, rfl⟩ := Prod.mk.inj (Option.some.inj hexec)
        exact h.lockRow htx (k := ⟨a, seq, 0, true⟩) (by simpa using hfree)
          ⟨fun ha => hnew (Or.inl ha), rfl⟩ hnotMem
  | insertJournal j =>
    simp only [FxExchange.execTx] at hexec
    split at hexec
    · obtain ⟨rfl, rfl⟩ := Prod.mk.inj (Option.some.inj hexec)
      exact h.abort htx
    split at hexec
    · obtain ⟨rfl, rfl⟩ := Prod.mk.inj (Option.some.inj hexec)
      exact h.abort htx
    rename_i hnew
    split at hexec
    · cases hexec
    rename_i hfree
    obtain ⟨rfl, rfl⟩ := Prod.mk.inj (Option.some.inj hexec)
    have hfind : db.findByIdempotencyKey j.userId j.idempotencyKey = none := by
      simpa using fun hsome => hnew (Or.inl hsome)
    exact h.lockKey htx (j := j.row seq tx.startedAt) (Bool.eq_false_of_not_eq_true hfree)
      (Database.find_eq_none_iff.mp hfind) rfl rfl
  | insertEntries id entries =>
    obtain ⟨rfl, rfl⟩ := Prod.mk.inj (Option.some.inj hexec)
    split
    · refine h.rewrite htx rfl ?_
      simp only [Tx.after, Tx.afterOk, List.map_map]
      refine List.map_congr_left fun j _ => ?_
      simp only [Function.comp_apply]
      split <;> rfl
    · exact h.abort htx
  | insertOutbox e p =>
    obtain ⟨rfl, rfl⟩ := Prod.mk.inj (Option.some.inj hexec)
    exact h.rewrite htx rfl rfl
  | findJournal id =>
    obtain ⟨rfl, rfl⟩ := Prod.mk.inj (Option.some.inj hexec)
    exact h.rewrite htx rfl rfl
  | insertOrder o =>
    obtain ⟨rfl, rfl⟩ := Prod.mk.inj (Option.some.inj hexec)
    split
    · exact h.rewrite htx rfl rfl
    · exact h.abort htx
  | updateBalance a v =>
    simp only [FxExchange.execTx] at hexec
    split at hexec
    · cases hexec
    · obtain ⟨rfl, rfl⟩ := Prod.mk.inj (Option.some.inj hexec)
      split
      · exact h.rewrite htx rfl rfl
      · exact h.abort htx
  | updateOrder o j f =>
    obtain ⟨rfl, rfl⟩ := Prod.mk.inj (Option.some.inj hexec)
    exact h.rewrite htx rfl rfl

/-! ## The ends of transactions -/

/-- A transaction starts without locks. -/
lemma start (h : Ledger db locks txs) (htx : txs t = none) (time : ℕ) :
    Ledger db locks (Function.update txs t (some { startedAt := time })) where
  sheet := h.sheet
  rowLocks a t' := by
    rw [h.rowLocks]
    rcases eq_or_ne t' t with rfl | ht
    · simp [htx]
    · simp [Function.update_of_ne ht]
  keyLocks key t' := by
    rw [h.keyLocks]
    rcases eq_or_ne t' t with rfl | ht
    · simp [htx]
    · simp [Function.update_of_ne ht]
  keyFree := h.keyFree
  current t' tx₁ htx₁ k hk := by
    rcases eq_or_ne t' t with rfl | ht
    · rw [Function.update_self] at htx₁
      obtain rfl := Option.some.inj htx₁
      cases hk
    · rw [Function.update_of_ne ht] at htx₁
      exact h.current _ tx₁ htx₁ k hk

/-- A transaction ends, and its locks with it, in a database whose locked rows show the same
to the other transactions. -/
lemma finish {db' : Database} (h : Ledger db locks txs) (hsheet : Sheet db')
    (hkeys : ∀ key t', t' ≠ t → locks.keys key = some t' →
      key ∉ db'.journals.map JournalEntry.userKey)
    (hcurrent : ∀ t' tx', t' ≠ t → txs t' = some tx' → ∀ k ∈ tx'.locks, k.Current db') :
    Ledger db' (locks.releaseAll t) (Function.update txs t none) where
  sheet := hsheet
  rowLocks a t' := by
    rw [Locks.releaseAll, Table.releaseAll_eq_some_iff, h.rowLocks]
    rcases eq_or_ne t' t with rfl | ht
    · simp
    · simp [ht]
  keyLocks key t' := by
    rw [Locks.releaseAll, Table.releaseAll_eq_some_iff, h.keyLocks]
    rcases eq_or_ne t' t with rfl | ht
    · simp
    · simp [ht]
  keyFree key t' hkey := by
    rw [Locks.releaseAll, Table.releaseAll_eq_some_iff] at hkey
    exact hkeys key t' hkey.2 hkey.1
  current t' tx₁ htx₁ := by
    rcases eq_or_ne t' t with rfl | ht
    · simp at htx₁
    · rw [Function.update_of_ne ht] at htx₁
      exact hcurrent t' tx₁ ht htx₁

/-- A transaction is rolled back. -/
lemma rollback (h : Ledger db locks txs) (t : Tid) :
    Ledger db (locks.releaseAll t) (Function.update txs t none) :=
  h.finish h.sheet (fun key t' _ => h.keyFree key t') fun t' tx' _ => h.current t' tx'

/-- Statements outside the transactions change neither balances nor journals. -/
lemma congr (h : Ledger db locks txs) {db' : Database} (hrows : db'.rows = db.rows)
    (hamount : db'.amount = db.amount) (hjournals : db'.journals = db.journals) :
    Ledger db' locks txs := by
  obtain ⟨wallets, rows, amount, journals, orders, outbox⟩ := db'
  subst hrows hamount hjournals
  exact ⟨⟨h.sheet.house, h.sheet.nonneg, h.sheet.absent, h.sheet.total, h.sheet.success,
    h.sheet.unique⟩, h.rowLocks, h.keyLocks, h.keyFree, h.current⟩

/-! ## Commit -/

section Commit

variable {req : Request} {hand : Option Quote} {j : JournalEntry}

/-- What a leg of the journal takes to be the balance of its account. -/
lemma leg_current (h : Ledger db locks txs) (htx : txs t = some tx)
    (hbooks : Books req hand tx j) {e : LedgerEntryInput} (he : e ∈ j.legs) :
    ∃ k ∈ tx.locks, k.account = e.account ∧ k.amount = e.balanceBefore ∧ k.Current db := by
  have hmem : (e.account, e.balanceBefore) ∈ tx.locks.map fun k => (k.account, k.amount) :=
    hbooks.locks.mem_iff.mpr (List.mem_map_of_mem he)
  obtain ⟨k, hk, heq⟩ := List.mem_map.mp hmem
  obtain ⟨haccount, hamount⟩ := Prod.mk.inj heq
  exact ⟨k, hk, haccount, hamount, h.current t tx htx k hk⟩

/-- The journal fits the balances of the database. -/
lemma fits (h : Ledger db locks txs) (htx : txs t = some tx) (hbooks : Books req hand tx j) :
    Fits db.amount (j.legs.map LedgerEntryInput.leg) where
  nodup := by
    rw [List.map_map]
    exact hbooks.nodup
  before_eq l hl := by
    obtain ⟨e, he, rfl⟩ := List.mem_map.mp hl
    obtain ⟨k, hk, haccount, hamount, hcur⟩ := h.leg_current htx hbooks he
    show e.balanceBefore = db.amount e.account
    rw [← hamount, ← haccount]
    unfold RowLock.Current at hcur
    split at hcur
    · rw [hcur.2, h.sheet.absent _ hcur.1]
    · exact hcur.2
  after_eq l hl := by
    obtain ⟨e, he, rfl⟩ := List.mem_map.mp hl
    exact (hbooks.sound e he).after_eq

/-- The commit posts the journal to the balances. -/
lemma apply_amount (h : Ledger db locks txs) (htx : txs t = some tx)
    (hbooks : Books req hand tx j) :
    (db.apply tx).amount = post db.amount (j.legs.map LedgerEntryInput.leg) := by
  -- the new rows are written with the 0 that an absent row stands for
  have hcreated (l : List Account) (hl : ∀ a ∈ l, a ∉ db.rows) :
      writeAll db.amount (l.map (·, 0)) = db.amount := by
    induction l with
    | nil => rfl
    | cons a l ih =>
      have ha : Function.update db.amount a 0 = db.amount := by
        rw [← h.sheet.absent a (hl a List.mem_cons_self), Function.update_eq_self]
      show writeAll (Function.update db.amount a 0) (l.map (·, 0)) = _
      rw [ha]
      exact ih fun b hb => hl b (List.mem_cons_of_mem _ hb)
  have hnew : ∀ a ∈ tx.created, a ∉ db.rows := by
    intro a ha
    obtain ⟨k, hk, rfl⟩ := List.mem_map.mp ha
    obtain ⟨hk, hc⟩ := List.mem_filter.mp hk
    have := h.current t tx htx k hk
    rw [RowLock.Current, if_pos hc] at this
    exact this.1
  have happend : (db.apply tx).amount =
      writeAll (writeAll db.amount (tx.created.map (·, 0))) tx.updates := List.foldl_append
  rw [happend, hcreated _ hnew]
  refine post_eq_of_perm (h.fits htx hbooks).nodup ?_
  rw [List.map_map]
  exact hbooks.updates

/-- The accounts of the journal have rows after the commit. -/
lemma leg_mem_rows (h : Ledger db locks txs) (htx : txs t = some tx)
    (hbooks : Books req hand tx j) {e : LedgerEntryInput} (he : e ∈ j.legs) :
    e.account ∈ (db.apply tx).rows := by
  obtain ⟨k, hk, haccount, -, hcur⟩ := h.leg_current htx hbooks he
  rw [← haccount]
  unfold RowLock.Current at hcur
  refine Finset.mem_union.mpr ?_
  split at hcur
  · rename_i hc
    exact Or.inr (List.mem_toFinset.mpr
      (List.mem_map_of_mem (List.mem_filter.mpr ⟨hk, hc⟩)))
  · exact Or.inl hcur.1

/-- Posting the journal keeps the books. -/
lemma sheet_apply (h : Ledger db locks txs) (htx : txs t = some tx)
    (hbooks : Books req hand tx j) : Sheet (db.apply tx) where
  house c := Finset.mem_union_left _ (h.sheet.house c)
  nonneg a ha := by
    rw [h.apply_amount htx hbooks]
    by_cases hleg : a ∈ (j.legs.map LedgerEntryInput.leg).map Leg.account
    · obtain ⟨l, hl, rfl⟩ := List.mem_map.mp hleg
      rw [post_of_mem (h.fits htx hbooks).nodup hl]
      obtain ⟨e, he, rfl⟩ := List.mem_map.mp hl
      exact (hbooks.sound e he).after_nonneg
    · rw [post_of_notMem hleg]
      by_cases hrow : a ∈ db.rows
      · exact h.sheet.nonneg a hrow
      · rw [h.sheet.absent a hrow]
  absent a ha := by
    have hleg : a ∉ (j.legs.map LedgerEntryInput.leg).map Leg.account := by
      intro hmem
      obtain ⟨l, hl, rfl⟩ := List.mem_map.mp hmem
      obtain ⟨e, he, rfl⟩ := List.mem_map.mp hl
      exact ha (h.leg_mem_rows htx hbooks he)
    rw [h.apply_amount htx hbooks, post_of_notMem hleg]
    exact h.sheet.absent a fun hrow => ha (Finset.mem_union_left _ hrow)
  total c := by
    have hrows : ∀ l ∈ j.legs.map LedgerEntryInput.leg, l.account ∈ (db.apply tx).rows := by
      intro l hl
      obtain ⟨e, he, rfl⟩ := List.mem_map.mp hl
      exact h.leg_mem_rows htx hbooks he
    rw [Database.total, h.apply_amount htx hbooks,
      sum_post (h.fits htx hbooks) hrows Account.currency c, hbooks.balanced, add_zero,
      ← h.sheet.total c]
    refine (Finset.sum_subset (Finset.filter_subset_filter _ Finset.subset_union_left)
      fun a ha hnew => ?_).symm
    refine h.sheet.absent a fun hrow => hnew (Finset.mem_filter.mpr ⟨hrow, ?_⟩)
    exact (Finset.mem_filter.mp ha).2
  success j' hj' := by
    rcases List.mem_append.mp hj' with hj' | hj'
    · exact h.sheet.success j' hj'
    · rw [hbooks.journals, List.mem_singleton] at hj'
      exact hj' ▸ hbooks.status
  unique := by
    show ((db.journals ++ tx.journals).map JournalEntry.userKey).Nodup
    rw [hbooks.journals, List.map_append]
    refine List.nodup_append.mpr ⟨h.sheet.unique, by simp, ?_⟩
    have hkey : locks.keys j.userKey = some t :=
      (h.keyLocks _ _).mpr ⟨tx, htx, by simp [hbooks.journals]⟩
    rintro key hmem key' hkey' rfl
    rw [List.map_singleton, List.mem_singleton] at hkey'
    exact h.keyFree _ _ hkey (hkey' ▸ hmem)

/-- A commit that keeps the contract keeps the invariant. -/
theorem commit (h : Ledger db locks txs) (htx : txs t = some tx)
    (hbooks : Books req hand tx j) :
    Ledger (db.apply tx) (locks.releaseAll t) (Function.update txs t none) := by
  refine h.finish (h.sheet_apply htx hbooks) (fun key t' ht hkey hmem => ?_)
    fun t' tx' ht htx' k hk => ?_
  · change key ∈ (db.journals ++ tx.journals).map JournalEntry.userKey at hmem
    rw [List.map_append, List.mem_append] at hmem
    rcases hmem with hmem | hmem
    · exact h.keyFree key t' hkey hmem
    · have := (h.keyLocks key t).mpr ⟨tx, htx, hmem⟩
      exact ht (Option.some.inj (hkey.symm.trans this))
  · -- another transaction's row is not among those that are written
    have hother (k' : RowLock) (hk' : k' ∈ tx.locks) : k'.account ≠ k.account := by
      intro heq
      have h₁ := (h.rowLocks k.account t').mpr ⟨tx', htx', k, hk, rfl⟩
      have h₂ := (h.rowLocks k.account t).mpr ⟨tx, htx, k', hk', heq⟩
      exact ht (Option.some.inj (h₁.symm.trans h₂))
    have hleg : k.account ∉ (j.legs.map LedgerEntryInput.leg).map Leg.account := by
      intro hmem
      obtain ⟨l, hl, hl'⟩ := List.mem_map.mp hmem
      obtain ⟨e, he, rfl⟩ := List.mem_map.mp hl
      obtain ⟨k', hk', haccount, -, -⟩ := h.leg_current htx hbooks he
      exact hother k' hk' (haccount.trans hl')
    have hcreated : k.account ∉ tx.created := Tx.notMem_created hother
    have hcur := h.current t' tx' htx' k hk
    by_cases hc : k.created
    · rw [RowLock.Current, if_pos hc] at hcur ⊢
      refine ⟨fun hmem => ?_, hcur.2⟩
      rcases Finset.mem_union.mp hmem with hmem | hmem
      · exact hcur.1 hmem
      · exact hcreated (List.mem_toFinset.mp hmem)
    · rw [RowLock.Current, if_neg hc] at hcur ⊢
      rw [h.apply_amount htx hbooks, post_of_notMem hleg]
      exact ⟨Finset.mem_union_left _ hcur.1, hcur.2⟩

end Commit

end Ledger

end FxExchange
