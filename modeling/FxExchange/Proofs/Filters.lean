import FxExchange.Proofs.Books
import FxExchange.Proofs.Pages

/-
# The filters of the history

The conditions on type and currency are on any leg of a journal, the legs of the house
included.  Every leg of the house is the other side of a leg of the caller, of the same
currency and the opposite type.
-/

namespace FxExchange

open Transition

variable {cfg : Config} {s : Sys} {F : Formats} {u : UserId} {q : TransactionsQuery}

/-- The type of the other side. -/
def TransactionType.opposite : TransactionType → TransactionType
  | credit => debit
  | debit => credit

@[simp] lemma TransactionType.opposite_opposite (T : TransactionType) :
    T.opposite.opposite = T := by
  cases T <;> rfl

/-- The journal has a leg of the type in the currency on the wallet. -/
def JournalEntry.HasLeg (j : JournalEntry) (w : WalletId) (c : Currency) (T : TransactionType) :
    Prop := ∃ e ∈ j.entries, e.walletId = w ∧ e.currency = c ∧ e.type = T

lemma hasLeg_iff {j : JournalEntry} {w : WalletId} {c : Currency} {T : TransactionType} :
    j.HasLeg w c T ↔ ∃ x ∈ j.legs.map LedgerEntryInput.side,
      x.walletId = w ∧ x.currency = c ∧ x.type = T := by
  simp only [JournalEntry.HasLeg, JournalEntry.legs, List.map_map, List.mem_map,
    exists_exists_and_eq_and]
  rfl

/-- The house has the other side of each leg of the caller, and no other legs. -/
lemma Carries.mirrored {req : Request} {hand : Option Quote} {j : JournalEntry}
    (h : Carries req hand j) (c : Currency) (T : TransactionType) :
    j.HasLeg .house c T ↔ j.HasLeg (.user req.userId) c T.opposite := by
  have hfund (u : UserId) (c' : Currency) (a : ℤ) :
      (∃ x ∈ fundSides u c' a, x.walletId = .house ∧ x.currency = c ∧ x.type = T) ↔
        ∃ x ∈ fundSides u c' a, x.walletId = .user u ∧ x.currency = c ∧ x.type = T.opposite := by
    cases T <;> simp [fundSides, TransactionType.opposite]
  have hexchange (u : UserId) (f t : Currency) (a out : ℤ) :
      (∃ x ∈ exchangeSides u f t a out, x.walletId = .house ∧ x.currency = c ∧ x.type = T) ↔
        ∃ x ∈ exchangeSides u f t a out,
          x.walletId = .user u ∧ x.currency = c ∧ x.type = T.opposite := by
    cases T <;> simp [exchangeSides, TransactionType.opposite]
  rw [hasLeg_iff, hasLeg_iff]
  cases req with
  | fundWallet u c' a k =>
    obtain ⟨_, _, -, -, -, hsides⟩ := h
    rw [hsides]
    exact hfund _ _ _
  | convertFunds u f t a k ctx =>
    obtain ⟨_, _, _, _, -, -, -, -, -, hsides⟩ := h
    rw [hsides]
    exact hexchange _ _ _ _ _
  | executeTrade u q k =>
    obtain ⟨_, -, -, -, -, hsides⟩ := h
    rw [hsides]
    exact hexchange _ _ _ _ _
  | _ => exact h.elim

/-- Every leg of a journal in the books is the caller's own, or the other side of one. -/
lemma own_or_mirrored (h : Reachable cfg s) {j : JournalEntry} (hj : j ∈ s.db.journals) :
    (∀ c T, j.HasLeg .house c T ↔ j.HasLeg (.user j.userId) c T.opposite) ∧
      ∀ e ∈ j.entries, j.HasLeg (.user j.userId) e.currency e.type ∨
        j.HasLeg (.user j.userId) e.currency e.type.opposite := by
  obtain ⟨t, th, tx, -, -, -, hbooks⟩ := (history_of_reachable h).books_of_mem hj
  have hmirror := hbooks.carries.mirrored
  rw [← hbooks.userId] at hmirror
  refine ⟨hmirror, fun e he => ?_⟩
  have howner := hbooks.carries.owner (List.mem_map_of_mem he)
  rw [← hbooks.userId] at howner
  rcases howner with hhouse | hown
  · exact Or.inr ((hmirror _ _).mp ⟨e, he, hhouse, rfl, rfl⟩)
  · exact Or.inl ⟨e, he, hown, rfl, rfl⟩

/-! ## The caller's own side -/

/-- The journal meets the filters by a leg on the wallet of `u`. -/
def TransactionsQuery.SelectsOwn (q : TransactionsQuery) (u : UserId) (j : JournalEntry) : Prop :=
  (∃ e ∈ j.entries, e.walletId = .user u ∧
    (∀ c ∈ given q.currency, e.currency.code = toUpperCase c) ∧ ∀ T ∈ q.type, e.type = T) ∧
  ∀ p ∈ q.purpose, j.purpose = p

/-- Where the journal has a leg of `u` of the other type than the one asked for, it also has
one of this type. -/
def TransactionsQuery.OneSided (q : TransactionsQuery) (u : UserId) (j : JournalEntry) : Prop :=
  ∀ T ∈ q.type, { q with type := some T.opposite }.SelectsOwn u j → q.SelectsOwn u j

instance (q : TransactionsQuery) (u : UserId) (j : JournalEntry) : Decidable (q.SelectsOwn u j) :=
  inferInstanceAs (Decidable (_ ∧ _))

instance (q : TransactionsQuery) (u : UserId) (j : JournalEntry) : Decidable (q.OneSided u j) :=
  inferInstanceAs (Decidable (∀ T ∈ q.type, _))

/-- A filter selects a journal by a leg of its user, or by the other side of one. -/
lemma selects_iff (h : Reachable cfg s) (hgiven : given q.currency ≠ none ∨ q.type ≠ none)
    {j : JournalEntry} (hj : j ∈ s.db.journals) :
    q.selects j ↔ q.SelectsOwn j.userId j ∨
      ∃ T ∈ q.type, { q with type := some T.opposite }.SelectsOwn j.userId j := by
  obtain ⟨hmirror, howner⟩ := own_or_mirrored h hj
  have hnot : ¬ (given q.currency = none ∧ q.type = none) := by tauto
  rw [TransactionsQuery.selects, decide_eq_true_iff]
  constructor
  · rintro ⟨hempty | ⟨e, he, hcurrency, htype⟩, hpurpose⟩
    · exact absurd hempty hnot
    rcases howner e he with ⟨e', he', hown, hc, hT⟩ | ⟨e', he', hown, hc, hT⟩
    · rw [← hc] at hcurrency
      rw [← hT] at htype
      exact Or.inl ⟨⟨e', he', hown, hcurrency, htype⟩, hpurpose⟩
    · rw [← hc] at hcurrency
      cases hq : q.type with
      | none => exact Or.inl ⟨⟨e', he', hown, hcurrency, by simp [hq]⟩, hpurpose⟩
      | some T =>
        have hopposite : e'.type = T.opposite := by rw [hT, htype T hq]
        refine Or.inr ⟨T, rfl, ⟨e', he', hown, hcurrency, ?_⟩, hpurpose⟩
        rintro T' hT'
        rw [← Option.some.inj hT', hopposite]
  · rintro (⟨⟨e, he, -, hmatch⟩, hpurpose⟩ | ⟨T, hq, ⟨e, he, hown, hcurrency, htype⟩, hpurpose⟩)
    · exact ⟨Or.inr ⟨e, he, hmatch⟩, hpurpose⟩
    · -- the house has the other side of this leg
      have hleg : j.HasLeg (.user j.userId) e.currency T.opposite :=
        ⟨e, he, hown, rfl, htype _ rfl⟩
      obtain ⟨e', he', -, hc, hT⟩ := (hmirror _ _).mpr hleg
      rw [← hc] at hcurrency
      refine ⟨Or.inr ⟨e', he', hcurrency, ?_⟩, hpurpose⟩
      rintro T' hT'
      rw [hT]
      exact Option.some.inj (hq.symm.trans hT')

/-- The pages of a walk describe the caller's own side of its journals just where none of them
has only the other side of what the filter asks for. -/
theorem filters_own_side_iff (h : Reachable cfg s) (hlimit : 1 ≤ q.limit)
    (hgiven : given q.currency ≠ none ∨ q.type ≠ none) {views : List View}
    (hviews : Growing F views) (hkeys : ∀ v ∈ views, ∀ j, j ∈ v.keys ↔ j ∈ s.db.journals)
    (hlength : s.db.journals.length < views.length) :
    ∃ pages, walkTransactions F u q views none = .ok (pages, true) ∧
      ((∀ j, j ∈ pages.flatMap TransactionsPage.items ↔
          j ∈ s.db.journals ∧ j.userId = u ∧ q.SelectsOwn u j) ↔
        ∀ j ∈ s.db.journals, j.userId = u → q.OneSided u j) := by
  obtain ⟨pages, done, hpages, hwalked⟩ := exists_walked (u := u) hviews hlimit
  obtain rfl := walk_done hviews hlimit (journal_ids_nodup h) hkeys hlength hpages
  have hne : views ≠ [] := List.ne_nil_of_length_pos (Nat.zero_lt_of_lt hlength)
  have hmem := hwalked.mem_iff hkeys hne
  refine ⟨pages, hpages, ?_⟩
  constructor
  · rintro howns j hj rfl T hT hother
    have hselects := (selects_iff h hgiven hj).mpr (Or.inr ⟨T, hT, hother⟩)
    exact ((howns j).mp ((hmem j).mpr ⟨hj, rfl, hselects⟩)).2.2
  · intro hsided j
    rw [hmem]
    refine and_congr_right fun hj => and_congr_right fun hu => ?_
    subst hu
    rw [selects_iff h hgiven hj]
    refine ⟨fun hselects => ?_, Or.inl⟩
    rcases hselects with hown | ⟨T, hT, hother⟩
    · exact hown
    · exact hsided j hj rfl T hT hother

/-! ## A funding -/

/-- The texts of the first instant, and of uuids of two digits. -/
def epoch : Formats where
  toChar t := if t = 0 then "1970-01-01T00:00:00.000000" else ""
  timestamp text := if text = "1970-01-01T00:00:00.000000" then some 0 else none
  uuidText id := "00000000-0000-4000-8000-0000000000" ++ (if id < 10 then "0" else "") ++
    toString id
  uuid text := (List.range 100).find? fun id =>
    "00000000-0000-4000-8000-0000000000" ++ (if id < 10 then "0" else "") ++ toString id = text
  dateParse text := if text = "1970-01-01T00:00:00.000000" then some 0 else none

/-- Two requests that meet the same journals. -/
def twoViews (s : Sys) : List View := List.replicate 2 ⟨s.db.journals, s.db.journals⟩

lemma growing_twoViews (h : Reachable cfg s)
    (hjournals : ∀ j ∈ s.db.journals, j.id = 11 ∧ j.createdAt = 0) :
    Growing epoch (twoViews s) := by
  have hexact : epoch.Exact 0 11 := by constructor <;> decide +kernel
  constructor
  · intro v hv
    rw [List.eq_of_mem_replicate hv]
    refine ⟨journal_ids_nodup h, journal_ids_nodup h, List.Subset.refl _, fun j hj => ?_⟩
    rw [(hjournals j hj).1, (hjournals j hj).2]
    exact hexact
  · exact List.pairwise_replicate.mpr (Or.inr (List.Subset.refl _))

/-- The user has been credited, so its funding is found under CREDIT. -/
theorem filters_own_side_iff_credit : ∃ s pages, Reachable {} s ∧ s.db.journals.length = 1 ∧
    walkTransactions epoch 1 { type := some .credit } (twoViews s) none = .ok (pages, true) ∧
    ∀ j, j ∈ pages.flatMap TransactionsPage.items ↔ j ∈ s.db.journals ∧ j.userId = 1 ∧
      TransactionsQuery.SelectsOwn { type := some .credit } 1 j := by
  have hplay : (runAll (Sys.step {}) anyStep Sys.initial fundRun).any
      (fun s => s.db.journals.length = 1 ∧ (∀ j ∈ s.db.journals, j.id = 11 ∧ j.createdAt = 0) ∧
        ∀ j ∈ s.db.journals, j.userId = 1 →
          TransactionsQuery.OneSided { type := some .credit } 1 j) = true := by decide +kernel
  obtain ⟨s, hrun, hs⟩ := exists_of_runAll hplay
  obtain ⟨hlength, hjournals, hsided⟩ := of_decide_eq_true hs
  obtain ⟨pages, hpages, hiff⟩ := filters_own_side_iff (u := 1)
    (q := { type := some .credit }) hrun (by decide) (Or.inr (by decide))
    (growing_twoViews hrun hjournals)
    (fun v hv j => by rw [List.eq_of_mem_replicate hv]) (by simp [twoViews, hlength])
  exact ⟨s, pages, hrun, hlength, hpages, hiff.mpr hsided⟩

/-- The house has been debited, so the funding is found under DEBIT as well. -/
theorem funding_under_debit : ∃ s pages j, Reachable {} s ∧
    walkTransactions epoch 1 { type := some .debit } (twoViews s) none = .ok (pages, true) ∧
    j ∈ pages.flatMap TransactionsPage.items ∧ j.userId = 1 ∧ j.purpose = .funding ∧
    ∀ e ∈ j.entries, e.walletId = .user 1 → e.type = .credit := by
  have hplay : (runAll (Sys.step {}) anyStep Sys.initial fundRun).any
      (fun s => s.db.journals.length = 1 ∧ (∀ j ∈ s.db.journals, j.id = 11 ∧ j.createdAt = 0) ∧
        ∃ j ∈ s.db.journals, j.userId = 1 ∧ j.purpose = .funding ∧
          (∀ e ∈ j.entries, e.walletId = .user 1 → e.type = .credit) ∧
          TransactionsQuery.selects { type := some .debit } j) = true := by decide +kernel
  obtain ⟨s, hrun, hs⟩ := exists_of_runAll hplay
  obtain ⟨hlength, hjournals, j, hj, hu, hpurpose, hlegs, hselects⟩ := of_decide_eq_true hs
  have hgrowing := growing_twoViews hrun hjournals
  have hkeys : ∀ v ∈ twoViews s, ∀ j, j ∈ v.keys ↔ j ∈ s.db.journals :=
    fun v hv j => by rw [List.eq_of_mem_replicate hv]
  obtain ⟨pages, done, hpages, hwalked⟩ := exists_walked (u := 1)
    (q := { type := some .debit }) hgrowing (by decide)
  obtain rfl := walk_done hgrowing (by decide) (journal_ids_nodup hrun) hkeys
    (by simp [twoViews, hlength]) hpages
  exact ⟨s, pages, j, hrun, hpages,
    (hwalked.mem_iff hkeys (by simp [twoViews]) j).mpr ⟨hj, hu, hselects⟩, hu, hpurpose, hlegs⟩

end FxExchange
