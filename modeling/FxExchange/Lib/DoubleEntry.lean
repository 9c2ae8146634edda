import Mathlib.Algebra.BigOperators.Group.Finset.Basic
import Mathlib.Algebra.BigOperators.Group.List.Basic
import Mathlib.Algebra.Order.BigOperators.Group.Finset
import Mathlib.Tactic

/-
# Double-entry bookkeeping

Accounts of an arbitrary type `α` hold integer balances.  A journal is a list of legs, each
on one account, with the change it makes and the balance before and after it.  A journal is
posted to balances that it fits: its legs are on different accounts, start from the current
balances and end at their sum with the change.  From this alone follow the three facts one
keeps such books for:

* `DoubleEntry.sum_post`: a posting changes the total of a group of accounts by the changes
  of the legs in it, so balanced journals conserve it;
* `DoubleEntry.Posted.balance`: the balances can be reconstructed from the journals;
* `DoubleEntry.Posted.chain`: the legs of an account, in the order of posting, form an
  unbroken statement.
-/

namespace DoubleEntry

variable {α κ : Type} [DecidableEq α] [DecidableEq κ]

/-- One leg of a journal. -/
structure Leg (α : Type) where
  account : α
  delta : ℤ
  before : ℤ
  after : ℤ

/-- The balances after the legs have been written, one after the other. -/
def post (bal : α → ℤ) : List (Leg α) → α → ℤ
  | [] => bal
  | l :: ls => post (Function.update bal l.account l.after) ls

/-- The legs are on different accounts, start from the balances and add up. -/
structure Fits (bal : α → ℤ) (legs : List (Leg α)) : Prop where
  nodup : (legs.map Leg.account).Nodup
  before_eq : ∀ l ∈ legs, l.before = bal l.account
  after_eq : ∀ l ∈ legs, l.after = l.before + l.delta

/-- The change that the legs make to one account. -/
def net (a : α) (legs : List (Leg α)) : ℤ :=
  ((legs.filter fun l => l.account = a).map Leg.delta).sum

@[simp] lemma net_nil (a : α) : net a [] = 0 := rfl

lemma net_cons (a : α) (l : Leg α) (ls : List (Leg α)) :
    net a (l :: ls) = (if l.account = a then l.delta else 0) + net a ls := by
  by_cases h : l.account = a <;> simp [net, h]

lemma net_append (a : α) (ls ms : List (Leg α)) : net a (ls ++ ms) = net a ls + net a ms := by
  simp [net]

lemma Fits.tail {bal : α → ℤ} {l : Leg α} {ls : List (Leg α)} (h : Fits bal (l :: ls)) :
    Fits (Function.update bal l.account l.after) ls := by
  have hnd := h.nodup
  simp only [List.map_cons, List.nodup_cons, List.mem_map, not_exists, not_and] at hnd
  refine ⟨hnd.2, fun m hm => ?_, fun m hm => h.after_eq m (List.mem_cons_of_mem _ hm)⟩
  rw [Function.update_of_ne (hnd.1 m hm)]
  exact h.before_eq m (List.mem_cons_of_mem _ hm)

omit [DecidableEq α] in
lemma Fits.head_after {bal : α → ℤ} {l : Leg α} {ls : List (Leg α)} (h : Fits bal (l :: ls)) :
    l.after = bal l.account + l.delta := by
  rw [h.after_eq l List.mem_cons_self, h.before_eq l List.mem_cons_self]

/-- A posting adds to each balance the change of the legs on it. -/
theorem post_apply {bal : α → ℤ} {legs : List (Leg α)} (h : Fits bal legs) (a : α) :
    post bal legs a = bal a + net a legs := by
  induction legs generalizing bal with
  | nil => simp [post]
  | cons l ls ih =>
    rw [post, ih h.tail, net_cons]
    by_cases ha : l.account = a
    · subst ha
      rw [Function.update_self, h.head_after, if_pos rfl]
      ring
    · rw [Function.update_of_ne (Ne.symm ha), if_neg ha]
      ring

omit [DecidableEq κ] in
lemma post_of_notMem {bal : α → ℤ} {legs : List (Leg α)} {a : α}
    (h : a ∉ legs.map Leg.account) : post bal legs a = bal a := by
  induction legs generalizing bal with
  | nil => rfl
  | cons l ls ih =>
    simp only [List.map_cons, List.mem_cons, not_or] at h
    rw [post, ih h.2, Function.update_of_ne h.1]

omit [DecidableEq κ] in
lemma post_of_mem {bal : α → ℤ} {legs : List (Leg α)} (hnd : (legs.map Leg.account).Nodup)
    {l : Leg α} (hl : l ∈ legs) : post bal legs l.account = l.after := by
  induction legs generalizing bal with
  | nil => cases hl
  | cons m ms ih =>
    simp only [List.map_cons, List.nodup_cons] at hnd
    rcases List.mem_cons.mp hl with rfl | hl
    · rw [post, post_of_notMem hnd.1, Function.update_self]
    · exact ih hnd.2 hl

/-- The writes of a posting, given as pairs, can be made in any order. -/
lemma post_eq_of_perm {bal : α → ℤ} {legs : List (Leg α)} (hnd : (legs.map Leg.account).Nodup)
    {writes : List (α × ℤ)} (hw : writes.Perm (legs.map fun l => (l.account, l.after))) :
    writes.foldl (fun f w => Function.update f w.1 w.2) bal = post bal legs := by
  have hcomm : ∀ w ∈ writes, ∀ w' ∈ writes, w ≠ w' → w.1 ≠ w'.1 := by
    intro w hw₁ w' hw₂ hne heq
    obtain ⟨l, hl, rfl⟩ := List.mem_map.mp (hw.mem_iff.mp hw₁)
    obtain ⟨l', hl', rfl⟩ := List.mem_map.mp (hw.mem_iff.mp hw₂)
    exact hne (by rw [List.inj_on_of_nodup_map hnd hl hl' heq])
  have hfold : writes.foldl (fun f w => Function.update f w.1 w.2) bal
      = (legs.map fun l => (l.account, l.after)).foldl
          (fun f w => Function.update f w.1 w.2) bal := by
    refine hw.foldl_eq' (fun w hw₁ w' hw₂ f => ?_) bal
    rcases eq_or_ne w w' with rfl | hne
    · rfl
    · exact Function.update_comm (hcomm w hw₁ w' hw₂ hne) _ _ _
  rw [hfold]
  clear hfold hcomm hw
  induction legs generalizing bal with
  | nil => rfl
  | cons l ls ih =>
    simp only [List.map_cons, List.nodup_cons] at hnd
    exact ih hnd.2

/-- The change that the legs make to the accounts of one group. -/
def groupNet (group : α → κ) (g : κ) (legs : List (Leg α)) : ℤ :=
  ((legs.filter fun l => group l.account = g).map Leg.delta).sum

omit [DecidableEq α] in
lemma groupNet_cons (group : α → κ) (g : κ) (l : Leg α) (ls : List (Leg α)) :
    groupNet group g (l :: ls)
      = (if group l.account = g then l.delta else 0) + groupNet group g ls := by
  by_cases h : group l.account = g <;> simp [groupNet, h]

/-- A posting changes the total of a group by the changes of the legs in the group. -/
theorem sum_post {bal : α → ℤ} {legs : List (Leg α)} (h : Fits bal legs) {rows : Finset α}
    (hrows : ∀ l ∈ legs, l.account ∈ rows) (group : α → κ) (g : κ) :
    ∑ a ∈ rows with group a = g, post bal legs a
      = (∑ a ∈ rows with group a = g, bal a) + groupNet group g legs := by
  simp only [post_apply h, Finset.sum_add_distrib, add_right_inj]
  clear h
  induction legs with
  | nil => simp [groupNet]
  | cons l ls ih =>
    have hl := hrows l List.mem_cons_self
    simp only [net_cons, groupNet_cons, Finset.sum_add_distrib,
      ih fun m hm => hrows m (List.mem_cons_of_mem _ hm), Finset.sum_ite_eq, Finset.mem_filter,
      hl, true_and]

/-- Two accounts of a group of nonnegative balances hold at most its total together. -/
lemma add_le_sum {bal : α → ℤ} {rows : Finset α} (hnonneg : ∀ a ∈ rows, 0 ≤ bal a) {a b : α}
    (ha : a ∈ rows) (hb : b ∈ rows) (hab : a ≠ b) {group : α → κ} (hg : group a = group b) :
    bal a + bal b ≤ ∑ x ∈ rows with group x = group b, bal x := by
  calc bal a + bal b = ∑ x ∈ {a, b}, bal x := (Finset.sum_pair hab).symm
    _ ≤ ∑ x ∈ rows with group x = group b, bal x := by
      refine Finset.sum_le_sum_of_subset_of_nonneg ?_ fun x hx _ =>
        hnonneg x (Finset.mem_filter.mp hx).1
      intro x hx
      rcases Finset.mem_insert.mp hx with rfl | hx
      · exact Finset.mem_filter.mpr ⟨ha, hg⟩
      · obtain rfl := Finset.mem_singleton.mp hx
        exact Finset.mem_filter.mpr ⟨hb, rfl⟩

omit [DecidableEq α] in
/-- One account of a group of nonnegative balances holds at most its total. -/
lemma le_sum {bal : α → ℤ} {rows : Finset α} (hnonneg : ∀ a ∈ rows, 0 ≤ bal a) {a : α}
    (ha : a ∈ rows) (group : α → κ) : bal a ≤ ∑ x ∈ rows with group x = group a, bal x :=
  Finset.single_le_sum (f := bal) (fun x hx => hnonneg x (Finset.mem_filter.mp hx).1)
    (Finset.mem_filter.mpr ⟨ha, rfl⟩)

/-- The legs of one account form an unbroken statement that starts from `v`. -/
def Chain : ℤ → List (Leg α) → Prop
  | _, [] => True
  | v, l :: ls => l.before = v ∧ Chain l.after ls

/-- The balance in which a statement that starts from `v` ends. -/
def closing : ℤ → List (Leg α) → ℤ
  | v, [] => v
  | _, l :: ls => closing l.after ls

omit [DecidableEq α] in
lemma chain_append {v : ℤ} {ls ms : List (Leg α)} :
    Chain v (ls ++ ms) ↔ Chain v ls ∧ Chain (closing v ls) ms := by
  induction ls generalizing v with
  | nil => simp [Chain, closing]
  | cons l ls ih => simp [Chain, closing, ih, and_assoc]

omit [DecidableEq α] in
lemma closing_append {v : ℤ} {ls ms : List (Leg α)} :
    closing v (ls ++ ms) = closing (closing v ls) ms := by
  induction ls generalizing v with
  | nil => rfl
  | cons l ls ih => exact ih

/-- The legs of one account. -/
def legsOf (a : α) (legs : List (Leg α)) : List (Leg α) := legs.filter fun l => l.account = a

/-- In one posting the legs of an account lead from its balance before to that after. -/
lemma chain_post {bal : α → ℤ} {legs : List (Leg α)} (h : Fits bal legs) (a : α) :
    Chain (bal a) (legsOf a legs) ∧ closing (bal a) (legsOf a legs) = post bal legs a := by
  induction legs generalizing bal with
  | nil => exact ⟨trivial, rfl⟩
  | cons l ls ih =>
    have hih := ih h.tail
    by_cases ha : l.account = a
    · subst ha
      rw [Function.update_self] at hih
      have hcons : legsOf l.account (l :: ls) = l :: legsOf l.account ls := by simp [legsOf]
      rw [hcons]
      exact ⟨⟨h.before_eq l List.mem_cons_self, hih.1⟩, hih.2⟩
    · rw [Function.update_of_ne (Ne.symm ha)] at hih
      simpa [legsOf, ha, post] using hih

/-- `Posted opening js bal`: posting the journals `js` one after the other leads from the
opening balances to `bal`. -/
inductive Posted (opening : α → ℤ) : List (List (Leg α)) → (α → ℤ) → Prop
  | nil : Posted opening [] opening
  | snoc {js : List (List (Leg α))} {bal : α → ℤ} {legs : List (Leg α)}
      (h : Posted opening js bal) (hfits : Fits bal legs) :
      Posted opening (js ++ [legs]) (post bal legs)

namespace Posted

variable {opening bal : α → ℤ} {js : List (List (Leg α))}

/-- The balances are the opening balances and all the changes that were posted. -/
theorem balance (h : Posted opening js bal) (a : α) : bal a = opening a + net a js.flatten := by
  induction h with
  | nil => simp
  | snoc _ hfits ih =>
    rw [post_apply hfits, ih, List.flatten_append, net_append]
    simp [add_assoc]

/-- The legs of each account, in the order of posting, form a statement that leads from its
opening balance to its balance. -/
theorem chain (h : Posted opening js bal) (a : α) :
    Chain (opening a) (legsOf a js.flatten) ∧
      closing (opening a) (legsOf a js.flatten) = bal a := by
  induction h with
  | nil => exact ⟨trivial, rfl⟩
  | @snoc js bal legs _ hfits ih =>
    have happ : legsOf a (js ++ [legs]).flatten = legsOf a js.flatten ++ legsOf a legs := by
      simp [legsOf]
    have hpost := chain_post hfits a
    rw [happ, chain_append, closing_append, ih.2]
    exact ⟨⟨ih.1, hpost.1⟩, hpost.2⟩

end Posted

end DoubleEntry
