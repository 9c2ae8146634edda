import Mathlib.Data.Set.Insert
import Mathlib.Tactic.Common

/-
# Values in custody

A store keeps values under their keys, each until a deadline.  An owner takes a value out of
the store into its hands, and may put it back under a new deadline.  As long as taking a
value removes it, a value is in one place at a time, and it is not lost before it is due.
-/

namespace Custody

variable {κ υ τ : Type}

/-- The value of an entry at a time, if it has not expired. -/
def live (entry : Option (υ × ℕ)) (time : ℕ) : Option υ :=
  match entry with
  | some (v, deadline) => if time < deadline then some v else none
  | none => none

lemma live_eq_some_iff {entry : Option (υ × ℕ)} {time : ℕ} {v : υ} :
    live entry time = some v ↔ ∃ deadline, entry = some (v, deadline) ∧ time < deadline := by
  unfold live
  split
  · rename_i w deadline
    constructor
    · intro h
      split at h
      · cases h
        exact ⟨deadline, rfl, ‹_›⟩
      · cases h
    · rintro ⟨deadline', heq, hlt⟩
      cases heq
      rw [if_pos hlt]
  · simp

/-- The values that are kept, those that are held, and the time. -/
@[ext] structure State (κ υ τ : Type) where
  store : κ → Option (υ × ℕ)
  hand : τ → Option υ
  /-- The values that have ever been put into the store as new ones. -/
  issued : Set υ
  now : ℕ

/-- What is fixed: the key of a value, the deadlines under which it may be stored, and
whether owners may also read without removing. -/
structure Rules (κ υ : Type) where
  key : υ → κ
  bound : υ → ℕ → Prop
  copies : Prop

variable [DecidableEq κ] [DecidableEq τ]

/-- Time passes, or a value is issued, taken, put back, copied or dropped. -/
inductive Step (R : Rules κ υ) (s : State κ υ τ) : State κ υ τ → Prop
  | wait (ms : ℕ) : Step R s { s with now := s.now + ms }
  | take (t : τ) (k : κ) (hfree : s.hand t = none) : Step R s { s with
      store := Function.update s.store k none
      hand := Function.update s.hand t (live (s.store k) s.now) }
  | restore (t : τ) (v : υ) (deadline : ℕ) (hhand : s.hand t = some v)
      (hbound : R.bound v deadline) : Step R s { s with
      store := Function.update s.store (R.key v) (some (v, deadline))
      hand := Function.update s.hand t none }
  | issue (v : υ) (deadline : ℕ) (hnew : ∀ w ∈ s.issued, R.key w ≠ R.key v)
      (hbound : R.bound v deadline) : Step R s { s with
      store := Function.update s.store (R.key v) (some (v, deadline))
      issued := insert v s.issued }
  | copy (hcopies : R.copies) (t : τ) (k : κ) (hfree : s.hand t = none) : Step R s { s with
      hand := Function.update s.hand t (live (s.store k) s.now) }
  | drop (hcopies : R.copies) (k : κ) : Step R s { s with
      store := Function.update s.store k none }

variable {R : Rules κ υ} {s s' : State κ υ τ}

/-- An entry of an updated store, or a hand, is the new one or an old one. -/
lemma update_eq_some {α β : Type} [DecidableEq α] {f : α → Option β} {a a' : α} {x : Option β}
    {b : β} (h : Function.update f a x a' = some b) :
    (a' = a ∧ x = some b) ∨ (a' ≠ a ∧ f a' = some b) := by
  rcases eq_or_ne a' a with rfl | hne
  · rw [Function.update_self] at h
    exact Or.inl ⟨rfl, h⟩
  · rw [Function.update_of_ne hne] at h
    exact Or.inr ⟨hne, h⟩

/-! ## Where values come from -/

/-- All values in the store and in hands have been issued, each under its own key. -/
structure Known (R : Rules κ υ) (s : State κ υ τ) : Prop where
  store : ∀ k v deadline, s.store k = some (v, deadline) →
    R.key v = k ∧ v ∈ s.issued ∧ R.bound v deadline
  hand : ∀ t v, s.hand t = some v → v ∈ s.issued
  keys : ∀ v ∈ s.issued, ∀ w ∈ s.issued, R.key v = R.key w → v = w

theorem Known.step (h : Known R s) (hstep : Step R s s') : Known R s' := by
  -- what is taken out of the store has been issued
  have htaken {k : κ} {v : υ} (hv : live (s.store k) s.now = some v) : v ∈ s.issued := by
    obtain ⟨deadline, hentry, -⟩ := live_eq_some_iff.mp hv
    exact (h.store k v deadline hentry).2.1
  have hhand {t : τ} {k : κ} (t' : τ) (v : υ)
      (hv : Function.update s.hand t (live (s.store k) s.now) t' = some v) : v ∈ s.issued := by
    rcases update_eq_some hv with ⟨-, hv⟩ | ⟨-, hv⟩
    · exact htaken hv
    · exact h.hand t' v hv
  have hremove {k : κ} (k' : κ) (v : υ) (deadline : ℕ)
      (hv : Function.update s.store k none k' = some (v, deadline)) :
      R.key v = k' ∧ v ∈ s.issued ∧ R.bound v deadline := by
    rcases update_eq_some hv with ⟨-, hv⟩ | ⟨-, hv⟩
    · cases hv
    · exact h.store k' v deadline hv
  cases hstep with
  | wait ms => exact ⟨h.store, h.hand, h.keys⟩
  | take t k hfree => exact ⟨hremove, hhand, h.keys⟩
  | copy hcopies t k hfree => exact ⟨h.store, hhand, h.keys⟩
  | drop hcopies k => exact ⟨hremove, h.hand, h.keys⟩
  | restore t v deadline hv hbound =>
    refine ⟨fun k' w deadline' hw => ?_, fun t' w hw => ?_, h.keys⟩ <;> dsimp only at hw
    · rcases update_eq_some hw with ⟨rfl, heq⟩ | ⟨-, hw⟩
      · cases heq
        exact ⟨rfl, h.hand t v hv, hbound⟩
      · exact h.store k' w deadline' hw
    · rcases update_eq_some hw with ⟨-, hw⟩ | ⟨-, hw⟩
      · cases hw
      · exact h.hand t' w hw
  | issue v deadline hnew hbound =>
    refine ⟨?_, fun t' w hw => Set.mem_insert_of_mem _ (h.hand t' w hw), ?_⟩
    · intro k' w deadline' hw
      dsimp only at hw
      rcases update_eq_some hw with ⟨rfl, heq⟩ | ⟨-, hw⟩
      · cases heq
        exact ⟨rfl, Set.mem_insert _ _, hbound⟩
      · obtain ⟨hkey, hissued, hb⟩ := h.store k' w deadline' hw
        exact ⟨hkey, Set.mem_insert_of_mem _ hissued, hb⟩
    · rintro w (rfl | hw) w' (rfl | hw') hkey
      · rfl
      · exact absurd hkey.symm (hnew w' hw')
      · exact absurd hkey (hnew w hw)
      · exact h.keys w hw w' hw' hkey

/-! ## One place at a time -/

/-- A value is in the store or in the hands of one owner. -/
structure Exclusive (R : Rules κ υ) (s : State κ υ τ) : Prop where
  apart : ∀ t v, s.hand t = some v → s.store (R.key v) = none
  single : ∀ t t' v w, s.hand t = some v → s.hand t' = some w → R.key v = R.key w → t = t'

theorem Exclusive.step (h : Exclusive R s) (hknown : Known R s) (hcopies : ¬ R.copies)
    (hstep : Step R s s') : Exclusive R s' := by
  -- a stored value that is taken is in no other hand
  have htaken {k : κ} {t : τ} {v w : υ} (hv : live (s.store k) s.now = some v)
      (hw : s.hand t = some w) : R.key w ≠ R.key v := by
    intro hkey
    obtain ⟨deadline, hentry, -⟩ := live_eq_some_iff.mp hv
    have hnone := h.apart t w hw
    rw [hkey, (hknown.store k v deadline hentry).1, hentry] at hnone
    cases hnone
  cases hstep with
  | wait ms => exact ⟨h.apart, h.single⟩
  | copy hc t k hfree => exact absurd hc hcopies
  | drop hc k => exact absurd hc hcopies
  | take t k hfree =>
    refine ⟨fun t' v hv => ?_, fun t₁ t₂ v w hv hw hkey => ?_⟩ <;> dsimp only at hv ⊢
    · rcases update_eq_some hv with ⟨-, hv⟩ | ⟨-, hv⟩
      · obtain ⟨deadline, hentry, -⟩ := live_eq_some_iff.mp hv
        rw [(hknown.store k v deadline hentry).1, Function.update_self]
      · rcases eq_or_ne (R.key v) k with heq | hne
        · rw [heq, Function.update_self]
        · rw [Function.update_of_ne hne]
          exact h.apart t' v hv
    · dsimp only at hw
      rcases update_eq_some hv with ⟨rfl, hv'⟩ | ⟨-, hv'⟩ <;>
        rcases update_eq_some hw with ⟨rfl, hw'⟩ | ⟨-, hw'⟩
      · rfl
      · exact absurd hkey.symm (htaken hv' hw')
      · exact absurd hkey (htaken hw' hv')
      · exact h.single t₁ t₂ v w hv' hw' hkey
  | restore t v deadline hv hbound =>
    refine ⟨fun t' w hw => ?_, fun t₁ t₂ w w' hw hw' => ?_⟩ <;> dsimp only at hw ⊢
    · rcases update_eq_some hw with ⟨-, hw⟩ | ⟨hne, hw⟩
      · cases hw
      · rw [Function.update_of_ne]
        · exact h.apart t' w hw
        · exact fun hkey => hne (h.single t' t w v hw hv hkey)
    · rcases update_eq_some hw with ⟨-, hw⟩ | ⟨-, hw⟩
      · cases hw
      dsimp only at hw'
      rcases update_eq_some hw' with ⟨-, hw'⟩ | ⟨-, hw'⟩
      · cases hw'
      exact h.single t₁ t₂ w w' hw hw'
  | issue v deadline hnew hbound =>
    refine ⟨fun t w hw => ?_, h.single⟩
    dsimp only
    rw [Function.update_of_ne (hnew w (hknown.hand t w hw))]
    exact h.apart t w hw

/-! ## No value is lost -/

/-- Until it is due, a value that was issued is in the store or in hand. -/
def Located (R : Rules κ υ) (due : υ → ℕ) (s : State κ υ τ) : Prop :=
  ∀ v ∈ s.issued, s.now < due v → (∃ deadline, s.store (R.key v) = some (v, deadline)) ∨
    ∃ t, s.hand t = some v

theorem Located.step {due : υ → ℕ} (h : Located R due s) (hknown : Known R s)
    (hcopies : ¬ R.copies) (hdue : ∀ v deadline, R.bound v deadline → due v ≤ deadline)
    (hstep : Step R s s') : Located R due s' := by
  intro v hv hnow
  cases hstep with
  | copy hc t k hfree => exact absurd hc hcopies
  | drop hc k => exact absurd hc hcopies
  | wait ms => exact h v hv (lt_of_le_of_lt (Nat.le_add_right _ _) hnow)
  | take t k hfree =>
    rcases h v hv hnow with ⟨deadline, hentry⟩ | ⟨t', ht'⟩
    · rcases eq_or_ne (R.key v) k with rfl | hne
      · -- it is not past its deadline, so it comes into the hand
        refine Or.inr ⟨t, ?_⟩
        dsimp only
        rw [Function.update_self]
        exact live_eq_some_iff.mpr ⟨deadline, hentry, lt_of_lt_of_le hnow
          (hdue v deadline (hknown.store _ v deadline hentry).2.2)⟩
      · exact Or.inl ⟨deadline, (Function.update_of_ne hne _ _).trans hentry⟩
    · refine Or.inr ⟨t', (Function.update_of_ne ?_ _ _).trans ht'⟩
      rintro rfl
      rw [hfree] at ht'
      cases ht'
  | restore t w deadline hw hbound =>
    rcases eq_or_ne (R.key v) (R.key w) with hkey | hne
    · obtain rfl := hknown.keys v hv w (hknown.hand t w hw) hkey
      exact Or.inl ⟨deadline, Function.update_self _ _ _⟩
    · rcases h v hv hnow with ⟨deadline', hentry⟩ | ⟨t', ht'⟩
      · exact Or.inl ⟨deadline', (Function.update_of_ne hne _ _).trans hentry⟩
      · refine Or.inr ⟨t', (Function.update_of_ne ?_ _ _).trans ht'⟩
        rintro rfl
        rw [hw] at ht'
        cases ht'
        exact hne rfl
  | issue w deadline hnew hbound =>
    rcases hv with rfl | hv
    · exact Or.inl ⟨deadline, Function.update_self _ _ _⟩
    · rcases h v hv hnow with ⟨deadline', hentry⟩ | ht'
      · exact Or.inl ⟨deadline', (Function.update_of_ne (hnew v hv) _ _).trans hentry⟩
      · exact Or.inr ht'

end Custody
