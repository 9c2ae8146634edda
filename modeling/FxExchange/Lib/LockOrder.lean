import Mathlib.Logic.Function.Basic
import Mathlib.Logic.Relation
import Mathlib.Tactic.Common

/-
# Exclusive locks and the order in which they are taken

A lock table gives each resource at most one owner.  Owners that keep what they hold while
they wait for one more resource cannot wait for each other in a circle if every one of them
asks for resources in increasing order of one strict order.
-/

namespace LockOrder

variable {ρ τ : Type}

/-- The owner of each locked resource. -/
abbrev Table (ρ τ : Type) : Type := ρ → Option τ

namespace Table

variable [DecidableEq ρ] [DecidableEq τ]

/-- Some owner other than `t` has locked `r`. -/
def heldByOther (T : Table ρ τ) (t : τ) (r : ρ) : Bool :=
  match T r with
  | none => false
  | some t' => t' ≠ t

/-- Give the resource to `t`. -/
def grant (T : Table ρ τ) (t : τ) (r : ρ) : Table ρ τ := Function.update T r (some t)

/-- Free everything that `t` has locked. -/
def releaseAll (T : Table ρ τ) (t : τ) : Table ρ τ :=
  fun r => if T r = some t then none else T r

omit [DecidableEq τ] in
@[simp] lemma grant_self (T : Table ρ τ) (t : τ) (r : ρ) : T.grant t r r = some t := by
  simp [grant]

omit [DecidableEq τ] in
lemma grant_of_ne {T : Table ρ τ} {t : τ} {r r' : ρ} (h : r' ≠ r) :
    T.grant t r r' = T r' := by
  simp [grant, h]

omit [DecidableEq τ] in
lemma grant_eq_some_iff {T : Table ρ τ} {t t' : τ} {r r' : ρ} :
    T.grant t r r' = some t' ↔ (r' = r ∧ t = t') ∨ (r' ≠ r ∧ T r' = some t') := by
  by_cases h : r' = r
  · subst h
    simp
  · simp [grant_of_ne h, h]

omit [DecidableEq ρ] in
@[simp] lemma releaseAll_eq_some_iff {T : Table ρ τ} {t t' : τ} {r : ρ} :
    T.releaseAll t r = some t' ↔ T r = some t' ∧ t' ≠ t := by
  by_cases h : T r = some t
  · simp only [releaseAll, h, if_true, reduceCtorEq, Option.some.injEq, false_iff, not_and,
      not_not]
    exact Eq.symm
  · simp only [releaseAll, h, if_false, iff_self_and]
    rintro h' rfl
    exact h h'

omit [DecidableEq ρ] in
lemma heldByOther_eq_false_iff {T : Table ρ τ} {t : τ} {r : ρ} :
    T.heldByOther t r = false ↔ ∀ t', T r = some t' → t' = t := by
  unfold heldByOther
  cases T r <;> simp

omit [DecidableEq ρ] in
lemma heldByOther_eq_true_iff {T : Table ρ τ} {t : τ} {r : ρ} :
    T.heldByOther t r = true ↔ ∃ t', T r = some t' ∧ t' ≠ t := by
  unfold heldByOther
  cases T r <;> simp

/-- Nobody but `t` has locked anything. -/
def OnlyBy (T : Table ρ τ) (t : τ) : Prop := ∀ r t', T r = some t' → t' = t

omit [DecidableEq τ] in
lemma OnlyBy.grant {T : Table ρ τ} {t : τ} (h : T.OnlyBy t) (r : ρ) : (T.grant t r).OnlyBy t := by
  intro r' t' ht'
  rcases grant_eq_some_iff.mp ht' with ⟨-, rfl⟩ | ⟨-, hold⟩
  · rfl
  · exact h r' t' hold

omit [DecidableEq ρ] in
lemma OnlyBy.releaseAll {T : Table ρ τ} {t : τ} (h : T.OnlyBy t) : (T.releaseAll t).OnlyBy t :=
  fun r t' ht' => h r t' (releaseAll_eq_some_iff.mp ht').1

omit [DecidableEq ρ] in
lemma OnlyBy.not_heldByOther {T : Table ρ τ} {t : τ} (h : T.OnlyBy t) (r : ρ) :
    T.heldByOther t r = false := heldByOther_eq_false_iff.mpr (h r)

end Table

/-- `t` waits for `t'`: it asks for a resource that `t'` holds. -/
def WaitsFor (asks holds : τ → ρ → Prop) (t t' : τ) : Prop := ∃ r, asks t r ∧ holds t' r

variable {asks holds : τ → ρ → Prop} {before : ρ → ρ → Prop}

/-- Along a chain of waiting owners the resources they ask for increase. -/
lemma asks_increase (htrans : ∀ r s u, before r s → before s u → before r u)
    (hord : ∀ t r s, holds t r → asks t s → before r s) {t t' : τ}
    (h : Relation.TransGen (WaitsFor asks holds) t t') :
    ∀ s, asks t' s → ∃ r, asks t r ∧ before r s := by
  induction h with
  | single h =>
    intro s hs
    obtain ⟨r, hr, hheld⟩ := h
    exact ⟨r, hr, hord _ _ _ hheld hs⟩
  | tail _ h ih =>
    intro s hs
    obtain ⟨r, hr, hheld⟩ := h
    obtain ⟨r₀, hr₀, hlt⟩ := ih r hr
    exact ⟨r₀, hr₀, htrans _ _ _ hlt (hord _ _ _ hheld hs)⟩

/-- If every owner asks, one at a time, for resources that come after all that it holds,
then no owner waits for itself. -/
theorem no_cycle (htrans : ∀ r s u, before r s → before s u → before r u)
    (hirrefl : ∀ r, ¬ before r r) (hone : ∀ t r s, asks t r → asks t s → r = s)
    (hord : ∀ t r s, holds t r → asks t s → before r s) (t : τ) :
    ¬ Relation.TransGen (WaitsFor asks holds) t t := by
  intro h
  obtain ⟨s, hs⟩ : ∃ s, asks t s := by
    obtain ⟨t', ⟨s, hs, -⟩, -⟩ := Relation.TransGen.head'_iff.mp h
    exact ⟨s, hs⟩
  obtain ⟨r, hr, hlt⟩ := asks_increase htrans hord h s hs
  rw [hone t r s hr hs] at hlt
  exact hirrefl s hlt

end LockOrder
