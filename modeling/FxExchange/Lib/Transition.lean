import Mathlib.Data.List.Induction
import Mathlib.Logic.Relation

/-
# Runs of a partial step function

A system is given by a partial function `step : S → E → Option S`: the event `e` is
possible in the state `s` when `step s e` is defined.  Everything that is left open by the
system (who moves, what an unreliable component answers) is part of the event, so a run is
the same thing as a list of events.  Runs can be restricted to the steps that satisfy a
predicate `ok`, which is how an assumption on the environment is stated.
-/

namespace Transition

variable {S E : Type} {step : S → E → Option S} {ok ok' : S → E → Prop}

/-- `Runs step ok s s'`: the system can go from `s` to `s'` by steps that satisfy `ok`. -/
inductive Runs (step : S → E → Option S) (ok : S → E → Prop) (s : S) : S → Prop
  | refl : Runs step ok s s
  | tail {s' s'' : S} {e : E} (h : Runs step ok s s') (hok : ok s' e)
      (hstep : step s' e = some s'') : Runs step ok s s''

/-- The restriction that allows every step. -/
def anyStep : S → E → Prop := fun _ _ => True

namespace Runs

lemma trans {s s' s'' : S} (h : Runs step ok s s') (h' : Runs step ok s' s'') :
    Runs step ok s s'' := by
  induction h' with
  | refl => exact h
  | tail _ hok hstep ih => exact ih.tail hok hstep

lemma mono (hmono : ∀ s e, ok s e → ok' s e) {s s' : S} (h : Runs step ok s s') :
    Runs step ok' s s' := by
  induction h with
  | refl => exact refl
  | tail _ hok hstep ih => exact ih.tail (hmono _ _ hok) hstep

/-- A predicate that holds at the start and is preserved by every allowed step out of a
state that the run can reach holds wherever the run ends. -/
theorem invariant {I : S → Prop} {s₀ s : S} (h : Runs step ok s₀ s) (h₀ : I s₀)
    (hstep : ∀ s e s', Runs step ok s₀ s → I s → ok s e → step s e = some s' → I s') :
    I s := by
  induction h with
  | refl => exact h₀
  | tail hrun hok hs ih => exact hstep _ _ _ hrun ih hok hs

/-- What is related stays so along a run, if every step of it is matched by a run on the other
side. -/
theorem simulate {S' E' : Type} {step' : S' → E' → Option S'} {ok' : S' → E' → Prop}
    {R : S → S' → Prop} {s₀ s : S} {s₀' : S'} (h : Runs step ok s₀ s) (h₀ : R s₀ s₀')
    (hstep : ∀ s e s₁ s', Runs step ok s₀ s → Runs step' ok' s₀' s' → R s s' → ok s e →
      step s e = some s₁ → ∃ s₁', Runs step' ok' s' s₁' ∧ R s₁ s₁') :
    ∃ s', Runs step' ok' s₀' s' ∧ R s s' := by
  induction h with
  | refl => exact ⟨s₀', refl, h₀⟩
  | tail hrun hok hs ih =>
    obtain ⟨s', hrun', hR⟩ := ih
    obtain ⟨s₁', hmatch, hR'⟩ := hstep _ _ _ _ hrun hrun' hR hok hs
    exact ⟨s₁', hrun'.trans hmatch, hR'⟩

end Runs

instance (s : S) (e : E) : Decidable (anyStep s e) := isTrue trivial

/-- The state in which a list of events ends, if each of them is possible and allowed in its
turn. -/
def runAll (step : S → E → Option S) (ok : S → E → Prop) [∀ s e, Decidable (ok s e)] (s : S) :
    List E → Option S
  | [] => some s
  | e :: es => if ok s e then (step s e).bind fun s' => runAll step ok s' es else none

variable [∀ s e, Decidable (ok s e)]

/-- A list of events that can be played is a run. -/
lemma runs_of_runAll {es : List E} {s s' : S} (h : runAll step ok s es = some s') :
    Runs step ok s s' := by
  induction es generalizing s with
  | nil =>
    simp only [runAll, Option.some.injEq] at h
    exact h ▸ Runs.refl
  | cons e es ih =>
    simp only [runAll] at h
    split at h
    · rename_i hok
      obtain ⟨s₁, hs₁, hrest⟩ := Option.bind_eq_some_iff.mp h
      exact (Runs.refl.tail hok hs₁).trans (ih hrest)
    · cases h

/-- What is computed of the end of a list of events holds at the end of a run. -/
lemma exists_of_runAll {es : List E} {s : S} {P : S → Bool}
    (h : (runAll step ok s es).any P = true) : ∃ s', Runs step ok s s' ∧ P s' = true := by
  obtain ⟨s', hs', hP⟩ := (Option.any_eq_true ..).mp h
  exact ⟨s', runs_of_runAll hs', hP⟩

/-! ## Inside a run -/

lemma runAll_append {es₁ es₂ : List E} {s : S} : runAll step ok s (es₁ ++ es₂) =
    (runAll step ok s es₁).bind fun s' => runAll step ok s' es₂ := by
  induction es₁ generalizing s with
  | nil => rfl
  | cons e es ih =>
    simp only [List.cons_append, runAll]
    split
    · rw [Option.bind_assoc]
      congr 1
      funext s'
      exact ih
    · rfl

variable (step ok)

/-- The events lead through a state that satisfies `P`. -/
def Passes (s : S) (es : List E) (P : S → Prop) : Prop :=
  ∃ es₁ es₂ s', es = es₁ ++ es₂ ∧ runAll step ok s es₁ = some s' ∧ P s'

/-- One of the events is a step that satisfies `R`. -/
def Takes (s : S) (es : List E) (R : S → E → S → Prop) : Prop :=
  ∃ es₁ e es₂ s₁ s₂, es = es₁ ++ e :: es₂ ∧ runAll step ok s es₁ = some s₁ ∧
    step s₁ e = some s₂ ∧ R s₁ e s₂

variable {step ok}

lemma Passes.mono {s : S} {es : List E} {P Q : S → Prop} (h : Passes step ok s es P)
    (hPQ : ∀ s, P s → Q s) : Passes step ok s es Q := by
  obtain ⟨es₁, es₂, s', hes, hrun, hP⟩ := h
  exact ⟨es₁, es₂, s', hes, hrun, hPQ s' hP⟩

/-- What holds at the beginning, and is kept by each of the events in its place, holds at the
end. -/
theorem invariant_of_runAll {I : S → Prop} {s s' : S} {es : List E}
    (h : runAll step ok s es = some s') (h₀ : I s)
    (hstep : ∀ es₁ e es₂ s₁ s₂, es = es₁ ++ e :: es₂ → runAll step ok s es₁ = some s₁ → I s₁ →
      step s₁ e = some s₂ → I s₂) : I s' := by
  have hprefix (es₁ : List E) : ∀ es₂ s₁, es = es₁ ++ es₂ → runAll step ok s es₁ = some s₁ →
      I s₁ := by
    induction es₁ using List.reverseRecOn with
    | nil =>
      intro es₂ s₁ _ hrun
      obtain rfl := Option.some.inj hrun
      exact h₀
    | append_singleton es₁ e ih =>
      intro es₂ s₂ hes hrun
      rw [runAll_append] at hrun
      obtain ⟨s₁, hrun₁, hlast⟩ := Option.bind_eq_some_iff.mp hrun
      have hes' : es = es₁ ++ e :: es₂ := by rw [hes, List.append_assoc, List.singleton_append]
      simp only [runAll] at hlast
      split at hlast
      · obtain ⟨s₂', hs₂, heq⟩ := Option.bind_eq_some_iff.mp hlast
        obtain rfl := Option.some.inj heq
        exact hstep es₁ e es₂ s₁ s₂' hes' hrun₁ (ih (e :: es₂) s₁ hes' hrun₁) hs₂
      · cases hlast
  exact hprefix es [] s' (List.append_nil es).symm h

end Transition
