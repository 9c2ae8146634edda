import Mathlib.Algebra.BigOperators.Group.List.Basic
import Mathlib.Tactic

/-
# Clearing

Accounts of an arbitrary type `α` hold integer balances, and amounts are transferred between
them.  A list of transfers is cleared as a whole: its transfers are made one after the other,
and the first one that its payer cannot cover refuses all of them.

Two facts are what one clears for.  What clearing comes to is the sum of what an account gets
and gives (`Clearing.apply_of_clear`).  And where no transfer touches an account that a later
one is paid from, nothing of it depends on the order: the transfers are cleared if and only if
each of them is covered to begin with (`Clearing.clear_of_covered`,
`Clearing.clear_of_short`).
-/

namespace Clearing

variable {α : Type} [DecidableEq α]

/-- An amount goes from one account to another. -/
structure Transfer (α : Type) where
  payer : α
  payee : α
  amount : ℤ
  deriving DecidableEq, Repr

/-- The balances after a transfer. -/
def move (bal : α → ℤ) (m : Transfer α) : α → ℤ :=
  let paid := Function.update bal m.payer (bal m.payer - m.amount)
  Function.update paid m.payee (paid m.payee + m.amount)

/-- The balances after the transfers, or the account that cannot cover one of them. -/
def clear (bal : α → ℤ) : List (Transfer α) → Except α (α → ℤ)
  | [] => .ok bal
  | m :: ms => if bal m.payer < m.amount then .error m.payer else clear (move bal m) ms

/-- What a transfer changes about an account. -/
def Transfer.flow (a : α) (m : Transfer α) : ℤ :=
  (if a = m.payee then m.amount else 0) - (if a = m.payer then m.amount else 0)

variable {bal bal' : α → ℤ} {m : Transfer α} {ms : List (Transfer α)} {a : α}

lemma move_apply : move bal m a = bal a + m.flow a := by
  unfold move Transfer.flow
  by_cases hpayee : a = m.payee
  · subst hpayee
    rw [Function.update_self, if_pos rfl]
    by_cases hpayer : m.payee = m.payer
    · rw [hpayer, Function.update_self, if_pos rfl]
      ring
    · rw [Function.update_of_ne hpayer, if_neg hpayer]
      ring
  · rw [Function.update_of_ne hpayee, if_neg hpayee]
    by_cases hpayer : a = m.payer
    · rw [hpayer, Function.update_self, if_pos rfl]
      ring
    · rw [Function.update_of_ne hpayer, if_neg hpayer]
      ring

/-- An account that has no part in a transfer keeps its balance. -/
lemma move_of_ne (hpayer : a ≠ m.payer) (hpayee : a ≠ m.payee) : move bal m a = bal a := by
  rw [move_apply, Transfer.flow, if_neg hpayer, if_neg hpayee]
  ring

/-- Clearing adds to each balance what the transfers change about it. -/
theorem apply_of_clear (h : clear bal ms = .ok bal') (a : α) :
    bal' a = bal a + (ms.map (Transfer.flow a)).sum := by
  induction ms generalizing bal with
  | nil =>
    obtain rfl := Except.ok.inj h
    simp
  | cons m ms ih =>
    rw [clear] at h
    split at h
    · cases h
    · rw [ih h, move_apply, List.map_cons, List.sum_cons]
      ring

/-! ## Transfers that do not feed each other -/

/-- No transfer touches an account that a later one is paid from. -/
def Apart (ms : List (Transfer α)) : Prop :=
  ms.Pairwise fun m m' => m'.payer ≠ m.payer ∧ m'.payer ≠ m.payee

lemma Apart.payer_of_move (h : Apart (m :: ms)) {m' : Transfer α} (hm' : m' ∈ ms) :
    move bal m m'.payer = bal m'.payer := by
  obtain ⟨hpayer, hpayee⟩ := (List.pairwise_cons.mp h).1 m' hm'
  exact move_of_ne hpayer hpayee

/-- Transfers that are all covered are cleared. -/
theorem clear_of_covered (h : Apart ms) (hcovered : ∀ m ∈ ms, m.amount ≤ bal m.payer) :
    ∃ bal', clear bal ms = .ok bal' := by
  induction ms generalizing bal with
  | nil => exact ⟨bal, rfl⟩
  | cons m ms ih =>
    have hfirst := hcovered m List.mem_cons_self
    rw [clear, if_neg (by omega)]
    refine ih (List.pairwise_cons.mp h).2 fun m' hm' => ?_
    rw [h.payer_of_move hm']
    exact hcovered m' (List.mem_cons_of_mem _ hm')

/-- The first transfer that is not covered refuses all of them. -/
theorem clear_of_short {rest : List (Transfer α)} (h : Apart (ms ++ m :: rest))
    (hcovered : ∀ m' ∈ ms, m'.amount ≤ bal m'.payer) (hshort : bal m.payer < m.amount) :
    clear bal (ms ++ m :: rest) = .error m.payer := by
  induction ms generalizing bal with
  | nil =>
    rw [List.nil_append, clear, if_pos hshort]
  | cons m₀ ms ih =>
    have hfirst := hcovered m₀ List.mem_cons_self
    rw [List.cons_append, clear, if_neg (by omega)]
    refine ih (List.pairwise_cons.mp h).2 (fun m' hm' => ?_) ?_
    · rw [h.payer_of_move (List.mem_append_left _ hm')]
      exact hcovered m' (List.mem_cons_of_mem _ hm')
    · rw [h.payer_of_move (List.mem_append_right _ List.mem_cons_self)]
      exact hshort

end Clearing
