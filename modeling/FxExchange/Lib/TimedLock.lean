import FxExchange.Lib.Custody
import Mathlib.Data.Set.Subsingleton

/-
# Locks that expire

A lock is granted for a time: whoever gets it holds it until it gives it back or the time is
over, and nobody else gets it before.  Who works under the lock does not look at the clock.
So the lock keeps others out as long as everybody comes to an end in time, and no longer.
-/

namespace TimedLock

open Custody (live live_eq_some_iff)

variable {τ : Type}

/-- A lock with a deadline, and who works under it. -/
structure State (τ : Type) where
  /-- Who holds the lock, and until when. -/
  holder : Option (τ × ℕ)
  /-- Those who work under the lock. -/
  acting : Set τ
  now : ℕ

/-- In each step some of those who act may come to an end. -/
inductive Step (s : State τ) : State τ → Prop
  | pass {time : ℕ} {acting : Set τ} (htime : s.now ≤ time) (hacting : acting ⊆ s.acting) :
    Step s ⟨s.holder, acting, time⟩
  | grant (t : τ) (ttl : ℕ) {acting : Set τ} (hfree : live s.holder s.now = none)
      (hacting : acting ⊆ insert t s.acting) : Step s ⟨some (t, s.now + ttl), acting, s.now⟩
  | release (t : τ) {acting : Set τ} (hown : live s.holder s.now = some t)
      (hacting : acting ⊆ s.acting \ {t}) : Step s ⟨none, acting, s.now⟩

variable {s s' : State τ}

namespace State

/-- Until `time` the lock of those who act does not expire. -/
def InTime (s : State τ) (time : ℕ) : Prop :=
  ∀ t ∈ s.acting, ∀ deadline, s.holder = some (t, deadline) → time < deadline

/-- Whoever acts holds the lock, be it expired or not. -/
def Guarded (s : State τ) : Prop := ∀ t ∈ s.acting, ∃ deadline, s.holder = some (t, deadline)

lemma InTime.mono {time time' : ℕ} (h : s.InTime time') (hle : time ≤ time') : s.InTime time :=
  fun t ht deadline hholder => hle.trans_lt (h t ht deadline hholder)

/-- In time, the lock of those who act is there. -/
lemma Guarded.live_eq (h : s.Guarded) (hin : s.InTime s.now) {t : τ} (ht : t ∈ s.acting) :
    live s.holder s.now = some t := by
  obtain ⟨deadline, hholder⟩ := h t ht
  exact live_eq_some_iff.mpr ⟨deadline, hholder, hin t ht deadline hholder⟩

/-- A step of which nobody who acts sees the lock expire keeps the lock with those who
act. -/
theorem Guarded.step (h : s.Guarded) (hin : s.InTime s.now) (hstep : Step s s') :
    s'.Guarded := by
  cases hstep with
  | pass htime hacting => exact fun t ht => h t (hacting ht)
  | grant t ttl hfree hacting =>
    intro t' ht'
    rcases hacting ht' with rfl | hold
    · exact ⟨s.now + ttl, rfl⟩
    · -- whoever acts already keeps the lock from being free
      rw [h.live_eq hin hold] at hfree
      cases hfree
  | release t hown hacting =>
    intro t' ht'
    obtain ⟨hold, hne⟩ := hacting ht'
    rw [h.live_eq hin hold] at hown
    exact absurd (Option.some.inj hown) hne

/-- One at a time acts. -/
theorem Guarded.subsingleton (h : s.Guarded) : s.acting.Subsingleton := by
  intro t ht t' ht'
  obtain ⟨deadline, hholder⟩ := h t ht
  obtain ⟨deadline', hholder'⟩ := h t' ht'
  rw [hholder] at hholder'
  exact congrArg Prod.fst (Option.some.inj hholder')

end State

end TimedLock
