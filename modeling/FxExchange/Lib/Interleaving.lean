import FxExchange.Lib.Program
import FxExchange.Lib.Transition
import Mathlib.Order.Nat
import Mathlib.Tactic.Common

/-
# Programs in any interleaving

A server runs one program for each request, and all of them issue their commands to one
store, one command at a time and in any order.  Requests arrive at any time, any command may
fail, and a process may die between two commands.  A command that fails has had no effect: one
that has had its effect and whose answer is lost is a process that dies after it.

Each thread keeps what it remembers of its commands and their answers.  This is a history
variable: no program reads it.
-/

namespace Interleaving

/-- A request being served. -/
structure Thread {C : Type} (R : C → Type) (ε α L : Type) where
  state : L
  prog : Prog R ε α
  /-- Its process has not died. -/
  alive : Bool := true

/-- The programs of a server, and its store.  What the surroundings choose (a random number,
for instance) comes from `X`. -/
structure Server {C : Type} (R : C → Type) (ε α Q L σ X : Type) where
  program : Q → Prog R ε α
  /-- What a thread remembers at the beginning, and of a command with its answer. -/
  start : Q → L
  after : σ → L → (c : C) → Except ε (R c) → L
  exec : σ → X → (c : C) → σ × Except ε (R c)
  unavailable : ε
  wait : σ → ℕ → σ

/-- Threads over a shared store. -/
structure Pool {C : Type} (R : C → Type) (ε α L σ : Type) where
  store : σ
  /-- The identifier of the next thread. -/
  seq : ℕ
  threads : ℕ → Option (Thread R ε α L)

/-- What happens next: a thread arrives or moves, or time passes. -/
inductive Event (Q X : Type)
  | spawn (q : Q)
  /-- A thread issues its next command. -/
  | run (t : ℕ) (x : X)
  /-- The next command of a thread fails. -/
  | fail (t : ℕ)
  /-- The process of a thread dies. -/
  | crash (t : ℕ)
  | tick (ms : ℕ)

variable {C : Type} {R : C → Type} {ε α Q L σ X : Type}

namespace Thread

/-- The command that a thread issues next. -/
def next (th : Thread R ε α L) : Option C :=
  match th.alive, th.prog with
  | true, .call c _ => some c
  | _, _ => none

/-- What the request has answered, once it has. -/
def answer (th : Thread R ε α L) : Option (Except ε α) :=
  match th.alive, th.prog with
  | true, .pure a => some (.ok a)
  | true, .throw e => some (.error e)
  | _, _ => none

@[simp] lemma next_call (l : L) (c : C) (k : Except ε (R c) → Prog R ε α) :
    (⟨l, .call c k, true⟩ : Thread R ε α L).next = some c := rfl

@[simp] lemma next_dead (l : L) (p : Prog R ε α) :
    (⟨l, p, false⟩ : Thread R ε α L).next = none := rfl

/-- A thread that has a command to issue is alive and in front of it. -/
lemma eq_of_next {th : Thread R ε α L} {c : C} (h : th.next = some c) :
    ∃ k, th = ⟨th.state, .call c k, true⟩ := by
  obtain ⟨l, p, alive⟩ := th
  unfold next at h
  split at h
  · rename_i c' k halive hprog
    obtain rfl : alive = true := halive
    obtain rfl : p = .call c' k := hprog
    obtain rfl := Option.some.inj h
    exact ⟨k, rfl⟩
  · cases h

/-- The answer of a thread satisfies the postcondition of what was left of its program. -/
lemma post_of_wp {G : Type} {D : Discipline R ε G} {P : G → Except ε α → Prop} {g : G}
    {th : Thread R ε α L} {r : Except ε α} (h : th.prog.wp D P g)
    (hanswer : th.answer = some r) : P g r := by
  obtain ⟨l, p, alive⟩ := th
  unfold answer at hanswer
  split at hanswer
  · rename_i a halive hprog
    obtain rfl : p = .pure a := hprog
    obtain rfl := Option.some.inj hanswer
    exact h
  · rename_i e halive hprog
    obtain rfl : p = .throw e := hprog
    obtain rfl := Option.some.inj hanswer
    exact h
  · cases hanswer

lemma post_of_answer {D : Discipline R ε L} {P : L → Except ε α → Prop}
    {th : Thread R ε α L} {r : Except ε α} (h : th.prog.wp D P th.state)
    (hanswer : th.answer = some r) : P th.state r := post_of_wp h hanswer

end Thread

namespace Pool

variable {s : Pool R ε α L σ} {t t' : ℕ} {th th' : Thread R ε α L}

/-- No thread has arrived. -/
def initial (store : σ) : Pool R ε α L σ := ⟨store, 0, fun _ => none⟩

/-- Thread `t` is `th` from now on. -/
def setThread (s : Pool R ε α L σ) (t : ℕ) (th : Thread R ε α L) : Pool R ε α L σ :=
  { s with threads := Function.update s.threads t (some th) }

/-- The pool with one more thread. -/
def spawn (s : Pool R ε α L σ) (th : Thread R ε α L) : Pool R ε α L σ :=
  { s.setThread s.seq th with seq := s.seq + 1 }

/-- The command that a thread issues next. -/
def next (s : Pool R ε α L σ) (t : ℕ) : Option C := (s.threads t).bind Thread.next

/-- What a thread has answered, once it has. -/
def answer (s : Pool R ε α L σ) (t : ℕ) : Option (Except ε α) :=
  (s.threads t).bind Thread.answer

@[simp] lemma setThread_store : (s.setThread t th).store = s.store := rfl

@[simp] lemma setThread_self : (s.setThread t th).threads t = some th :=
  Function.update_self ..

lemma setThread_of_ne (h : t' ≠ t) : (s.setThread t th).threads t' = s.threads t' :=
  Function.update_of_ne h ..

/-- A thread of the pool is the one that was set, or was there before. -/
lemma of_setThread (h : (s.setThread t th).threads t' = some th') :
    t' = t ∧ th' = th ∨ t' ≠ t ∧ s.threads t' = some th' := by
  rcases eq_or_ne t' t with rfl | hne
  · rw [setThread_self] at h
    exact .inl ⟨rfl, (Option.some.inj h).symm⟩
  · rw [setThread_of_ne hne] at h
    exact .inr ⟨hne, h⟩

lemma next_eq (h : s.threads t = some th) : s.next t = th.next := by
  rw [next, h, Option.bind_some]

lemma answer_eq (h : s.threads t = some th) : s.answer t = th.answer := by
  rw [answer, h, Option.bind_some]

lemma eq_of_next {c : C} (h : s.next t = some c) :
    ∃ l k, s.threads t = some ⟨l, .call c k, true⟩ := by
  obtain ⟨th, hth, hnext⟩ := Option.bind_eq_some_iff.mp h
  obtain ⟨k, hk⟩ := Thread.eq_of_next hnext
  exact ⟨th.state, k, hth.trans (congrArg some hk)⟩

end Pool

/-! ## Steps -/

namespace Server

variable (M : Server R ε α Q L σ X)

/-- A thread at the beginning. -/
def thread (q : Q) : Thread R ε α L := ⟨M.start q, M.program q, true⟩

/-- A thread goes on with an answer. -/
def resume (s : Pool R ε α L σ) (t : ℕ) (l : L) (c : C) (k : Except ε (R c) → Prog R ε α)
    (store : σ) (r : Except ε (R c)) : Pool R ε α L σ :=
  { s with store }.setThread t ⟨M.after s.store l c r, k r, true⟩

/-- What happens to the next command of a thread. -/
def runThread (s : Pool R ε α L σ) (t : ℕ) (x : X) : Thread R ε α L → Option (Pool R ε α L σ)
  | ⟨l, .call c k, true⟩ =>
    some (M.resume s t l c k (M.exec s.store x c).1 (M.exec s.store x c).2)
  | _ => none

/-- The next command of a live thread fails: the thread goes on with the error. -/
def failThread (s : Pool R ε α L σ) (t : ℕ) : Thread R ε α L → Option (Pool R ε α L σ)
  | ⟨l, .call c k, true⟩ => some (M.resume s t l c k s.store (.error M.unavailable))
  | _ => none

/-- A live thread dies where it is. -/
def crashThread (s : Pool R ε α L σ) (t : ℕ) : Thread R ε α L → Option (Pool R ε α L σ)
  | ⟨l, .call c k, true⟩ => some (s.setThread t ⟨l, .call c k, false⟩)
  | _ => none

/-- What comes of an event, if it can happen. -/
def step (s : Pool R ε α L σ) : Event Q X → Option (Pool R ε α L σ)
  | .spawn q => some (s.spawn (M.thread q))
  | .run t x => (s.threads t).bind (M.runThread s t x)
  | .fail t => (s.threads t).bind (M.failThread s t)
  | .crash t => (s.threads t).bind (crashThread s t)
  | .tick ms => some { s with store := M.wait s.store ms }

/-- The ways in which a pool can move. -/
inductive Step (s : Pool R ε α L σ) : Event Q X → Pool R ε α L σ → Prop
  | spawn (q : Q) : Step s (.spawn q) (s.spawn (M.thread q))
  | run {t : ℕ} (x : X) {l : L} {c : C} {k : Except ε (R c) → Prog R ε α}
      (hth : s.threads t = some ⟨l, .call c k, true⟩) :
    Step s (.run t x) (M.resume s t l c k (M.exec s.store x c).1 (M.exec s.store x c).2)
  | fail {t : ℕ} {l : L} {c : C} {k : Except ε (R c) → Prog R ε α}
      (hth : s.threads t = some ⟨l, .call c k, true⟩) :
    Step s (.fail t) (M.resume s t l c k s.store (.error M.unavailable))
  | crash {t : ℕ} {l : L} {c : C} {k : Except ε (R c) → Prog R ε α}
      (hth : s.threads t = some ⟨l, .call c k, true⟩) :
    Step s (.crash t) (s.setThread t ⟨l, .call c k, false⟩)
  | tick (ms : ℕ) : Step s (.tick ms) { s with store := M.wait s.store ms }

variable {M} {s s' s₀ : Pool R ε α L σ} {e : Event Q X}
  {ok : Pool R ε α L σ → Event Q X → Prop} {t : ℕ} {th : Thread R ε α L}

lemma step_of_eq (h : M.step s e = some s') : M.Step s e s' := by
  cases e with
  | spawn q =>
    obtain rfl := Option.some.inj h
    exact .spawn q
  | run t x =>
    obtain ⟨th, hth, hrun⟩ := Option.bind_eq_some_iff.mp h
    unfold runThread at hrun
    split at hrun
    · obtain rfl := Option.some.inj hrun
      exact .run x hth
    · cases hrun
  | fail t =>
    obtain ⟨th, hth, hfail⟩ := Option.bind_eq_some_iff.mp h
    unfold failThread at hfail
    split at hfail
    · obtain rfl := Option.some.inj hfail
      exact .fail hth
    · cases hfail
  | crash t =>
    obtain ⟨th, hth, hcrash⟩ := Option.bind_eq_some_iff.mp h
    unfold crashThread at hcrash
    split at hcrash
    · obtain rfl := Option.some.inj hcrash
      exact .crash hth
    · cases hcrash
  | tick ms =>
    obtain rfl := Option.some.inj h
    exact .tick ms

lemma step_run (x : X) {l : L} {c : C} {k : Except ε (R c) → Prog R ε α}
    (hth : s.threads t = some ⟨l, .call c k, true⟩) :
    M.step s (.run t x) =
      some (M.resume s t l c k (M.exec s.store x c).1 (M.exec s.store x c).2) := by
  rw [step, hth]
  rfl

/-- The answers that an event gives to the command of a thread. -/
inductive Answers (M : Server R ε α Q L σ X) (s : Pool R ε α L σ) (t : ℕ) (c : C) :
    Event Q X → Except ε (R c) → Prop
  | run (x : X) : Answers M s t c (.run t x) (M.exec s.store x c).2
  | fail : Answers M s t c (.fail t) (.error M.unavailable)

/-- A thread after a step: it is new, it has not moved, or it has an answer. -/
lemma Step.thread (h : M.Step s e s') (hth : s'.threads t = some th) :
    (∃ q, e = .spawn q ∧ t = s.seq ∧ th = M.thread q) ∨
    (∃ th₀, s.threads t = some th₀ ∧ th.state = th₀.state ∧ th.prog = th₀.prog ∧
      (th.alive = th₀.alive ∨ e = .crash t)) ∨
    ∃ l c k r, s.threads t = some ⟨l, .call c k, true⟩ ∧ M.Answers s t c e r ∧
      th = ⟨M.after s.store l c r, k r, true⟩ := by
  have hkept (hold : s.threads t = some th) : ∃ th₀, s.threads t = some th₀ ∧
      th.state = th₀.state ∧ th.prog = th₀.prog ∧ (th.alive = th₀.alive ∨ e = .crash t) :=
    ⟨th, hold, rfl, rfl, .inl rfl⟩
  cases h with
  | spawn q =>
    rcases Pool.of_setThread hth with ⟨rfl, rfl⟩ | ⟨-, hold⟩
    · exact .inl ⟨q, rfl, rfl, rfl⟩
    · exact .inr (.inl (hkept hold))
  | run x hrun =>
    rcases Pool.of_setThread hth with ⟨rfl, rfl⟩ | ⟨-, hold⟩
    · exact .inr (.inr ⟨_, _, _, _, hrun, .run x, rfl⟩)
    · exact .inr (.inl (hkept hold))
  | fail hfail =>
    rcases Pool.of_setThread hth with ⟨rfl, rfl⟩ | ⟨-, hold⟩
    · exact .inr (.inr ⟨_, _, _, _, hfail, .fail, rfl⟩)
    · exact .inr (.inl (hkept hold))
  | crash hcrash =>
    rcases Pool.of_setThread hth with ⟨rfl, rfl⟩ | ⟨-, hold⟩
    · exact .inr (.inl ⟨_, hcrash, rfl, rfl, .inr rfl⟩)
    · exact .inr (.inl (hkept hold))
  | tick ms => exact .inr (.inl (hkept hth))

/-- The store after a step. -/
lemma Step.store (h : M.Step s e s') :
    s'.store = s.store ∨ (∃ ms, s'.store = M.wait s.store ms) ∨
    ∃ t x l c k, e = .run t x ∧ s.threads t = some ⟨l, .call c k, true⟩ ∧
      s'.store = (M.exec s.store x c).1 := by
  cases h with
  | run x hth => exact .inr (.inr ⟨_, x, _, _, _, rfl, hth, rfl⟩)
  | tick ms => exact .inr (.inl ⟨ms, rfl⟩)
  | _ => exact .inl rfl

/-! ## Identifiers -/

/-- Identifiers from the next one on are free. -/
def Fresh (s : Pool R ε α L σ) : Prop := ∀ t, s.seq ≤ t → s.threads t = none

lemma fresh_initial (store : σ) : Fresh (Pool.initial store : Pool R ε α L σ) := fun _ _ => rfl

lemma Fresh.lt (h : Fresh s) (hth : s.threads t = some th) : t < s.seq := by
  by_contra hle
  rw [h t (not_lt.mp hle)] at hth
  cases hth

lemma Fresh.setThread (h : Fresh s) (store : σ) (hth : s.threads t = some th)
    (th' : Thread R ε α L) : Fresh ({ s with store }.setThread t th') := by
  intro t' hle
  rw [Pool.setThread_of_ne ((h.lt hth).trans_le hle).ne']
  exact h t' hle

lemma Fresh.step (h : Fresh s) (hstep : M.step s e = some s') : Fresh s' := by
  cases step_of_eq hstep with
  | spawn q =>
    intro t hle
    have hlt : s.seq < t := hle
    show (s.setThread s.seq (M.thread q)).threads t = none
    rw [Pool.setThread_of_ne hlt.ne']
    exact h t hlt.le
  | run x hth => exact h.setThread _ hth _
  | fail hth => exact h.setThread _ hth _
  | crash hth => exact h.setThread s.store hth _
  | tick ms => exact h

lemma Fresh.runs (h : Fresh s) (hrun : Transition.Runs M.step ok s s') : Fresh s' :=
  hrun.invariant h fun _ _ _ _ hfresh _ hstep => hfresh.step hstep

/-- A thread stays, and moves only by its own answers. -/
lemma exists_thread (hfresh : Fresh s) (hth : s.threads t = some th)
    (hstep : M.step s e = some s') : ∃ th', s'.threads t = some th' ∧
      ((th'.state = th.state ∧ th'.prog = th.prog ∧ (th'.alive = th.alive ∨ e = .crash t)) ∨
      ∃ c k r, th = ⟨th.state, .call c k, true⟩ ∧ M.Answers s t c e r ∧
        th' = ⟨M.after s.store th.state c r, k r, true⟩) := by
  have hsome : s'.threads t ≠ none := by
    have hlt := hfresh.lt hth
    cases step_of_eq hstep with
    | spawn q =>
      show (s.setThread s.seq (M.thread q)).threads t ≠ none
      rw [Pool.setThread_of_ne hlt.ne, hth]
      simp
    | tick ms =>
      show s.threads t ≠ none
      simp [hth]
    | run x hmoved | fail hmoved | crash hmoved =>
      rename_i t' l c k
      rcases eq_or_ne t t' with rfl | hne
      · simp [resume]
      · show Function.update s.threads t' _ t ≠ none
        rw [Function.update_of_ne hne, hth]
        simp
  obtain ⟨th', hth'⟩ := Option.ne_none_iff_exists'.mp hsome
  refine ⟨th', hth', ?_⟩
  rcases (step_of_eq hstep).thread hth' with ⟨q, -, ht, -⟩ | ⟨th₀, hth₀, hkept⟩ |
    ⟨l, c, k, r, hth₀, hanswers, hmoved⟩
  · exact absurd ht (hfresh.lt hth).ne
  · obtain rfl := Option.some.inj (hth.symm.trans hth₀)
    exact .inl hkept
  · obtain rfl := Option.some.inj (hth.symm.trans hth₀)
    exact .inr ⟨c, k, r, rfl, hanswers, hmoved⟩

/-- A thread that has nothing more to issue stays as it is. -/
lemma exists_thread_of_next_eq_none (hfresh : Fresh s) (hth : s.threads t = some th)
    (hnext : th.next = none) (hstep : M.step s e = some s') :
    ∃ th', s'.threads t = some th' ∧ th'.state = th.state ∧ th'.next = none := by
  obtain ⟨th', hth', ⟨hstate, hprog, halive | rfl⟩ | ⟨c, k, r, heq, -⟩⟩ :=
    exists_thread hfresh hth hstep
  · obtain ⟨l, p, alive⟩ := th'
    obtain rfl : p = th.prog := hprog
    obtain rfl : alive = th.alive := halive
    exact ⟨_, hth', hstate, hnext⟩
  · cases step_of_eq hstep with
    | crash hcalled =>
      obtain rfl := Option.some.inj (hth.symm.trans hcalled)
      cases hnext
  · rw [heq] at hnext
    cases hnext

/-- A thread that has answered stays as it is. -/
lemma thread_of_answer (hfresh : Fresh s) (hrun : Transition.Runs M.step ok s s')
    (hth : s.threads t = some th) {a : Except ε α} (ha : th.answer = some a) :
    s'.threads t = some th := by
  refine hrun.invariant (I := fun s' => s'.threads t = some th) hth
    fun s₁ e s₂ hrun₁ hth₁ _ hstep => ?_
  obtain ⟨th', hth', ⟨hstate, hprog, halive | rfl⟩ | ⟨c, k, r, heq, -⟩⟩ :=
    exists_thread (hfresh.runs hrun₁) hth₁ hstep
  · obtain ⟨l, p, alive⟩ := th'
    obtain rfl : l = th.state := hstate
    obtain rfl : p = th.prog := hprog
    obtain rfl : alive = th.alive := halive
    exact hth'
  · cases step_of_eq hstep with
    | crash hcalled =>
      obtain rfl := Option.some.inj (hth₁.symm.trans hcalled)
      cases ha
  · rw [heq] at ha
    cases ha

lemma seq_le_of_runs (hrun : Transition.Runs M.step ok s₀ s) : s₀.seq ≤ s.seq := by
  refine hrun.invariant (I := fun s => s₀.seq ≤ s.seq) le_rfl fun s e s' _ hle _ hstep => ?_
  cases step_of_eq hstep with
  | spawn q => exact Nat.le_succ_of_le hle
  | _ => exact hle

/-- What a thread remembers later, for a relation that each answer keeps to. -/
lemma exists_thread_of_runs {B : L → L → Prop} (hrefl : ∀ l, B l l)
    (htrans : ∀ l l' l'', B l l' → B l' l'' → B l l'')
    (hafter : ∀ s t l c k r e, Transition.Runs M.step ok s₀ s → ok s e →
      s.threads t = some ⟨l, .call c k, true⟩ → M.Answers s t c e r → B l (M.after s.store l c r))
    (hfresh : Fresh s₀) (hrun : Transition.Runs M.step ok s₀ s) (hth : s₀.threads t = some th) :
    ∃ th', s.threads t = some th' ∧ B th.state th'.state := by
  refine hrun.invariant (I := fun s => ∃ th', s.threads t = some th' ∧ B th.state th'.state)
    ⟨th, hth, hrefl _⟩ fun s e s' hs hI hok hstep => ?_
  obtain ⟨th₁, hth₁, hB⟩ := hI
  obtain ⟨th₂, hth₂, ⟨hstate, -⟩ | ⟨c, k, r, heq, hanswers, rfl⟩⟩ :=
    exists_thread (hfresh.runs hs) hth₁ hstep
  · exact ⟨th₂, hth₂, hstate ▸ hB⟩
  · rw [heq] at hth₁
    exact ⟨_, hth₂, htrans _ _ _ hB (hafter s t _ c k r e hs hok hth₁ hanswers)⟩

/-! ## Threads that keep to a discipline -/

variable {D : Discipline R ε L} {P : L → Except ε α → Prop}

/-- Every thread keeps to the discipline in what is left of its program. -/
def Obeys (D : Discipline R ε L) (P : L → Except ε α → Prop) (s : Pool R ε α L σ) : Prop :=
  ∀ t th, s.threads t = some th → th.prog.wp D P th.state

/-- The command that a thread is in front of is one that it may issue. -/
lemma Obeys.guard (h : Obeys D P s) {l : L} {c : C} {k : Except ε (R c) → Prog R ε α}
    (hth : s.threads t = some ⟨l, .call c k, true⟩) : D.guard l c := (h t _ hth).1

lemma Obeys.step (h : Obeys D P s) (hprogram : ∀ q, (M.program q).wp D P (M.start q))
    (hanswers : ∀ t l c k r, s.threads t = some ⟨l, .call c k, true⟩ → D.guard l c →
      M.Answers s t c e r → D.outcome l c r (M.after s.store l c r))
    (hstep : M.step s e = some s') : Obeys D P s' := by
  intro t th hth
  rcases (step_of_eq hstep).thread hth with ⟨q, -, -, rfl⟩ | ⟨th₀, hth₀, hstate, hprog, -⟩ |
    ⟨l, c, k, r, hth₀, hanswer, rfl⟩
  · exact hprogram q
  · rw [hstate, hprog]
    exact h t th₀ hth₀
  · obtain ⟨hguard, hkeep⟩ := h t _ hth₀
    exact hkeep r _ (hanswers t l c k r hth₀ hguard hanswer)

/-- A single thread keeps to its discipline along a run in which its process does not die and
its commands are answered as this discipline says. -/
lemma exists_wp_of_runs (hfresh : Fresh s₀) (hcrash : ∀ s, ¬ ok s (.crash t))
    (hanswers : ∀ s l c k r e, Transition.Runs M.step ok s₀ s → ok s e →
      s.threads t = some ⟨l, .call c k, true⟩ → M.Answers s t c e r →
      D.outcome l c r (M.after s.store l c r))
    (hrun : Transition.Runs M.step ok s₀ s) (hth : s₀.threads t = some th)
    (halive : th.alive = true) (hwp : th.prog.wp D P th.state) :
    ∃ th', s.threads t = some th' ∧ th'.alive = true ∧ th'.prog.wp D P th'.state := by
  refine hrun.invariant (I := fun s => ∃ th', s.threads t = some th' ∧ th'.alive = true ∧
    th'.prog.wp D P th'.state) ⟨th, hth, halive, hwp⟩ fun s e s' hs hI hok hstep => ?_
  obtain ⟨th₁, hth₁, halive₁, hwp₁⟩ := hI
  obtain ⟨th₂, hth₂, ⟨hstate, hprog, hkept | rfl⟩ | ⟨c, k, r, heq, hanswer, rfl⟩⟩ :=
    exists_thread (hfresh.runs hs) hth₁ hstep
  · rw [← hstate, ← hprog] at hwp₁
    exact ⟨th₂, hth₂, hkept.trans halive₁, hwp₁⟩
  · exact absurd hok (hcrash s)
  · rw [heq] at hth₁ hwp₁
    exact ⟨_, hth₂, rfl, hwp₁.2 r _ (hanswers s _ c k r e hs hok hth₁ hanswer)⟩

/-- The threads that have begun since keep to a discipline that is kept up since. -/
lemma wp_of_begun (hfresh : Fresh s₀) (hprogram : ∀ q, (M.program q).wp D P (M.start q))
    (hanswers : ∀ s t l c k r e, Transition.Runs M.step ok s₀ s →
      s.threads t = some ⟨l, .call c k, true⟩ → M.Answers s t c e r →
      D.outcome l c r (M.after s.store l c r))
    (hrun : Transition.Runs M.step ok s₀ s) (ht : s₀.seq ≤ t) (hth : s.threads t = some th) :
    th.prog.wp D P th.state := by
  revert t th
  refine hrun.invariant (I := fun s => ∀ {t th}, s₀.seq ≤ t → s.threads t = some th →
    th.prog.wp D P th.state) ?_ fun s e s' hs hI _ hstep t th ht hth => ?_
  · intro t th ht hth
    rw [hfresh t ht] at hth
    cases hth
  · rcases (step_of_eq hstep).thread hth with ⟨q, -, -, rfl⟩ | ⟨th₀, hth₀, hstate, hprog, -⟩ |
      ⟨l, c, k, r, hth₀, hanswer, rfl⟩
    · exact hprogram q
    · rw [hstate, hprog]
      exact hI ht hth₀
    · obtain ⟨-, hkeep⟩ := hI ht hth₀
      exact hkeep r _ (hanswers s t l c k r e hs hth₀ hanswer)

/-- The threads of one kind, with a memory of their own beside the recorded one: they keep to a
discipline on it, and what it says of the state stays true. -/
lemma exists_memory_of_runs {G : Type} {E : Discipline R ε G} {P' : G → Except ε α → Prop}
    {K : L → Prop} {I : Pool R ε α L σ → ℕ → L → G → Prop} (hempty : ∀ t, s₀.threads t = none)
    (hkind : ∀ store l c r, K (M.after store l c r) → K l)
    (hnew : ∀ s t q, K (M.start q) → ∃ g, (M.program q).wp E P' g ∧ I s t (M.start q) g)
    (hkept : ∀ s e s' t l g, Transition.Runs M.step ok s₀ s → ok s e → M.step s e = some s' →
      I s t l g → I s' t l g)
    (hmoved : ∀ s e s' t l c k r g, Transition.Runs M.step ok s₀ s → ok s e →
      M.step s e = some s' → s.threads t = some ⟨l, .call c k, true⟩ → M.Answers s t c e r →
      K l → E.guard g c → I s' t l g → ∃ g', E.outcome g c r g' ∧ I s' t (M.after s.store l c r) g')
    (hrun : Transition.Runs M.step ok s₀ s) (hth : s.threads t = some th) (hk : K th.state) :
    ∃ g, th.prog.wp E P' g ∧ I s t th.state g := by
  refine hrun.invariant (I := fun s => ∀ t th, s.threads t = some th → K th.state →
    ∃ g, th.prog.wp E P' g ∧ I s t th.state g) ?_ ?_ t th hth hk
  · intro t th hth
    rw [hempty t] at hth
    cases hth
  · intro s e s' hs hI hok hstep t th hth hk
    rcases (step_of_eq hstep).thread hth with ⟨q, -, -, rfl⟩ | ⟨th₀, hth₀, hstate, hprog, -⟩ |
      ⟨l, c, k, r, hth₀, hanswer, rfl⟩
    · exact hnew s' t q hk
    · rw [hstate] at hk ⊢
      rw [hprog]
      obtain ⟨g, hwp, hg⟩ := hI t th₀ hth₀ hk
      exact ⟨g, hwp, hkept s e s' t _ g hs hok hstep hg⟩
    · have hold := hkind _ _ _ _ hk
      obtain ⟨g, ⟨hguard, hwp⟩, hg⟩ := hI t _ hth₀ hold
      obtain ⟨g', hout, hg'⟩ := hmoved s e s' t l c k r g hs hok hstep hth₀ hanswer hold hguard
        (hkept s e s' t l g hs hok hstep hg)
      exact ⟨g', hwp r g' hout, hg'⟩

end Server

/-! ## Counting threads -/

/-- Two counts below `n` of what differs in one place only. -/
lemma countP_range_add {f g : ℕ → Bool} {t n : ℕ} (h : ∀ t' ≠ t, g t' = f t') (hlt : t < n) :
    (List.range n).countP g + (f t).toNat = (List.range n).countP f + (g t).toNat := by
  induction n with
  | zero => omega
  | succ n ih =>
    have hsingle (f : ℕ → Bool) : [n].countP f = (f n).toNat := by
      rw [List.countP_singleton]
      cases f n <;> rfl
    simp only [List.range_succ, List.countP_append, hsingle]
    rcases Nat.lt_succ_iff_lt_or_eq.mp hlt with hlt | rfl
    · rw [h n hlt.ne']
      have := ih hlt
      omega
    · have hrest : (List.range t).countP g = (List.range t).countP f := by
        refine List.countP_congr fun t' ht' => ?_
        rw [h t' (List.mem_range.mp ht').ne]
      omega

lemma countP_le_add {p q r : ℕ → Bool} {ts : List ℕ} (h : ∀ t ∈ ts, p t → q t ∨ r t) :
    ts.countP p ≤ ts.countP q + ts.countP r := by
  induction ts with
  | nil => simp
  | cons t ts ih =>
    have hrest := ih fun t' ht' => h t' (List.mem_cons_of_mem _ ht')
    have hhead := h t List.mem_cons_self
    simp only [List.countP_cons]
    split_ifs <;> simp_all <;> omega

namespace Pool

variable {s : Pool R ε α L σ} {t : ℕ} {th th' : Thread R ε α L} {P P' P'' : Thread R ε α L → Bool}

/-- The number of threads that satisfy `P`. -/
def count (P : Thread R ε α L → Bool) (s : Pool R ε α L σ) : ℕ :=
  (List.range s.seq).countP fun t => (s.threads t).any P

/-- The threads of two kinds. -/
lemma count_le_add (h : ∀ t th, s.threads t = some th → P th → P' th ∨ P'' th) :
    s.count P ≤ s.count P' + s.count P'' := by
  refine countP_le_add fun t _ hP => ?_
  obtain ⟨th, hth, hPth⟩ := (Option.any_eq_true ..).mp hP
  simp only [hth, Option.any_some]
  exact h t th hth hPth

lemma count_mono (h : ∀ t th, s.threads t = some th → P th → P' th) :
    s.count P ≤ s.count P' := by
  refine List.countP_mono_left fun t _ hP => ?_
  obtain ⟨th, hth, hPth⟩ := (Option.any_eq_true ..).mp hP
  simp only [hth, Option.any_some]
  exact h t th hth hPth

/-- Where what a thread satisfies stays so, the count does not go down. -/
lemma count_le_count {s' : Pool R ε α L σ} (hseq : s.seq ≤ s'.seq)
    (hkeep : ∀ t th, s.threads t = some th → P th →
      ∃ th', s'.threads t = some th' ∧ P th') : s.count P ≤ s'.count P := by
  have hmono : s.count P ≤ (List.range s.seq).countP fun t => (s'.threads t).any P := by
    refine List.countP_mono_left fun t _ hP => ?_
    obtain ⟨th, hth, hPth⟩ := (Option.any_eq_true ..).mp hP
    obtain ⟨th', hth', hPth'⟩ := hkeep t th hth hPth
    rw [hth', Option.any_some]
    exact hPth'
  exact hmono.trans (List.range_sublist.mpr hseq).countP_le

lemma count_pos (hfresh : Server.Fresh s) (hth : s.threads t = some th) (hP : P th) :
    0 < s.count P := by
  refine List.countP_pos_iff.mpr ⟨t, List.mem_range.mpr (hfresh.lt hth), ?_⟩
  rw [hth, Option.any_some]
  exact hP

lemma count_eq_zero (h : ∀ t th, s.threads t = some th → P th = false) : s.count P = 0 := by
  refine List.countP_eq_zero.mpr fun t _ hP => ?_
  obtain ⟨th, hth, hPth⟩ := (Option.any_eq_true ..).mp hP
  rw [h t th hth] at hPth
  cases hPth

/-- The count changes by the thread that has moved. -/
lemma count_setThread (hfresh : Server.Fresh s) (hth : s.threads t = some th) (store : σ)
    (th' : Thread R ε α L) :
    ({ s with store }.setThread t th').count P + (P th).toNat =
      s.count P + (P th').toNat := by
  have h := countP_range_add (n := s.seq) (f := fun t => (s.threads t).any P)
    (g := fun t' => (({ s with store }.setThread t th').threads t').any P) (t := t)
    (fun t' hne => by rw [setThread_of_ne hne]) (hfresh.lt hth)
  rw [hth, setThread_self, Option.any_some, Option.any_some] at h
  exact h

lemma count_spawn : (s.spawn th).count P = s.count P + (P th).toNat := by
  have hlast : [s.seq].countP (fun t => ((s.spawn th).threads t).any P) = (P th).toNat := by
    have hself : (s.spawn th).threads s.seq = some th := setThread_self
    rw [List.countP_singleton, hself, Option.any_some]
    cases P th <;> rfl
  have hrest : (List.range s.seq).countP (fun t => ((s.spawn th).threads t).any P) =
      s.count P := by
    refine List.countP_congr fun t ht => ?_
    have hold : (s.spawn th).threads t = s.threads t :=
      setThread_of_ne (List.mem_range.mp ht).ne
    rw [hold]
  show (List.range (s.seq + 1)).countP _ = _
  rw [List.range_succ, List.countP_append, hlast, hrest]

end Pool

/-! ## A thread that runs alone -/

namespace Server

variable {M : Server R ε α Q L σ X} {s : Pool R ε α L σ} {t : ℕ}

/-- Only the thread `t` moves, and nothing fails. -/
def Alone (t : ℕ) (_ : Pool R ε α L σ) : Event Q X → Prop
  | .run t' _ => t' = t
  | _ => False

/-- Left alone, a thread comes to its answer. -/
lemma exists_runs_perform (x : X) {l : L} {p : Prog R ε α}
    (hth : s.threads t = some ⟨l, p, true⟩) :
    ∃ s', Transition.Runs M.step (Alone t) s s' ∧
      s'.store = (p.perform (fun store c => M.exec store x c) s.store).1 ∧
      s'.answer t = some (p.perform (fun store c => M.exec store x c) s.store).2 ∧
      s'.seq = s.seq ∧ ∀ t' ≠ t, s'.threads t' = s.threads t' := by
  induction p generalizing s l with
  | pure a => exact ⟨s, .refl, rfl, Pool.answer_eq hth, rfl, fun _ _ => rfl⟩
  | throw e => exact ⟨s, .refl, rfl, Pool.answer_eq hth, rfl, fun _ _ => rfl⟩
  | call c k ih =>
    obtain ⟨s', hrun, hstore, hanswer, hseq, hothers⟩ := ih _ (s := M.resume s t l c k
      (M.exec s.store x c).1 (M.exec s.store x c).2) Pool.setThread_self
    have hfirst : Transition.Runs M.step (Alone t) s (M.resume s t l c k
        (M.exec s.store x c).1 (M.exec s.store x c).2) :=
      Transition.Runs.refl.tail (e := Event.run t x) rfl (step_run x hth)
    refine ⟨s', hfirst.trans hrun, hstore, hanswer, hseq, fun t' ht' => ?_⟩
    rw [hothers t' ht']
    exact Pool.setThread_of_ne ht'

end Server

end Interleaving
