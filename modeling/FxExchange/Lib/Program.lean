import Mathlib.Tactic.Common

/-
# Programs over a shared environment, and their verification conditions

A program is a tree: it returns, it throws, or it issues a command and goes on with the
answer.  The commands are taken from a type `C`, and `R c` is the type of the answers to
`c`; every command may also fail with an exception.  What the environment does with a
command is not part of the program, so that one program can be run alone or interleaved
with others, one command at a time.

A program is verified against a `Discipline`: a condition under which each command may be
issued, and a relation that says what its caller may find when the answer is there.  The
condition `Prog.wp` is the weakest one on the caller's own state that makes every command
of the program legal and the postcondition true at its end.
-/

/-- Programs that issue commands from `C`, with answers `R`, exceptions `ε` and result
`α`. -/
inductive Prog {C : Type} (R : C → Type) (ε α : Type) : Type
  | pure (a : α)
  | throw (e : ε)
  | call (c : C) (k : Except ε (R c) → Prog R ε α)

namespace Prog

variable {C : Type} {R : C → Type} {ε α β : Type}

/-- Sequential composition; an exception skips the rest. -/
def bind : Prog R ε α → (α → Prog R ε β) → Prog R ε β
  | pure a, f => f a
  | throw e, _ => throw e
  | call c k, f => call c fun r => (k r).bind f

instance : Monad (Prog R ε) where
  pure := Prog.pure
  bind := Prog.bind

/-- Issue one command; its failure is thrown. -/
def command (c : C) : Prog R ε (R c) :=
  call c fun
    | .ok a => pure a
    | .error e => throw e

/-- `try p catch e => h e`. -/
def tryCatch : Prog R ε α → (ε → Prog R ε α) → Prog R ε α
  | pure a, _ => pure a
  | throw e, h => h e
  | call c k, h => call c fun r => (k r).tryCatch h

/-- `try p finally q`: `q` is run whether `p` returns or throws, and an exception of `q`
takes the place of the outcome of `p`. -/
def tryFinally : Prog R ε α → Prog R ε Unit → Prog R ε α
  | pure a, q => q.bind fun _ => pure a
  | throw e, q => q.bind fun _ => throw e
  | call c k, q => call c fun r => (k r).tryFinally q

/-- `if (p) throw e`. -/
def throwIf (p : Prop) [Decidable p] (e : ε) : Prog R ε Unit :=
  if p then throw e else pure ()

end Prog

/-- What a caller with the private state `L` owes and gets: `guard l c` has to hold when it
issues `c`, and then `outcome l c r l'` holds of the answer `r` and its next state `l'`. -/
structure Discipline {C : Type} (R : C → Type) (ε L : Type) where
  guard : L → C → Prop
  outcome : L → (c : C) → Except ε (R c) → L → Prop

/-- The discipline with one more condition on the commands. -/
def Discipline.restrict {C : Type} {R : C → Type} {ε L : Type} (D : Discipline R ε L)
    (S : L → C → Prop) : Discipline R ε L :=
  { D with guard := fun l c => D.guard l c ∧ S l c }

namespace Prog

variable {C : Type} {R : C → Type} {ε L α β : Type} {D : Discipline R ε L}

/-- The weakest precondition of a program for a postcondition on the caller's last state
and on the program's result. -/
def wp (D : Discipline R ε L) (Q : L → Except ε α → Prop) : Prog R ε α → L → Prop
  | pure a, l => Q l (.ok a)
  | throw e, l => Q l (.error e)
  | call c k, l => D.guard l c ∧ ∀ r l', D.outcome l c r l' → (k r).wp D Q l'

variable {Q Q' : L → Except ε α → Prop} {l : L}

@[simp] lemma wp_pure {a : α} : (pure a : Prog R ε α).wp D Q l ↔ Q l (.ok a) := Iff.rfl

@[simp] lemma wp_pure' {a : α} : (Pure.pure a : Prog R ε α).wp D Q l ↔ Q l (.ok a) := Iff.rfl

@[simp] lemma wp_throw {e : ε} : (throw e : Prog R ε α).wp D Q l ↔ Q l (.error e) := Iff.rfl

lemma wp_call {c : C} {k : Except ε (R c) → Prog R ε α} :
    (call c k).wp D Q l ↔ D.guard l c ∧ ∀ r l', D.outcome l c r l' → (k r).wp D Q l' := Iff.rfl

/-- The rule of consequence. -/
lemma wp_mono {p : Prog R ε α} (hQ : ∀ l r, Q l r → Q' l r) (h : p.wp D Q l) :
    p.wp D Q' l := by
  induction p generalizing l with
  | pure a => exact hQ _ _ h
  | throw e => exact hQ _ _ h
  | call c k ih => exact ⟨h.1, fun r l' hr => ih r (h.2 r l' hr)⟩

lemma wp_congr {p : Prog R ε α} (hQ : ∀ l r, Q l r ↔ Q' l r) :
    p.wp D Q l ↔ p.wp D Q' l :=
  ⟨wp_mono fun l r => (hQ l r).mp, wp_mono fun l r => (hQ l r).mpr⟩

/-- A program that keeps to more keeps to less. -/
lemma wp_of_restrict {S : L → C → Prop} {p : Prog R ε α} (h : p.wp (D.restrict S) Q l) :
    p.wp D Q l := by
  induction p generalizing l with
  | pure a => exact h
  | throw e => exact h
  | call c k ih => exact ⟨h.1.1, fun r l' hr => ih r (h.2 r l' hr)⟩

/-- The postcondition under which the first part of a sequence may hand over. -/
def andThen (D : Discipline R ε L) (Q : L → Except ε β → Prop) (f : α → Prog R ε β) :
    L → Except ε α → Prop
  | l, .ok a => (f a).wp D Q l
  | l, .error e => Q l (.error e)

@[simp] lemma andThen_ok {Q : L → Except ε β → Prop} {f : α → Prog R ε β} {a : α} :
    andThen D Q f l (.ok a) ↔ (f a).wp D Q l := Iff.rfl

@[simp] lemma andThen_error {Q : L → Except ε β → Prop} {f : α → Prog R ε β} {e : ε} :
    andThen D Q f l (.error e) ↔ Q l (.error e) := Iff.rfl

/-- The rule of sequential composition. -/
lemma wp_bind {Q : L → Except ε β → Prop} {p : Prog R ε α} {f : α → Prog R ε β} :
    (p >>= f).wp D Q l ↔ p.wp D (andThen D Q f) l := by
  show (p.bind f).wp D Q l ↔ _
  induction p generalizing l with
  | pure a => exact Iff.rfl
  | throw e => exact Iff.rfl
  | call c k ih =>
    simp only [bind, wp_call]
    exact and_congr_right fun _ => forall₃_congr fun r l' _ => ih r

/-- A sequence in front of a sequence. -/
lemma wp_bind_bind {γ : Type} {Q : L → Except ε γ → Prop} {p : Prog R ε α} {g : α → Prog R ε β}
    {f : β → Prog R ε γ} :
    ((p >>= g) >>= f).wp D Q l ↔ (p >>= fun a => g a >>= f).wp D Q l := by
  rw [wp_bind, wp_bind, wp_bind]
  refine wp_congr fun l r => ?_
  cases r with
  | ok a => exact wp_bind.symm
  | error e => exact Iff.rfl

/-- The rule of a single command. -/
lemma wp_command {c : C} {Q : L → Except ε (R c) → Prop} :
    (command c : Prog R ε (R c)).wp D Q l ↔
      D.guard l c ∧ ∀ r l', D.outcome l c r l' → Q l' r := by
  refine and_congr_right fun _ => forall₃_congr fun r l' _ => ?_
  cases r <;> exact Iff.rfl

/-- The postcondition of the body of `try … catch`. -/
def orElse (D : Discipline R ε L) (Q : L → Except ε α → Prop) (h : ε → Prog R ε α) :
    L → Except ε α → Prop
  | l, .ok a => Q l (.ok a)
  | l, .error e => (h e).wp D Q l

@[simp] lemma orElse_ok {h : ε → Prog R ε α} {a : α} :
    orElse D Q h l (.ok a) ↔ Q l (.ok a) := Iff.rfl

@[simp] lemma orElse_error {h : ε → Prog R ε α} {e : ε} :
    orElse D Q h l (.error e) ↔ (h e).wp D Q l := Iff.rfl

/-- The rule of `try … catch`. -/
lemma wp_tryCatch {p : Prog R ε α} {h : ε → Prog R ε α} :
    (p.tryCatch h).wp D Q l ↔ p.wp D (orElse D Q h) l := by
  induction p generalizing l with
  | pure a => exact Iff.rfl
  | throw e => exact Iff.rfl
  | call c k ih =>
    simp only [tryCatch, wp_call]
    exact and_congr_right fun _ => forall₃_congr fun r l' _ => ih r

/-- The postcondition of the body of `try … finally`. -/
def finallyDo (D : Discipline R ε L) (Q : L → Except ε α → Prop) (q : Prog R ε Unit) :
    L → Except ε α → Prop
  | l, r => q.wp D (fun l' r' => match r' with
      | .ok _ => Q l' r
      | .error e => Q l' (.error e)) l

/-- The rule of `try … finally`. -/
lemma wp_tryFinally {p : Prog R ε α} {q : Prog R ε Unit} :
    (p.tryFinally q).wp D Q l ↔ p.wp D (finallyDo D Q q) l := by
  have hpure (a : α) : q.bind (fun _ => (pure a : Prog R ε α)) = q >>= fun _ => pure a := rfl
  have hthrow (e : ε) : q.bind (fun _ => (throw e : Prog R ε α)) = q >>= fun _ => throw e := rfl
  induction p generalizing l with
  | pure a =>
    rw [tryFinally, hpure, wp_bind]
    exact wp_congr fun l r => by cases r <;> exact Iff.rfl
  | throw e =>
    rw [tryFinally, hthrow, wp_bind]
    exact wp_congr fun l r => by cases r <;> exact Iff.rfl
  | call c k ih =>
    simp only [tryFinally, wp_call]
    exact and_congr_right fun _ => forall₃_congr fun r l' _ => ih r

/-- The rule of a guarded throw. -/
lemma wp_throwIf {p : Prop} [Decidable p] {e : ε} {Q : L → Except ε Unit → Prop} :
    (throwIf p e : Prog R ε Unit).wp D Q l ↔
      (p → Q l (.error e)) ∧ (¬ p → Q l (.ok ())) := by
  unfold throwIf
  split <;> simp_all

/-! ## The commands of a program -/

/-- Every command that the program can come to issue is in `S`. -/
def Issues (S : C → Prop) : Prog R ε α → Prop
  | pure _ => True
  | throw _ => True
  | call c k => S c ∧ ∀ r, (k r).Issues S

variable {S S' : C → Prop}

@[simp] lemma issues_pure {a : α} : (pure a : Prog R ε α).Issues S := trivial

@[simp] lemma issues_pure' {a : α} : (Pure.pure a : Prog R ε α).Issues S := trivial

@[simp] lemma issues_throw {e : ε} : (throw e : Prog R ε α).Issues S := trivial

lemma issues_command {c : C} (h : S c) : (command c : Prog R ε (R c)).Issues S :=
  ⟨h, fun r => by cases r <;> trivial⟩

lemma issues_bind {p : Prog R ε α} {f : α → Prog R ε β} (hp : p.Issues S)
    (hf : ∀ a, (f a).Issues S) : (p >>= f).Issues S := by
  show (p.bind f).Issues S
  induction p with
  | pure a => exact hf a
  | throw e => trivial
  | call c k ih => exact ⟨hp.1, fun r => ih r (hp.2 r)⟩

lemma issues_tryCatch {p : Prog R ε α} {h : ε → Prog R ε α} (hp : p.Issues S)
    (hh : ∀ e, (h e).Issues S) : (p.tryCatch h).Issues S := by
  induction p with
  | pure a => trivial
  | throw e => exact hh e
  | call c k ih => exact ⟨hp.1, fun r => ih r (hp.2 r)⟩

lemma issues_tryFinally {p : Prog R ε α} {q : Prog R ε Unit} (hp : p.Issues S)
    (hq : q.Issues S) : (p.tryFinally q).Issues S := by
  induction p with
  | pure a => exact issues_bind hq fun _ => trivial
  | throw e => exact issues_bind hq fun _ => trivial
  | call c k ih => exact ⟨hp.1, fun r => ih r (hp.2 r)⟩

lemma issues_throwIf {p : Prop} [Decidable p] {e : ε} :
    (throwIf p e : Prog R ε Unit).Issues S := by
  unfold throwIf
  split <;> trivial

lemma issues_mono {p : Prog R ε α} (hS : ∀ c, S c → S' c) (h : p.Issues S) : p.Issues S' := by
  induction p with
  | pure a => trivial
  | throw e => trivial
  | call c k ih => exact ⟨hS c h.1, fun r => ih r (h.2 r)⟩

/-- What no command in `S` takes away holds from the beginning of the program to its end. -/
lemma wp_of_issues {I : L → Prop} {p : Prog R ε α} (hp : p.Issues S) (hl : I l)
    (hS : ∀ l c, S c → I l → D.guard l c ∧ ∀ r l', D.outcome l c r l' → I l') :
    p.wp D (fun l' _ => I l') l := by
  induction p generalizing l with
  | pure a => exact hl
  | throw e => exact hl
  | call c k ih =>
    obtain ⟨hguard, hkeep⟩ := hS l c hp.1 hl
    exact ⟨hguard, fun r l' hr => ih r (hp.2 r) (hkeep r l' hr)⟩

/-! ## Exceptions that a program does not catch -/

/-- However its commands are answered, which are from `S`, what is left of a program ends with
throwing the exception that it has been given. -/
inductive ThrowsOn (S : C → Prop) : (ε → Prog R ε α) → Prop
  | throw : ThrowsOn S fun e => throw e
  | call {c : C} {k : Except ε (R c) → ε → Prog R ε α} (hc : S c) (hk : ∀ r, ThrowsOn S (k r)) :
    ThrowsOn S fun e => call c fun r => k r e

/-- The failures of all commands but those from `S` are thrown on. -/
def Transparent (S : C → Prop) : Prog R ε α → Prop
  | pure _ => True
  | throw _ => True
  | call c k => (¬ S c → ThrowsOn S fun e => k (.error e)) ∧ ∀ r, (k r).Transparent S

lemma ThrowsOn.bind {p : ε → Prog R ε α} (h : ThrowsOn S p) (f : α → Prog R ε β) :
    ThrowsOn S fun e => p e >>= f := by
  induction h with
  | throw => exact .throw
  | call hc _ ih => exact .call hc ih

/-- What is done at last must let the exceptions pass. -/
lemma ThrowsOn.tryFinally {p : ε → Prog R ε α} {q : Prog R ε Unit} (h : ThrowsOn S p)
    (hpass : ThrowsOn S fun e => q >>= fun _ => (Prog.throw e : Prog R ε α)) :
    ThrowsOn S fun e => (p e).tryFinally q := by
  induction h with
  | throw => exact hpass
  | call hc _ ih => exact .call hc ih

/-- What is only tried on the way lets them pass. -/
lemma throwsOn_tryCatch {p : Prog R ε β} {b : β} (hp : p.Issues S) {f : ε → Prog R ε α}
    (hf : ThrowsOn S f) : ThrowsOn S fun e => (p.tryCatch fun _ => pure b) >>= fun _ => f e := by
  induction p with
  | pure a => exact hf
  | throw e => exact hf
  | call c k ih => exact .call hp.1 fun r => ih r (hp.2 r)

lemma transparent_of_issues {p : Prog R ε α} (h : p.Issues S) : p.Transparent S := by
  induction p with
  | pure a => trivial
  | throw e => trivial
  | call c k ih => exact ⟨fun hc => absurd h.1 hc, fun r => ih r (h.2 r)⟩

lemma transparent_command {c : C} : (command c : Prog R ε (R c)).Transparent S := by
  refine ⟨fun _ => .throw, fun r => ?_⟩
  cases r <;> trivial

lemma transparent_bind {p : Prog R ε α} {f : α → Prog R ε β} (hp : p.Transparent S)
    (hf : ∀ a, (f a).Transparent S) : (p >>= f).Transparent S := by
  show (p.bind f).Transparent S
  induction p with
  | pure a => exact hf a
  | throw e => trivial
  | call c k ih => exact ⟨fun hc => (hp.1 hc).bind f, fun r => ih r (hp.2 r)⟩

lemma transparent_tryFinally {p : Prog R ε α} {q : Prog R ε Unit} (hp : p.Transparent S)
    (hq : q.Issues S) (hpass : ThrowsOn S fun e => q >>= fun _ => (throw e : Prog R ε α)) :
    (p.tryFinally q).Transparent S := by
  induction p with
  | pure a => exact transparent_of_issues (issues_bind hq fun _ => trivial)
  | throw e => exact transparent_of_issues (issues_bind hq fun _ => trivial)
  | call c k ih => exact ⟨fun hc => (hp.1 hc).tryFinally hpass, fun r => ih r (hp.2 r)⟩

/-! ## Running a program alone -/

section Perform

variable {σ : Type} (serve : σ → (c : C) → σ × Except ε (R c))

/-- Run a program from a state, with nothing else between its commands: the state and the
result at its end. -/
def perform : Prog R ε α → σ → σ × Except ε α
  | pure a, s => (s, .ok a)
  | throw e, s => (s, .error e)
  | call c k, s => perform (k (serve s c).2) (serve s c).1

@[simp] lemma perform_pure (a : α) (s : σ) :
    (Pure.pure a : Prog R ε α).perform serve s = (s, .ok a) := rfl

@[simp] lemma perform_throw (e : ε) (s : σ) :
    (throw e : Prog R ε α).perform serve s = (s, .error e) := rfl

@[simp] lemma perform_throwIf (p : Prop) [Decidable p] (e : ε) (s : σ) :
    (throwIf p e : Prog R ε Unit).perform serve s = (s, if p then .error e else .ok ()) := by
  unfold throwIf
  split <;> rfl

@[simp] lemma perform_command (c : C) (s : σ) :
    (command c : Prog R ε (R c)).perform serve s = serve s c := by
  show perform serve _ (serve s c).1 = _
  obtain ⟨s', r⟩ := serve s c
  cases r <;> rfl

lemma perform_bind (p : Prog R ε α) (f : α → Prog R ε β) (s : σ) :
    (p >>= f).perform serve s = match p.perform serve s with
      | (s', .ok a) => (f a).perform serve s'
      | (s', .error e) => (s', .error e) := by
  show (p.bind f).perform serve s = _
  induction p generalizing s with
  | pure a => rfl
  | throw e => rfl
  | call c k ih => exact ih _ _

lemma perform_tryCatch (p : Prog R ε α) (h : ε → Prog R ε α) (s : σ) :
    (p.tryCatch h).perform serve s = match p.perform serve s with
      | (s', .ok a) => (s', .ok a)
      | (s', .error e) => (h e).perform serve s' := by
  induction p generalizing s with
  | pure a => rfl
  | throw e => rfl
  | call c k ih => exact ih _ _

end Perform

end Prog
