import FxExchange.Proofs.Records

/-
# Wrong codes

`verifyOtp` reads the counter of wrong codes, compares, and then counts.  So the limit that it
checks keeps the wrong codes down where the counter that it has read was up to date: the code is
still live, nothing has reset the counter, and no other call is about to count.
-/

namespace FxExchange

open Interleaving Transition

variable {env : AuthEnv} {s s' : AuthState} {e : AuthEvent} {t : ℕ} {a : UserId}
  {th : AuthThread} {ok : AuthState → AuthEvent → Prop}

/-! ## The calls for an account -/

/-- The command of `bcrypt.compare`. -/
def AuthCmd.isCompare : AuthCmd → Bool
  | .compare _ _ => true
  | _ => false

/-- A call that has reached the comparison with a wrong code. -/
def hasTried (env : AuthEnv) (a : UserId) (th : AuthThread) : Bool :=
  th.state.account = some a && th.state.verdict env = some false &&
    (th.state.compared || th.next.any AuthCmd.isCompare)

/-- A call with a wrong code that has passed the check, and goes on to count it. -/
def wrongInFlight (env : AuthEnv) (a : UserId) (th : AuthThread) : Bool :=
  th.state.Admitted env a false && !th.state.counted && th.next.isSome

/-- A call with the right code that has passed the check, and goes on to the UPDATE. -/
def rightInFlight (env : AuthEnv) (a : UserId) (th : AuthThread) : Bool :=
  th.state.Admitted env a true && !th.state.verified && th.next.isSome

/-- The registration of the account, as long as it has not set the counter. -/
def registering (a : UserId) (th : AuthThread) : Bool :=
  th.state.created.any (fun row => row.id = a) && !th.state.reset && th.next.isSome

/-! ## In turn -/

/-- A call that passes the check does so with a counter that is up to date: its code is still
live, the registration has set the counter, and if its own code is wrong, no other wrong one is
on its way to be counted.  And a code is counted only while no right one is on its way. -/
def InTurn (env : AuthEnv) (a : UserId) (s : AuthState) (l : Visit) : AuthCmd → Prop
  | .getAttempts id => id = a → (AuthService.admits l.hash (s.store.liveAttempts a)).isSome →
    (Custody.live (s.store.otps a) s.store.now).isSome ∧ s.count (registering a) = 0 ∧
      (l.verdict env = some false → s.count (wrongInFlight env a) = 0)
  | .incrAttempts id => id = a → s.count (rightInFlight env a) = 0
  | _ => True

/-- The calls for an account come in turn, and a wrong code that has passed the check is
counted. -/
def CallsInTurn (env : AuthEnv) (a : UserId) (s : AuthState) : AuthEvent → Prop
  | .run t _ => ∀ th ∈ s.threads t, ∀ c ∈ th.next, InTurn env a s th.state c
  | .fail t => ∀ th ∈ s.threads t, ¬ wrongInFlight env a th
  | .crash t => ∀ th ∈ s.threads t, ¬ wrongInFlight env a th
  | _ => True

instance (s : AuthState) (l : Visit) : DecidablePred (InTurn env a s l)
  | .getAttempts _ => inferInstanceAs (Decidable (_ → _ → _ ∧ _ ∧ (_ → _)))
  | .incrAttempts _ => inferInstanceAs (Decidable (_ → _))
  | .findByEmail _ | .findByEmailWithPassword _ | .create _ _ _ | .update _ _ | .hash _ _
  | .compare _ _ | .randomInt _ _ | .getOtp _ | .setOtp _ _ _ | .delOtp _ | .setAttempts _ _ _
  | .delAttempts _ | .sendOtp _ _ | .signAsync _ _ => isTrue trivial

instance (s : AuthState) : DecidablePred (CallsInTurn env a s)
  | .run _ _ => inferInstanceAs (Decidable (∀ th ∈ _, ∀ c ∈ _, _))
  | .fail _ | .crash _ => inferInstanceAs (Decidable (∀ th ∈ _, ¬ _))
  | .spawn _ | .tick _ => isTrue trivial

/-! ## The counter -/

namespace AuthStore

variable {s : AuthStore} {n : ℕ}

/-- As long as the code of an account is live, its counter is at `n`, and outlives the code. -/
def UpToDate (s : AuthStore) (a : UserId) (n : ℕ) : Prop :=
  ∀ hash deadline, s.otps a = some (hash, deadline) → s.now < deadline →
    (s.attempts a = none ∧ n = 0) ∨
      ∃ ends, s.attempts a = some (n, ends) ∧ ∀ time ∈ ends, deadline ≤ time

lemma upToDate_of_none (h : s.otps a = none) : s.UpToDate a n := by
  intro hash deadline hotp
  rw [h] at hotp
  cases hotp

/-- The number that is read. -/
lemma UpToDate.liveAttempts (h : s.UpToDate a n) (hlive : (Custody.live (s.otps a) s.now).isSome) :
    (s.liveAttempts a = none ∧ n = 0) ∨ s.liveAttempts a = some n := by
  obtain ⟨hash, hhash⟩ := Option.isSome_iff_exists.mp hlive
  obtain ⟨deadline, hotp, hlt⟩ := Custody.live_eq_some_iff.mp hhash
  rcases h hash deadline hotp hlt with ⟨hnone, hzero⟩ | ⟨ends, hcounter, hends⟩
  · left
    rw [AuthStore.liveAttempts, hnone]
    exact ⟨rfl, hzero⟩
  · right
    rw [AuthStore.liveAttempts, hcounter]
    cases ends with
    | none => rfl
    | some time => exact if_pos (hlt.trans_le (hends time rfl))

lemma UpToDate.wait (h : s.UpToDate a n) (ms : ℕ) :
    UpToDate { s with now := s.now + ms } a n :=
  fun hash deadline hotp hlt => h hash deadline hotp ((Nat.le_add_right ..).trans_lt hlt)

/-- INCR counts one more. -/
lemma UpToDate.incr (h : s.UpToDate a n) :
    UpToDate { s with attempts := Function.update s.attempts a (some (s.incr a)) } a (n + 1) := by
  intro hash deadline hotp hlt
  right
  have hlive : (Custody.live (s.otps a) s.now).isSome := by
    rw [Custody.live_eq_some_iff.mpr ⟨deadline, hotp, hlt⟩]
    rfl
  show ∃ ends, Function.update s.attempts a (some (s.incr a)) a = some (n + 1, ends) ∧
    ∀ time ∈ ends, deadline ≤ time
  rw [Function.update_self, AuthStore.incr]
  rcases h.liveAttempts hlive with ⟨hnone, rfl⟩ | hsome
  · rw [hnone]
    exact ⟨none, rfl, by simp⟩
  · rw [hsome]
    refine ⟨_, rfl, ?_⟩
    rcases h hash deadline hotp hlt with ⟨hnone, -⟩ | ⟨ends, hcounter, hends⟩
    · simp [hnone]
    · simpa [hcounter] using hends

/-- The registration starts the counter, for longer than its code. -/
lemma upToDate_set (h : ∀ hash deadline, s.otps a = some (hash, deadline) →
    deadline ≤ s.now + 900000) : UpToDate { s with
      attempts := Function.update s.attempts a (some (0, some (s.now + 900 * 1000))) } a 0 := by
  intro hash deadline hotp hlt
  refine .inr ⟨_, Function.update_self .., ?_⟩
  rintro time ⟨⟩
  exact h hash deadline hotp

/-- What the commands do that set nothing for the account. -/
lemma UpToDate.exec {c : AuthCmd} (h : s.UpToDate a n)
    (hotp : ∀ id hash ex, c = .setOtp id hash ex → id ≠ a)
    (hset : ∀ id value ex, c = .setAttempts id value ex → id ≠ a)
    (hdel : c = .delAttempts a → s.otps a = none) (x : ℕ) :
    (s.exec env x c).1.UpToDate a (n + if c = .incrAttempts a then 1 else 0) := by
  have hsame {s' : AuthStore} (hotps : s'.otps a = s.otps a)
      (hattempts : s'.attempts a = s.attempts a) (hnow : s'.now = s.now) : s'.UpToDate a n := by
    unfold UpToDate
    rw [hotps, hattempts, hnow]
    exact h
  cases c with
  | setOtp id hash ex =>
    exact hsame (Function.update_of_ne (hotp id hash ex rfl).symm ..) rfl rfl
  | setAttempts id value ex =>
    exact hsame rfl (Function.update_of_ne (hset id value ex rfl).symm ..) rfl
  | delOtp id =>
    rcases eq_or_ne id a with rfl | hne
    · exact upToDate_of_none (Function.update_self ..)
    · exact hsame (Function.update_of_ne hne.symm ..) rfl rfl
  | delAttempts id =>
    rcases eq_or_ne id a with rfl | hne
    · exact upToDate_of_none (hdel rfl)
    · exact hsame rfl (Function.update_of_ne hne.symm ..) rfl
  | incrAttempts id =>
    rcases eq_or_ne id a with rfl | hne
    · rw [if_pos rfl]
      exact h.incr
    · rw [if_neg fun heq => hne (AuthCmd.incrAttempts.inj heq)]
      exact hsame rfl (Function.update_of_ne hne.symm ..) rfl
  | create email hash b =>
    simp only [AuthStore.exec]
    split <;> exact h
  | _ => exact h

end AuthStore

/-! ### Along a run -/

/-- A call that has counted has passed the check with a wrong code. -/
lemma admitted_of_counted (h : AuthState.Runs env ok AuthState.initial s)
    (hth : s.threads t = some th) (hcounted : hasCounted a th = true) :
    th.state.Admitted env a false := by
  simp only [hasCounted, Bool.and_eq_true, decide_eq_true_eq] at hcounted
  have hvisit := visit_of_runs (G := fun l => l.counted = true → ∃ id, l.Admitted env id false) h
    (by simp) (fun s l c r hmay _ hG => ?_) hth
  · obtain ⟨id, hadmitted⟩ := hvisit hcounted.2
    obtain rfl := Option.some.inj (hcounted.1.symm.trans hadmitted.1)
    exact hadmitted
  · have hle := Visit.le_after hmay s r
    intro hcounted'
    by_cases hincr : ∃ id, c = .incrAttempts id
    · obtain ⟨id, rfl⟩ := hincr
      exact ⟨id, hmay.2.mono hle⟩
    · rw [not_exists] at hincr
      rw [Visit.after_counted hincr] at hcounted'
      obtain ⟨id, hadmitted⟩ := hG hcounted'
      exact ⟨id, hadmitted.mono hle⟩

/-- A call that has deleted the code has passed the check with the right one. -/
lemma admitted_of_dropped (h : AuthState.Runs env ok AuthState.initial s)
    (hth : s.threads t = some th) (hdropped : th.state.dropped = true) :
    ∃ id, th.state.Admitted env id true := by
  refine visit_of_runs (G := fun l => l.dropped = true → ∃ id, l.Admitted env id true) h
    (by simp) (fun s l c r hmay _ hG hdropped => ?_) hth hdropped
  have hle := Visit.le_after hmay s r
  cases c with
  | delOtp id => exact ⟨id, hmay.2.mono hle⟩
  | _ =>
    obtain ⟨id, hadmitted⟩ := hG (by cases r <;> exact hdropped)
    exact ⟨id, hadmitted.mono hle⟩

/-- No call has passed the check yet, and the counter has not been set. -/
structure Unspent (env : AuthEnv) (a : UserId) (s : AuthState) : Prop where
  counter : s.store.attempts a = none
  quiet : ∀ t th, s.threads t = some th → ∀ b, ¬ th.state.Admitted env a b

/-- The registration of the account has come to its end, and the counter is up to date. -/
structure Counting (a : UserId) (s : AuthState) : Prop where
  known : a < s.store.nextId
  ended : ∀ t th, s.threads t = some th → registering a th = false
  counter : s.store.UpToDate a (s.count (hasCounted a))
  dropped : ∀ t th, s.threads t = some th → th.state.account = some a →
    th.state.dropped = true → s.store.otps a = none

/-- Nothing has been counted yet. -/
lemma Unspent.count_eq_zero (h : Unspent env a s)
    (hrun : AuthState.Runs env ok AuthState.initial s) : s.count (hasCounted a) = 0 := by
  refine Pool.count_eq_zero fun t th hth => ?_
  by_contra hcounted
  exact h.quiet t th hth false (admitted_of_counted hrun hth (Bool.not_eq_false _ ▸ hcounted))

/-- From now on the counter is kept. -/
lemma Unspent.counting (h : Unspent env a s)
    (hrun : AuthState.Runs env ok AuthState.initial s) (hknown : a < s.store.nextId)
    (hended : ∀ t th, s.threads t = some th → registering a th = false) : Counting a s where
  known := hknown
  ended := hended
  counter _ _ _ _ := .inl ⟨h.counter, h.count_eq_zero hrun⟩
  dropped t th hth haccount hdropped := by
    obtain ⟨id, hadmitted⟩ := admitted_of_dropped hrun hth hdropped
    obtain rfl := Option.some.inj (haccount.symm.trans hadmitted.1)
    exact absurd hadmitted (h.quiet t th hth true)

/-- The account of a call is in the table. -/
lemma lt_nextId_of_account (h : AuthState.Runs env ok AuthState.initial s)
    (hth : s.threads t = some th) (haccount : th.state.account = some a) :
    a < s.store.nextId := by
  obtain ⟨row, hrow, rfl⟩ := Visit.exists_found haccount
  obtain ⟨-, user, hu, hid, -⟩ := found_of_runs h hth hrow
  exact hid ▸ (users_of_runs h).lt user hu

section Tracked

variable {l : Visit} {c : AuthCmd} {k : Except Exn c.Ret → Auth AuthResponse}

/-- The registration of an account begins with its user. -/
lemma registering_after {store : AuthStore} {r : Except Exn c.Ret} {p : Auth AuthResponse}
    (h : registering a (⟨l.after store c r, p, true⟩ : AuthThread) = true) :
    registering a (⟨l, .call c k, true⟩ : AuthThread) = true ∨
      ∃ email hash b row, c = .create email hash b ∧
        (l.after store c r).created = some row ∧ row.id = a := by
  simp only [registering, Bool.and_eq_true, Bool.not_eq_true', Option.any_eq_true,
    decide_eq_true_eq] at h ⊢
  obtain ⟨⟨⟨row, hrow, hid⟩, hreset⟩, -⟩ := h
  cases c with
  | create email hash b => exact .inr ⟨email, hash, b, row, rfl, hrow, hid⟩
  | setAttempts id value ex =>
    left
    cases r with
    | ok a => cases hreset
    | error err => exact ⟨⟨⟨row, hrow, hid⟩, hreset⟩, rfl⟩
  | _ =>
    left
    refine ⟨⟨⟨row, ?_, hid⟩, ?_⟩, rfl⟩
    · cases r <;> exact hrow
    · cases r <;> exact hreset

/-- It is INCR that counts. -/
lemma hasCounted_after {store : AuthStore} {r : Except Exn c.Ret} (hmay : l.May env c)
    (hc : ∀ id, c ≠ .incrAttempts id) {p : Auth AuthResponse} :
    hasCounted a (⟨l.after store c r, p, true⟩ : AuthThread) =
      hasCounted a (⟨l, .call c k, true⟩ : AuthThread) := by
  have hcounted := Visit.after_counted hc (l := l) store r
  cases r with
  | error err => cases c <;> rfl
  | ok answer =>
    cases c with
    | findByEmail email =>
      simp only [hasCounted, hcounted]
      simp [hmay.2.2.2.1]
    | incrAttempts id => exact absurd rfl (hc id)
    | _ => rfl

/-- How many have counted after a command. -/
lemma count_hasCounted (hfresh : Server.Fresh s) (hth : s.threads t = some ⟨l, .call c k, true⟩)
    (hmay : l.May env c) (x : ℕ) : ((authServer env).resume s t l c k (s.store.exec env x c).1
      (s.store.exec env x c).2).count (hasCounted a) =
        s.count (hasCounted a) + if c = .incrAttempts a then 1 else 0 := by
  have hmoved := Pool.count_setThread (P := hasCounted a) hfresh hth (s.store.exec env x c).1
    ⟨l.after s.store c (s.store.exec env x c).2, k (s.store.exec env x c).2, true⟩
  refine Nat.add_right_cancel (hmoved.trans ?_)
  by_cases hincr : ∃ id, c = .incrAttempts id
  · obtain ⟨id, rfl⟩ := hincr
    obtain ⟨hcounted, hadmitted⟩ := hmay
    have haccount : ({ l with counted := true } : Visit).account = some id := hadmitted.1
    by_cases hid : id = a
    · subst hid
      simp [hasCounted, AuthStore.exec, Visit.after, hcounted, haccount]
    · have hother : ({ l with counted := true } : Visit).account ≠ some a := by
        rw [haccount]
        simpa using hid
      simp [hasCounted, AuthStore.exec, Visit.after, hcounted, hother, hid]
  · rw [not_exists] at hincr
    rw [hasCounted_after hmay hincr, if_neg (hincr a), Nat.add_zero]

/-- A command keeps the counter up to date. -/
lemma Counting.run (h : Counting a s) (hrun : AuthState.Runs env ok AuthState.initial s)
    (hth : s.threads t = some ⟨l, .call c k, true⟩) (x : ℕ) :
    Counting a ((authServer env).resume s t l c k (s.store.exec env x c).1
      (s.store.exec env x c).2) := by
  have hmay := ((obeys_of_runs hrun).guard hth).2
  have hended := h.ended t _ hth
  -- the registration of the account would not have come to its end
  have hotp (id : UserId) (hash : String) (ex : ℕ) (hc : c = .setOtp id hash ex) : id ≠ a := by
    subst hc
    rintro rfl
    obtain ⟨-, -, hreset, row, -, hrow, hid, -⟩ := hmay
    simp [registering, hrow, hid, hreset] at hended
  have hset (id : UserId) (value ex : ℕ) (hc : c = .setAttempts id value ex) : id ≠ a := by
    subst hc
    rintro rfl
    obtain ⟨-, -, hreset, -, row, hrow, hid⟩ := hmay
    simp [registering, hrow, hid, hreset] at hended
  have hgone (hnone : s.store.otps a = none) : (s.store.exec env x c).1.otps a = none := by
    cases c with
    | setOtp id hash ex => exact (Function.update_of_ne (hotp id hash ex rfl).symm ..).trans hnone
    | delOtp id =>
      rcases eq_or_ne a id with rfl | hne
      · exact Function.update_self ..
      · exact (Function.update_of_ne hne ..).trans hnone
    | create email hash b =>
      simp only [AuthStore.exec]
      split <;> exact hnone
    | _ => exact hnone
  constructor
  · exact h.known.trans_le (AuthStore.nextId_le_exec s.store x c)
  · intro t' th' hth'
    rcases Pool.of_setThread hth' with ⟨-, rfl⟩ | ⟨-, hold⟩
    · by_contra hgoing
      rcases registering_after (k := k) (Bool.not_eq_false _ ▸ hgoing) with
        hbefore | ⟨email, hash, b, row, rfl, hrow, hid⟩
      · rw [hended] at hbefore
        cases hbefore
      · -- an identifier that is in use is not the next one
        simp only [AuthStore.exec] at hrow
        split at hrow
        · have hnone : l.created = none := hmay.1
          simp [Visit.after, hnone] at hrow
        · obtain rfl := Option.some.inj hrow
          exact absurd hid h.known.ne'
    · exact h.ended t' th' hold
  · rw [count_hasCounted (fresh_of_runs hrun) hth hmay]
    refine h.counter.exec hotp hset (fun hc => ?_) x
    subst hc
    exact h.dropped t _ hth hmay.2.2.1 hmay.1
  · intro t' th' hth' haccount hdropped
    rcases Pool.of_setThread hth' with ⟨-, rfl⟩ | ⟨-, hold⟩
    · by_cases hdel : ∃ id, c = .delOtp id
      · obtain ⟨id, rfl⟩ := hdel
        obtain rfl : id = a := Option.some.inj (hmay.2.1.symm.trans haccount)
        exact Function.update_self ..
      · have hbefore : l.dropped = true := by
          rw [not_exists] at hdel
          cases c with
          | delOtp id => exact absurd rfl (hdel id)
          | create email hash b =>
            simp only [authServer, AuthStore.exec] at hdropped
            split at hdropped <;> exact hdropped
          | _ => exact hdropped
        obtain ⟨id, hadmitted⟩ := admitted_of_dropped hrun hth hbefore
        have hlater := (Visit.le_after hmay s.store (s.store.exec env x c).2).account hadmitted.1
        obtain rfl := Option.some.inj (hlater.symm.trans haccount)
        exact hgone (h.dropped t _ hth hadmitted.1 hbefore)
    · exact hgone (h.dropped t' th' hold haccount hdropped)

/-- Without a command, a thread stays what it was. -/
lemma Counting.keep (h : Counting a s) (hfresh : Server.Fresh s) (hth : s.threads t = some th)
    {th' : AuthThread} (hended : registering a th' = false)
    (hcounted : hasCounted a th' = hasCounted a th)
    (hdropped : th'.state.account = some a → th'.state.dropped = true →
      th.state.account = some a ∧ th.state.dropped = true) : Counting a (s.setThread t th') where
  known := h.known
  ended t₁ th₁ hth₁ := by
    rcases Pool.of_setThread hth₁ with ⟨-, rfl⟩ | ⟨-, hold⟩
    · exact hended
    · exact h.ended t₁ th₁ hold
  counter := by
    have hcount := Pool.count_setThread (P := hasCounted a) hfresh hth s.store th'
    rw [hcounted] at hcount
    have hsame : (s.setThread t th').count (hasCounted a) = s.count (hasCounted a) :=
      Nat.add_right_cancel hcount
    rw [hsame]
    exact h.counter
  dropped t₁ th₁ hth₁ haccount hdrop := by
    rcases Pool.of_setThread hth₁ with ⟨-, rfl⟩ | ⟨-, hold⟩
    · obtain ⟨haccount', hdrop'⟩ := hdropped haccount hdrop
      exact h.dropped t th hth haccount' hdrop'
    · exact h.dropped t₁ th₁ hold haccount hdrop

/-- The counter stays up to date, whatever happens. -/
lemma Counting.step (h : Counting a s) (hrun : AuthState.Runs env ok AuthState.initial s)
    (hstep : (authServer env).step s e = some s') : Counting a s' := by
  have hfresh := fresh_of_runs hrun
  cases Server.step_of_eq hstep with
  | spawn req =>
    constructor
    · exact h.known
    · intro t th hth
      rcases Pool.of_setThread hth with ⟨-, rfl⟩ | ⟨-, hold⟩
      · rfl
      · exact h.ended t th hold
    · have hnew : hasCounted a ((authServer env).thread req) = false := by
        simp [hasCounted, Server.thread, authServer]
      rw [Pool.count_spawn, hnew]
      exact h.counter
    · intro t th hth haccount hdropped
      rcases Pool.of_setThread hth with ⟨-, rfl⟩ | ⟨-, hold⟩
      · cases hdropped
      · exact h.dropped t th hold haccount hdropped
  | run x hth => exact h.run hrun hth x
  | @fail t l c k hth =>
    refine h.keep hfresh hth ?_ (by cases c <;> rfl) (by cases c <;> exact And.intro)
    by_contra hgoing
    rcases registering_after (k := k) (Bool.not_eq_false _ ▸ hgoing) with
      hbefore | ⟨email, hash, b, row, rfl, hrow, -⟩
    · rw [h.ended t _ hth] at hbefore
      cases hbefore
    · have hnone : l.created = none := ((obeys_of_runs hrun).guard hth).2.1
      simp [Visit.after, hnone] at hrow
  | crash hth =>
    refine h.keep hfresh hth ?_ rfl And.intro
    simp [registering]
  | tick ms => exact ⟨h.known, h.ended, h.counter.wait ms, h.dropped⟩

/-- What is known of the counter of an account: it has not been touched, or it is kept. -/
def Tracked (env : AuthEnv) (a : UserId) (s : AuthState) : Prop :=
  Unspent env a s ∨ Counting a s

/-- The first call that passes the check finds the counter up to date. -/
lemma Unspent.run (h : Unspent env a s) (hrun : AuthState.Runs env ok AuthState.initial s)
    (hth : s.threads t = some ⟨l, .call c k, true⟩) (hturn : InTurn env a s l c) (x : ℕ)
    (hrun' : AuthState.Runs env ok AuthState.initial ((authServer env).resume s t l c k
      (s.store.exec env x c).1 (s.store.exec env x c).2)) :
    Tracked env a ((authServer env).resume s t l c k (s.store.exec env x c).1
      (s.store.exec env x c).2) := by
  have hmay := ((obeys_of_runs hrun).guard hth).2
  by_cases hpassed : c = .getAttempts a ∧
      ∃ b, (l.after s.store c (s.store.exec env x c).2).Admitted env a b
  · obtain ⟨rfl, b, -, -, hadmitted⟩ := hpassed
    have hover := (hturn rfl hadmitted).2.1
    have hcounting : Counting a s := by
      refine h.counting hrun (lt_nextId_of_account hrun hth hmay.2.2.2.2) fun t' th' hth' => ?_
      by_contra hgoing
      have hpos := Pool.count_pos (fresh_of_runs hrun) hth' (Bool.not_eq_false _ ▸ hgoing)
      omega
    exact .inr (hcounting.run hrun hth x)
  have hquiet (t' : ℕ) (th' : AuthThread) (hth' : ((authServer env).resume s t l c k
      (s.store.exec env x c).1 (s.store.exec env x c).2).threads t' = some th') (b : Bool) :
      ¬ th'.state.Admitted env a b := by
    rcases Pool.of_setThread hth' with ⟨-, rfl⟩ | ⟨-, hold⟩
    · intro hadmitted
      rcases Visit.admitted_of_after hmay hadmitted with hbefore | hget
      · exact h.quiet t _ hth b hbefore
      · exact hpassed ⟨hget, b, hadmitted⟩
    · exact h.quiet t' th' hold b
  by_cases hset : ∃ value ex, c = .setAttempts a value ex
  · -- the registration starts the counter, and it was the only one
    right
    obtain ⟨value, ex, rfl⟩ := hset
    obtain ⟨rfl, rfl, -, -, row, hrow, hid⟩ := hmay
    have hzero := count_hasCounted (a := a) (fresh_of_runs hrun) hth
      ((obeys_of_runs hrun).guard hth).2 x
    rw [h.count_eq_zero hrun, if_neg (by simp)] at hzero
    constructor
    · obtain ⟨-, -, -, -, user, hu, huser, -⟩ := stored_of_runs hrun hth hrow
      exact hid ▸ huser ▸ (users_of_runs hrun).lt user hu
    · intro t' th' hth'
      rcases Pool.of_setThread hth' with ⟨-, rfl⟩ | ⟨hne, hold⟩
      · have hreset : ((authServer env).after s.store l (.setAttempts a 0 900)
            (s.store.exec env x (.setAttempts a 0 900)).2).reset = true := rfl
        simp [registering, hreset]
      · by_contra hgoing
        simp only [registering, Bool.not_eq_false, Bool.and_eq_true, Option.any_eq_true,
          decide_eq_true_eq] at hgoing
        obtain ⟨⟨⟨row', hrow', hid'⟩, -⟩, -⟩ := hgoing
        exact hne (creator_unique hrun hold hth hrow' hrow (hid'.trans hid.symm))
    · rw [hzero]
      refine AuthStore.upToDate_set fun hash deadline hotp => ?_
      have := deadline_of_runs hrun hotp
      omega
    · intro t' th' hth' haccount hdropped
      obtain ⟨id, hadmitted⟩ := admitted_of_dropped hrun' hth' hdropped
      obtain rfl := Option.some.inj (haccount.symm.trans hadmitted.1)
      exact absurd hadmitted (hquiet t' th' hth' true)
  · left
    refine ⟨?_, hquiet⟩
    cases c with
    | setAttempts id value ex =>
      have hne : a ≠ id := by
        rintro rfl
        exact hset ⟨value, ex, rfl⟩
      exact (Function.update_of_ne hne ..).trans h.counter
    | incrAttempts id =>
      have hne : a ≠ id := by
        rintro rfl
        exact h.quiet t _ hth false hmay.2
      exact (Function.update_of_ne hne ..).trans h.counter
    | delAttempts id =>
      have hne : a ≠ id := by
        rintro rfl
        exact h.quiet t _ hth true hmay.2.2
      exact (Function.update_of_ne hne ..).trans h.counter
    | create email hash b =>
      show (s.store.exec env x (.create email hash b)).1.attempts a = none
      simp only [AuthStore.exec]
      split <;> exact h.counter
    | _ => exact h.counter

/-- Where the calls come in turn, the counter is tracked. -/
theorem tracked_of_runs (h : AuthState.Runs env (CallsInTurn env a) AuthState.initial s) :
    Tracked env a s := by
  refine h.invariant (I := Tracked env a) (.inl ⟨rfl, fun t th hth => by cases hth⟩)
    fun s e s' hrun htracked hok hstep => ?_
  rcases htracked with hunspent | hcounting
  · have hrun' := hrun.tail hok hstep
    -- who has passed the check has come across more than at the beginning
    have hkeep (hstore : s'.store.attempts a = s.store.attempts a)
        (hsame : ∀ t th, s'.threads t = some th → ∀ b, th.state.Admitted env a b →
          ∃ t₀ th₀, s.threads t₀ = some th₀ ∧ th₀.state.Admitted env a b) : Tracked env a s' := by
      refine .inl ⟨hstore.trans hunspent.counter, fun t th hth b hadmitted => ?_⟩
      obtain ⟨t₀, th₀, hth₀, hadmitted₀⟩ := hsame t th hth b hadmitted
      exact hunspent.quiet t₀ th₀ hth₀ b hadmitted₀
    cases Server.step_of_eq hstep with
    | spawn req =>
      refine hkeep rfl fun t th hth b hadmitted => ?_
      rcases Pool.of_setThread hth with ⟨-, rfl⟩ | ⟨-, hold⟩
      · cases hadmitted.2.2
      · exact ⟨t, th, hold, hadmitted⟩
    | run x hth => exact hunspent.run hrun hth (hok _ hth _ rfl) x hrun'
    | @fail t l c k hth =>
      refine hkeep rfl fun t' th' hth' b hadmitted => ?_
      rcases Pool.of_setThread hth' with ⟨-, rfl⟩ | ⟨-, hold⟩
      · exact ⟨t, _, hth, by cases c <;> exact hadmitted⟩
      · exact ⟨t', th', hold, hadmitted⟩
    | @crash t l c k hth =>
      refine hkeep rfl fun t' th' hth' b hadmitted => ?_
      rcases Pool.of_setThread hth' with ⟨-, rfl⟩ | ⟨-, hold⟩
      · exact ⟨t, _, hth, hadmitted⟩
      · exact ⟨t', th', hold, hadmitted⟩
    | tick ms => exact hkeep rfl fun t th hth b hadmitted => ⟨t, th, hth, hadmitted⟩
  · exact .inr (hcounting.step hrun hstep)

/-- Who passes the check in turn finds fewer than five counted. -/
lemma Tracked.counted_lt (h : Tracked env a s)
    (hrun : AuthState.Runs env ok AuthState.initial s) {hash : Option String}
    (hlive : (Custody.live (s.store.otps a) s.store.now).isSome)
    (hadmits : (AuthService.admits hash (s.store.liveAttempts a)).isSome) :
    s.count (hasCounted a) < 5 := by
  rcases h with hunspent | hcounting
  · rw [hunspent.count_eq_zero hrun]
    exact Nat.zero_lt_succ 4
  · rcases hcounting.counter.liveAttempts hlive with ⟨-, hzero⟩ | hsome
    · omega
    · -- the limit of the code's own check
      rw [hsome] at hadmits
      cases hash with
      | none => cases hadmits
      | some hash =>
        have hpassed : ¬ hash = "" ∧ s.count (hasCounted a) < 5 := by
          simpa [AuthService.admits] using hadmits
        exact hpassed.2

end Tracked

/-! ## What the order keeps -/

/-- No more than five wrong codes are counted or on their way; when five are counted, no right
one is on its way. -/
structure Bounded (env : AuthEnv) (a : UserId) (s : AuthState) : Prop where
  bound : s.count (hasCounted a) + s.count (wrongInFlight env a) ≤ 5
  settled : ∀ t th, s.threads t = some th → th.state.Admitted env a false →
    th.state.counted = true ∨ th.next.isSome = true
  closed : 5 ≤ s.count (hasCounted a) → s.count (rightInFlight env a) = 0

lemma bounded_initial : Bounded env a AuthState.initial where
  bound := Nat.zero_le 5
  settled t th hth := by cases hth
  closed h := absurd h (Nat.not_succ_le_zero 4)

lemma toNat_le {p q : Bool} (h : p = true → q = true) : p.toNat ≤ q.toNat := by
  cases p <;> cases q <;> simp_all

/-- A thread that takes the place of what it was, in numbers. -/
lemma Bounded.setThread (h : Bounded env a s) (hfresh : Server.Fresh s)
    (hth : s.threads t = some th) (store : AuthStore) {th' : AuthThread}
    (hsettled : th'.state.Admitted env a false →
      th'.state.counted = true ∨ th'.next.isSome = true)
    (hbound : s.count (hasCounted a) + s.count (wrongInFlight env a) +
        (hasCounted a th').toNat + (wrongInFlight env a th').toNat ≤
      5 + (hasCounted a th).toNat + (wrongInFlight env a th).toNat)
    (hclosed : 5 + (hasCounted a th).toNat ≤
        s.count (hasCounted a) + (hasCounted a th').toNat →
      s.count (rightInFlight env a) = 0 ∧
        (rightInFlight env a th').toNat ≤ (rightInFlight env a th).toNat) :
    Bounded env a ({ s with store }.setThread t th') := by
  have hcounted := Pool.count_setThread (P := hasCounted a) hfresh hth store th'
  have hwrong := Pool.count_setThread (P := wrongInFlight env a) hfresh hth store th'
  have hright := Pool.count_setThread (P := rightInFlight env a) hfresh hth store th'
  constructor
  · omega
  · intro t' th₁ hth₁
    rcases Pool.of_setThread hth₁ with ⟨-, rfl⟩ | ⟨-, hold⟩
    · exact hsettled
    · exact h.settled t' th₁ hold
  · intro hfive
    obtain ⟨hzero, hle⟩ := hclosed (by omega)
    omega

/-- A thread that comes no nearer to anything. -/
lemma Bounded.keep (h : Bounded env a s) (hfresh : Server.Fresh s)
    (hth : s.threads t = some th) (store : AuthStore) {th' : AuthThread}
    (hsettled : th'.state.Admitted env a false →
      th'.state.counted = true ∨ th'.next.isSome = true)
    (hcounted : hasCounted a th' = hasCounted a th)
    (hwrong : wrongInFlight env a th' → wrongInFlight env a th)
    (hright : rightInFlight env a th' → rightInFlight env a th) :
    Bounded env a ({ s with store }.setThread t th') := by
  have hwrong' := toNat_le hwrong
  have hbound := h.bound
  refine h.setThread hfresh hth store hsettled (by rw [hcounted]; omega) fun hfive => ?_
  refine ⟨h.closed ?_, toNat_le hright⟩
  rw [hcounted] at hfive
  omega

/-! ## One step -/

section Step

variable {l : Visit} {c : AuthCmd} {k : Except Exn c.Ret → Auth AuthResponse}

/-- A call that is in flight after a command that it has not passed the check with was so in
front of it. -/
lemma inFlight_of_after {store : AuthStore} {r : Except Exn c.Ret} (hmay : l.May env c)
    (hback : ∀ b, (l.after store c r).Admitted env a b → l.Admitted env a b)
    {p : Auth AuthResponse} :
    (wrongInFlight env a ⟨l.after store c r, p, true⟩ →
      wrongInFlight env a ⟨l, .call c k, true⟩) ∧
    (rightInFlight env a ⟨l.after store c r, p, true⟩ →
      rightInFlight env a ⟨l, .call c k, true⟩) := by
  have hle := Visit.le_after hmay store r
  constructor
  · intro h
    simp only [wrongInFlight, Bool.and_eq_true, decide_eq_true_eq, Bool.not_eq_true'] at h ⊢
    obtain ⟨⟨hadmitted, hcounted⟩, -⟩ := h
    refine ⟨⟨hback false hadmitted, ?_⟩, rfl⟩
    by_contra hl
    rw [hle.counted (by simpa using hl)] at hcounted
    cases hcounted
  · intro h
    simp only [rightInFlight, Bool.and_eq_true, decide_eq_true_eq, Bool.not_eq_true'] at h ⊢
    obtain ⟨⟨hadmitted, hverified⟩, -⟩ := h
    refine ⟨⟨hback true hadmitted, ?_⟩, rfl⟩
    by_contra hl
    rw [hle.verified (by simpa using hl)] at hverified
    cases hverified

/-- An admitted wrong code that no command has failed for is counted before the end. -/
lemma settled_of_wp {p : Auth AuthResponse} (hwp : p.wp (accounts env) (Counts env) l)
    (hfailed : l.failed = false) (hadmitted : l.Admitted env a false) :
    l.counted = true ∨ (⟨l, p, true⟩ : AuthThread).next.isSome = true := by
  have hend (r : Except Exn AuthResponse) (hcounts : Counts env l r) : l.counted = true := by
    rcases hcounts a hadmitted with h | h
    · exact h
    · rw [hfailed] at h
      cases h
  cases p with
  | pure response => exact .inl (hend _ hwp)
  | throw err => exact .inl (hend _ hwp)
  | call c k => exact .inr rfl

lemma after_ok_failed (store : AuthStore) (answer : c.Ret) :
    (l.after store c (.ok answer)).failed = l.failed := by
  cases c <;> rfl

lemma not_admitted_of_create {email hash : String} {b b' : Bool}
    (hmay : l.May env (.create email hash b)) : ¬ l.Admitted env a b' := by
  obtain ⟨-, -, e, p, hreq, -⟩ := hmay
  intro h
  have haccount := h.1
  simp [Visit.account, hreq] at haccount

/-- A call reads the counter in its turn. -/
lemma Bounded.getAttempts (h : Bounded env a s) (hfresh : Server.Fresh s)
    {k : Except Exn (Option ℕ) → Auth AuthResponse}
    (hth : s.threads t = some ⟨l, .call (.getAttempts a) k, true⟩)
    (hmay : l.May env (.getAttempts a)) (hturn : InTurn env a s l (.getAttempts a))
    (hfew : (AuthService.admits l.hash (s.store.liveAttempts a)).isSome →
      (Custody.live (s.store.otps a) s.store.now).isSome → s.count (hasCounted a) < 5)
    {l' : Visit} (hl' : l' = { l with attempts := some (s.store.liveAttempts a) })
    {p : Auth AuthResponse} (hsettled : l'.Admitted env a false →
      l'.counted = true ∨ (⟨l', p, true⟩ : AuthThread).next.isSome = true) :
    Bounded env a (s.setThread t ⟨l', p, true⟩) := by
  obtain ⟨hattempts, -, hcounted, -, -⟩ := hmay
  have hbound := h.bound
  have hverdict : l'.verdict env = l.verdict env := by rw [hl']; rfl
  have hadmitted : l'.admitted = AuthService.admits l.hash (s.store.liveAttempts a) := by
    rw [hl']
    rfl
  have hc : hasCounted a (⟨l, .call (.getAttempts a) k, true⟩ : AuthThread) = false := by
    simp [hasCounted, hcounted]
  have hc' : hasCounted a (⟨l', p, true⟩ : AuthThread) = false := by
    simp [hasCounted, hl', hcounted]
  by_cases hpassed : (AuthService.admits l.hash (s.store.liveAttempts a)).isSome
  · obtain ⟨hlive, -, hfree⟩ := hturn rfl hpassed
    have hlt := hfew hpassed hlive
    refine h.setThread hfresh hth s.store hsettled ?_ fun hfive => ?_
    · rw [hc, hc']
      by_cases hwrong : l.verdict env = some false
      · have hzero := hfree hwrong
        have := Bool.toNat_le (wrongInFlight env a (⟨l', p, true⟩ : AuthThread))
        omega
      · -- a right code is no wrong one
        have hw' : wrongInFlight env a (⟨l', p, true⟩ : AuthThread) = false := by
          simp [wrongInFlight, Visit.Admitted, hverdict, hwrong]
        rw [hw', Bool.toNat_false]
        omega
    · rw [hc, hc'] at hfive
      omega
  · have hnone (b : Bool) : ¬ l'.Admitted env a b := by
      intro hl
      exact hpassed (hadmitted ▸ hl.2.2)
    refine h.keep hfresh hth s.store hsettled (hc'.trans hc.symm) ?_ ?_
    · simp [wrongInFlight, hnone]
    · simp [rightInFlight, hnone]

/-- A call counts its wrong code in its turn. -/
lemma Bounded.incrAttempts (h : Bounded env a s) (hfresh : Server.Fresh s) {id : UserId}
    {k : Except Exn Unit → Auth AuthResponse}
    (hth : s.threads t = some ⟨l, .call (.incrAttempts id) k, true⟩)
    (hmay : l.May env (.incrAttempts id)) (hturn : InTurn env a s l (.incrAttempts id))
    (store : AuthStore) (p : Auth AuthResponse) :
    Bounded env a ({ s with store }.setThread t ⟨{ l with counted := true }, p, true⟩) := by
  obtain ⟨hcounted, hadmitted⟩ := hmay
  have hbound := h.bound
  have hadmitted' : ({ l with counted := true } : Visit).Admitted env id false := hadmitted
  by_cases hid : id = a
  · subst hid
    have hc : hasCounted id (⟨l, .call (.incrAttempts id) k, true⟩ : AuthThread) = false := by
      simp [hasCounted, hcounted]
    have hw : wrongInFlight env id (⟨l, .call (.incrAttempts id) k, true⟩ : AuthThread) = true := by
      simp [wrongInFlight, hadmitted, hcounted]
    have hc' := Bool.toNat_le
      (hasCounted id (⟨{ l with counted := true }, p, true⟩ : AuthThread))
    have hw' : wrongInFlight env id (⟨{ l with counted := true }, p, true⟩ : AuthThread) =
        false := by simp [wrongInFlight]
    have hr' : rightInFlight env id (⟨{ l with counted := true }, p, true⟩ : AuthThread) =
        false := by simp [rightInFlight, Visit.Admitted, hadmitted'.2.1]
    refine h.setThread hfresh hth store (fun _ => .inl rfl) ?_ fun _ => ?_
    · rw [hc, hw, hw', Bool.toNat_true, Bool.toNat_false]
      omega
    · rw [hr']
      exact ⟨hturn rfl, Nat.zero_le _⟩
  · have hother (l' : Visit) (hl' : l'.account = l.account) : l'.account ≠ some a := by
      rw [hl', hadmitted.1]
      simpa using hid
    refine h.keep hfresh hth store (fun _ => .inl rfl) ?_ ?_ ?_
    · simp [hasCounted, hother l rfl, hother { l with counted := true } rfl]
    · simp [wrongInFlight]
    · simp [rightInFlight, Visit.Admitted, hother { l with counted := true } rfl]

/-- A command is carried out in its turn. -/
lemma Bounded.run (h : Bounded env a s) (hfresh : Server.Fresh s)
    (hth : s.threads t = some ⟨l, .call c k, true⟩) (hfailed : l.failed = false)
    (hmay : l.May env c) (hturn : InTurn env a s l c) (x : ℕ)
    (hrun : AuthState.Runs env ok AuthState.initial s) (htracked : Tracked env a s)
    (hwp : (k (s.store.exec env x c).2).wp (accounts env) (Counts env)
      (l.after s.store c (s.store.exec env x c).2)) :
    Bounded env a ((authServer env).resume s t l c k (s.store.exec env x c).1
      (s.store.exec env x c).2) := by
  have hsettled (hadmitted : (l.after s.store c (s.store.exec env x c).2).Admitted env a false) :
      (l.after s.store c (s.store.exec env x c).2).counted = true ∨
      (⟨l.after s.store c (s.store.exec env x c).2, k (s.store.exec env x c).2, true⟩ :
        AuthThread).next.isSome = true := by
    refine settled_of_wp hwp ?_ hadmitted
    cases hr : (s.store.exec env x c).2 with
    | ok answer => rw [after_ok_failed, hfailed]
    | error err =>
      -- a registration: it has no code to be wrong
      obtain ⟨email, hash, b, rfl⟩ := AuthStore.eq_create_of_error hr
      rcases Visit.admitted_of_after hmay hadmitted with hold | hget
      · exact absurd hold (not_admitted_of_create hmay)
      · cases hget
  by_cases hget : c = .getAttempts a
  · subst hget
    exact h.getAttempts hfresh hth hmay hturn
      (fun hadmits hlive => htracked.counted_lt hrun hlive hadmits) rfl hsettled
  · by_cases hincr : ∃ id, c = .incrAttempts id
    · obtain ⟨id, rfl⟩ := hincr
      exact h.incrAttempts hfresh hth hmay hturn _ _
    · rw [not_exists] at hincr
      obtain ⟨hwrong, hright⟩ := inFlight_of_after (k := k) hmay
        fun b hadmitted => (Visit.admitted_of_after hmay hadmitted).resolve_right hget
      exact h.keep hfresh hth _ hsettled (hasCounted_after hmay hincr) hwrong hright

/-- What happens to a thread in its turn. -/
lemma Bounded.step (h : Bounded env a s) (hrun : AuthState.Runs env ok AuthState.initial s)
    (htracked : Tracked env a s) (hfresh : Server.Fresh s)
    (hobeys : Server.Obeys (accounts env) (Counts env) s)
    (hobeys' : Server.Obeys (accounts env) (Counts env) s') (hok : CallsInTurn env a s e)
    (hstep : (authServer env).step s e = some s') : Bounded env a s' := by
  cases Server.step_of_eq hstep with
  | spawn req =>
    -- a new request has come across nothing yet
    have hnew (b : Bool) : ¬ ({ req } : Visit).Admitted env a b := fun h => by cases h.2.2
    have hc : hasCounted a ((authServer env).thread req) = false := by
      simp [hasCounted, Server.thread, authServer]
    have hw : wrongInFlight env a ((authServer env).thread req) = false := by
      simp [wrongInFlight, Server.thread, authServer, hnew]
    have hr : rightInFlight env a ((authServer env).thread req) = false := by
      simp [rightInFlight, Server.thread, authServer, hnew]
    constructor
    · rw [Pool.count_spawn, Pool.count_spawn, hc, hw]
      exact h.bound
    · intro t th hth
      rcases Pool.of_setThread hth with ⟨-, rfl⟩ | ⟨-, hold⟩
      · exact fun hadmitted => absurd hadmitted (hnew false)
      · exact h.settled t th hold
    · rw [Pool.count_spawn, Pool.count_spawn, hc, hr]
      exact h.closed
  | @run t x l c k hth =>
    obtain ⟨hfailed, hmay⟩ := hobeys.guard hth
    refine h.run hfresh hth hfailed hmay (hok _ hth c rfl) x hrun htracked ?_
    exact hobeys' t _ Pool.setThread_self
  | @fail t l c k hth =>
    obtain ⟨-, hmay⟩ := hobeys.guard hth
    have hflight : ¬ wrongInFlight env a ⟨l, .call c k, true⟩ := hok _ hth
    have hback (b : Bool) (h : (l.after s.store c (.error .unavailable)).Admitted env a b) :
        l.Admitted env a b := by
      cases c <;> exact h
    have hcounted : (l.after s.store c (.error .unavailable)).counted = l.counted := by
      cases c <;> rfl
    have hsame : hasCounted a (⟨l.after s.store c (.error .unavailable),
        k (.error .unavailable), true⟩ : AuthThread) = hasCounted a ⟨l, .call c k, true⟩ := by
      cases c <;> rfl
    obtain ⟨hwrong, hright⟩ := inFlight_of_after (k := k) hmay hback
    refine h.keep hfresh hth s.store (fun hadmitted => .inl ?_) hsame hwrong hright
    show (l.after s.store c (.error .unavailable)).counted = true
    rw [hcounted]
    by_contra hl
    exact hflight (by simp [wrongInFlight, hback false hadmitted, hl])
  | @crash t l c k hth =>
    have hflight : ¬ wrongInFlight env a ⟨l, .call c k, true⟩ := hok _ hth
    refine h.keep hfresh hth s.store (fun hadmitted => .inl ?_) rfl ?_ ?_
    · by_contra hcounted
      simp [wrongInFlight, hadmitted, hcounted] at hflight
    · simp [wrongInFlight]
    · simp [rightInFlight]
  | tick ms => exact ⟨h.bound, h.settled, h.closed⟩

end Step

/-! ## Whole runs -/

theorem bounded_of_runs (h : AuthState.Runs env (CallsInTurn env a) AuthState.initial s) :
    Bounded env a s :=
  h.invariant bounded_initial fun _ _ _ hrun hbounded hok hstep =>
    hbounded.step hrun (tracked_of_runs hrun) (fresh_of_runs hrun) (obeys_of_runs hrun)
      (obeys_of_runs (hrun.tail hok hstep)) hok hstep

/-- Who has compared has passed the check. -/
lemma admitted_of_compared (h : AuthState.Runs env ok AuthState.initial s)
    (hth : s.threads t = some th) (hcompared : th.state.compared = true)
    (haccount : th.state.account.isSome) : th.state.admitted.isSome := by
  have hvisit := visit_of_runs (G := fun l => l.compared = true → l.account.isSome →
    l.admitted.isSome) h (by simp) (fun s l c r hmay _ hG => ?_) hth
  · exact hvisit hcompared haccount
  · cases c with
    | findByEmail email | getOtp id | getAttempts id =>
      cases r <;> simp_all [Visit.after, Visit.May]
    | compare data hash =>
      rcases hmay with ⟨e, p, hreq⟩ | ⟨hadmitted, -⟩
      · cases r <;> simp [Visit.after, Visit.account, hreq]
      · have hsome : l.admitted.isSome := by rw [hadmitted]; rfl
        cases r <;> exact fun _ _ => hsome
    | _ => cases r <;> exact hG

/-- Every wrong code that has been tried is counted or on its way. -/
lemma tried_le (h : AuthState.Runs env (CallsInTurn env a) AuthState.initial s) :
    s.count (hasTried env a) ≤ s.count (hasCounted a) + s.count (wrongInFlight env a) := by
  refine Pool.count_le_add fun t th hth htried => ?_
  simp only [hasTried, Bool.and_eq_true, Bool.or_eq_true, decide_eq_true_eq] at htried
  obtain ⟨⟨haccount, hverdict⟩, hreached⟩ := htried
  have hpassed : th.state.admitted.isSome := by
    rcases hreached with hcompared | hnext
    · exact admitted_of_compared h hth hcompared (by rw [haccount]; rfl)
    · obtain ⟨c, hc, hcompare⟩ := (Option.any_eq_true ..).mp hnext
      obtain ⟨k, hk⟩ := Thread.eq_of_next hc
      rw [hk] at hth
      have hmay := ((obeys_of_runs h).guard hth).2
      cases c with
      | compare data hash =>
        rcases hmay with ⟨e, p, hreq⟩ | ⟨hadmitted, -⟩
        · simp [Visit.account, hreq] at haccount
        · rw [hadmitted]
          rfl
      | _ => cases hcompare
  have hadmitted : th.state.Admitted env a false := ⟨haccount, hverdict, hpassed⟩
  rcases (bounded_of_runs h).settled t th hth hadmitted with hcounted | hnext
  · left
    simp [hasCounted, haccount, hcounted]
  · by_cases hcounted : th.state.counted = true
    · left
      simp [hasCounted, haccount, hcounted]
    · right
      simp [wrongInFlight, hadmitted, hcounted, hnext]

/-- Where the calls come in turn, five wrong codes at most are tried, and when five are counted
no call verifies the account any more. -/
theorem wrong_codes_bounded (h : AuthState.Runs env (CallsInTurn env a) AuthState.initial s) :
    s.count (hasTried env a) ≤ 5 ∧ (5 ≤ s.count (hasCounted a) →
      ∀ s', AuthState.Runs env (CallsInTurn env a) s s' → isVerified a s' = isVerified a s) := by
  refine ⟨(tried_le h).trans (bounded_of_runs h).bound, fun hfive s' hrun => ?_⟩
  refine hrun.invariant (I := fun s' => isVerified a s' = isVerified a s) rfl
    fun s₁ e s₂ hs₁ hsame _ hstep => ?_
  rw [← hsame]
  by_contra hne
  have hobeys := obeys_of_runs (h.trans hs₁)
  obtain ⟨t, b, hnext⟩ := update_of_isVerified hobeys hstep hne
  obtain ⟨l, k, hth⟩ := Pool.eq_of_next hnext
  obtain ⟨hverified, -, hadmitted⟩ := (hobeys.guard hth).2
  -- the call in front of the UPDATE would be in flight
  have hzero := (bounded_of_runs (h.trans hs₁)).closed (hfive.trans (counted_le h hs₁))
  have hpos := Pool.count_pos (P := rightInFlight env a) (fresh_of_runs (h.trans hs₁)) hth
    (by simp [rightInFlight, hverified, hadmitted])
  omega

/-! ## Five codes, and six -/

/-- A wrong code, from beginning to end. -/
def wrongCode (t n : ℕ) : List AuthEvent := arrive t n (.verifyOtp "user@example.com" "999999")

/-- One after the other: five are tried, and the right code comes too late. -/
def sixCalls : List AuthEvent :=
  registration ++ wrongCode 1 5 ++ wrongCode 2 5 ++ wrongCode 3 5 ++ wrongCode 4 5 ++
    wrongCode 5 5 ++ arrive 6 3 (.verifyOtp "user@example.com" "100000")

/-- At the same time: all six have read a counter of zero. -/
def sixAtOnce : List AuthEvent :=
  registration ++ wrongCode 1 3 ++ wrongCode 2 3 ++ wrongCode 3 3 ++ wrongCode 4 3 ++
    wrongCode 5 3 ++ wrongCode 6 3

/-- The right code is read before the five wrong ones are counted. -/
def rightFirst : List AuthEvent :=
  registration ++ arrive 1 3 (.verifyOtp "user@example.com" "100000") ++ wrongCode 2 5 ++
    wrongCode 3 5 ++ wrongCode 4 5 ++ wrongCode 5 5 ++ wrongCode 6 5

theorem wrong_codes_bounded_six :
    ∃ s, AuthState.Runs plainAuth (CallsInTurn plainAuth 1) AuthState.initial s ∧
      s.count (hasCounted 1) = 5 ∧ s.count (hasTried plainAuth 1) ≤ 5 ∧
      ∀ s', AuthState.Runs plainAuth (CallsInTurn plainAuth 1) s s' →
        isVerified 1 s' = isVerified 1 s := by
  have hplay : (runAll (authServer plainAuth).step (CallsInTurn plainAuth 1) AuthState.initial
      sixCalls).any (fun s => s.count (hasCounted 1) = 5) = true := by decide +kernel
  obtain ⟨s, hrun, hcount⟩ := exists_of_runAll hplay
  have hfive : s.count (hasCounted 1) = 5 := of_decide_eq_true hcount
  exact ⟨s, hrun, hfive, (wrong_codes_bounded hrun).1, (wrong_codes_bounded hrun).2 hfive.ge⟩

/-- Six wrong codes are tried, and an account is verified after five have been counted. -/
theorem wrong_codes_unbounded :
    (∃ s, AuthState.Reachable plainAuth s ∧ s.count (hasTried plainAuth 1) = 6) ∧
    ∃ s s', AuthState.Reachable plainAuth s ∧ s.count (hasCounted 1) = 5 ∧
      AuthState.Runs plainAuth anyStep s s' ∧ isVerified 1 s = false ∧
      isVerified 1 s' = true := by
  constructor
  · have hplay : (runAll (authServer plainAuth).step anyStep AuthState.initial sixAtOnce).any
        (fun s => s.count (hasTried plainAuth 1) = 6) = true := by decide +kernel
    obtain ⟨s, hrun, hcount⟩ := exists_of_runAll hplay
    exact ⟨s, hrun, of_decide_eq_true hcount⟩
  · have hplay : (runAll (authServer plainAuth).step anyStep AuthState.initial rightFirst).any
        (fun s => s.count (hasCounted 1) = 5 && !isVerified 1 s &&
          (runAll (authServer plainAuth).step anyStep s (List.replicate 2 (.run 1 0))).any
            (isVerified 1)) = true := by decide +kernel
    obtain ⟨s, hrun, hs⟩ := exists_of_runAll hplay
    simp only [Bool.and_eq_true, decide_eq_true_eq, Bool.not_eq_true'] at hs
    obtain ⟨⟨hcount, hnot⟩, hlater⟩ := hs
    obtain ⟨s', hrun', hverified⟩ := exists_of_runAll hlater
    exact ⟨s, s', hrun, hcount, hrun', hnot, hverified⟩

end FxExchange
