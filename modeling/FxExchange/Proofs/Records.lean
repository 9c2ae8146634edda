import FxExchange.Proofs.Accounts

/-
# Who has written what

What the tables and the requests record comes from requests that are still there: a user and
a hashed code from a registration, an account that is verified from a call with the right
code, and each counted attempt from a call with a wrong one.
-/

namespace FxExchange

open Interleaving Transition

variable {env : AuthEnv} {s s' s₀ : AuthState} {e : AuthEvent} {t t' : ℕ} {th th' : AuthThread}
  {id : UserId} {row row' : UserRow} {ok : AuthState → AuthEvent → Prop}

/-! ## What is counted -/

/-- A call that has counted its wrong code. -/
def hasCounted (id : UserId) (th : AuthThread) : Bool :=
  th.state.account = some id && th.state.counted

/-- The account of the user has been verified. -/
def isVerified (id : UserId) (s : AuthState) : Bool :=
  s.store.users.any fun user => user.id = id && user.isVerified

/-- A counted code stays counted. -/
lemma counted_le (h₀ : AuthState.Runs env ok AuthState.initial s₀)
    (h : AuthState.Runs env ok s₀ s) : s₀.count (hasCounted id) ≤ s.count (hasCounted id) := by
  refine Pool.count_le_count (Server.seq_le_of_runs h) fun t th hth hcounted => ?_
  obtain ⟨th', hth', hle⟩ := exists_visit_of_runs h₀ h hth
  simp only [hasCounted, Bool.and_eq_true, decide_eq_true_eq] at hcounted
  refine ⟨th', hth', ?_⟩
  simp [hasCounted, hle.account hcounted.1, hle.counted hcounted.2]

/-- The UPDATE of one account leaves the others as they are. -/
lemma User.update_of_ne {id' : UserId} (hid : id' ≠ id) (b : Bool) (user : User) :
    (decide ((user.update id' b).id = id) && (user.update id' b).isVerified) =
      (decide (user.id = id) && user.isVerified) := by
  unfold User.update
  split
  · rename_i huser
    simp [huser, hid]
  · rfl

/-- It is the UPDATE that verifies an account. -/
lemma update_of_isVerified (hobeys : Server.Obeys (accounts env) (Counts env) s)
    (hstep : (authServer env).step s e = some s') (hne : isVerified id s' ≠ isVerified id s) :
    ∃ t b, s.next t = some (.update id b) := by
  cases Server.step_of_eq hstep with
  | @run t x l c k hth =>
    cases c with
    | create email hash b =>
      obtain ⟨-, rfl, -⟩ := (hobeys.guard hth).2
      refine absurd ?_ hne
      simp only [isVerified, Server.resume, Pool.setThread_store, authServer, AuthStore.exec]
      split
      · rfl
      · simp
    | update id' b =>
      refine ⟨t, b, ?_⟩
      rw [Pool.next_eq hth, Thread.next_call]
      by_contra hid
      have hid' : id' ≠ id := by
        rintro rfl
        exact hid rfl
      refine hne ?_
      simp only [isVerified, Server.resume, Pool.setThread_store, authServer, AuthStore.exec,
        List.any_map, Function.comp_def, User.update_of_ne hid']
    | _ => exact absurd rfl hne
  | _ => exact absurd rfl hne

/-! ## Users -/

namespace AuthStore

/-- The keys of the table. -/
structure Users (s : AuthStore) : Prop where
  ids : (s.users.map fun user => user.id).Nodup
  emails : (s.users.map fun user => user.email).Nodup
  lt : ∀ user ∈ s.users, user.id < s.nextId

variable {s : AuthStore} {user user' : User}

lemma users_empty : empty.Users := by
  constructor <;> simp [empty]

lemma Users.eq_of_id (h : s.Users) (hu : user ∈ s.users) (hu' : user' ∈ s.users)
    (hid : user.id = user'.id) : user = user' :=
  List.inj_on_of_nodup_map h.ids hu hu' hid

lemma Users.eq_of_email (h : s.Users) (hu : user ∈ s.users) (hu' : user' ∈ s.users)
    (hemail : user.email = user'.email) : user = user' :=
  List.inj_on_of_nodup_map h.emails hu hu' hemail

/-- The user that is found is the one there is. -/
lemma Users.findUser_eq (h : s.Users) (hu : user ∈ s.users) :
    s.findUser user.email = some user := by
  cases hfound : s.findUser user.email with
  | none =>
    have := List.find?_eq_none.mp hfound user hu
    simp at this
  | some user' =>
    obtain ⟨hmem, hemail⟩ := findUser_email hfound
    rw [h.eq_of_email hmem hu hemail]

lemma Users.exec (h : s.Users) (x : ℕ) (c : AuthCmd) : (s.exec env x c).1.Users := by
  cases c with
  | create email hash b =>
    simp only [AuthStore.exec]
    split
    · exact h
    · rename_i hnone
      rw [Option.not_isSome_iff_eq_none] at hnone
      have hfree : ∀ user ∈ s.users, user.email ≠ email := by
        simpa using List.find?_eq_none.mp hnone
      constructor
      · rw [List.map_append, List.nodup_append]
        refine ⟨h.ids, by simp, ?_⟩
        simp only [List.mem_map, List.map_cons, List.map_nil, List.mem_singleton]
        rintro _ ⟨user, hu, rfl⟩ _ rfl
        exact (h.lt user hu).ne
      · rw [List.map_append, List.nodup_append]
        refine ⟨h.emails, by simp, ?_⟩
        simp only [List.mem_map, List.map_cons, List.map_nil, List.mem_singleton]
        rintro _ ⟨user, hu, rfl⟩ _ rfl
        exact hfree user hu
      · intro user hu
        rcases List.mem_append.mp hu with hu | hu
        · exact Nat.lt_succ_of_lt (h.lt user hu)
        · rw [List.mem_singleton.mp hu]
          exact Nat.lt_succ_self _
  | update id b =>
    have hid (user : User) : (User.update id b user).id = user.id := by
      unfold User.update
      split <;> rfl
    have hemail (user : User) : (User.update id b user).email = user.email := by
      unfold User.update
      split <;> rfl
    constructor
    · simpa [AuthStore.exec, Function.comp_def, hid] using h.ids
    · simpa [AuthStore.exec, Function.comp_def, hemail] using h.emails
    · intro user hu
      obtain ⟨user', hu', rfl⟩ := List.mem_map.mp hu
      rw [hid]
      exact h.lt user' hu'
  | _ => exact ⟨h.ids, h.emails, h.lt⟩

lemma nextId_le_exec (s : AuthStore) (x : ℕ) (c : AuthCmd) :
    s.nextId ≤ (s.exec env x c).1.nextId := by
  cases c with
  | create email hash b =>
    simp only [AuthStore.exec]
    split
    · exact Nat.le_refl _
    · exact Nat.le_succ _
  | _ => exact Nat.le_refl _

/-- A user stays, with what identifies it. -/
def Keeps (s s' : AuthStore) : Prop := ∀ user ∈ s.users, ∃ user' ∈ s'.users,
  user'.id = user.id ∧ user'.email = user.email ∧ user'.passwordHash = user.passwordHash

lemma keeps_exec (s : AuthStore) (x : ℕ) (c : AuthCmd) : s.Keeps (s.exec env x c).1 := by
  intro user hu
  cases c with
  | create email hash b =>
    simp only [AuthStore.exec]
    split
    · exact ⟨user, hu, rfl, rfl, rfl⟩
    · exact ⟨user, List.mem_append_left _ hu, rfl, rfl, rfl⟩
  | update id b =>
    refine ⟨User.update id b user, List.mem_map.mpr ⟨user, hu, rfl⟩, ?_⟩
    unfold User.update
    split <;> exact ⟨rfl, rfl, rfl⟩
  | _ => exact ⟨user, hu, rfl, rfl, rfl⟩

lemma liveAttempts_eq {id : UserId} {n : ℕ} (h : s.liveAttempts id = some n) :
    ∃ deadline, s.attempts id = some (n, deadline) := by
  unfold liveAttempts at h
  split at h
  · cases h
  · rename_i m hm
    obtain rfl := Option.some.inj h
    exact ⟨none, hm⟩
  · rename_i m deadline hm
    split at h
    · obtain rfl := Option.some.inj h
      exact ⟨some deadline, hm⟩
    · cases h

lemma incr_le {id : UserId} {b : ℕ}
    (h : ∀ n deadline, s.attempts id = some (n, deadline) → n ≤ b) : (s.incr id).1 ≤ b + 1 := by
  unfold incr
  split
  · exact Nat.le_add_left 1 b
  · rename_i n hn
    obtain ⟨deadline, hcounter⟩ := liveAttempts_eq hn
    exact Nat.succ_le_succ (h n deadline hcounter)

end AuthStore

/-- The store after a step: time may have passed, or a command has run. -/
lemma store_step (hstep : (authServer env).step s e = some s') :
    (∃ now, s'.store = { s.store with now }) ∨
      ∃ t x l c k, s.threads t = some ⟨l, .call c k, true⟩ ∧ e = .run t x ∧
        s'.store = (s.store.exec env x c).1 := by
  rcases (Server.step_of_eq hstep).store with heq | ⟨ms, heq⟩ | ⟨t, x, l, c, k, he, hth, heq⟩
  · exact .inl ⟨s.store.now, heq⟩
  · exact .inl ⟨s.store.now + ms, heq⟩
  · exact .inr ⟨t, x, l, c, k, hth, he, heq⟩

lemma keeps_step (hstep : (authServer env).step s e = some s') : s.store.Keeps s'.store := by
  rcases store_step hstep with ⟨now, heq⟩ | ⟨t, x, l, c, k, -, -, heq⟩
  · rw [heq]
    exact fun user hu => ⟨user, hu, rfl, rfl, rfl⟩
  · rw [heq]
    exact AuthStore.keeps_exec s.store x c

theorem users_of_runs (h : AuthState.Runs env ok AuthState.initial s) : s.store.Users := by
  refine h.invariant (I := fun s => s.store.Users) AuthStore.users_empty
    fun s e s' _ husers _ hstep => ?_
  rcases store_step hstep with ⟨now, heq⟩ | ⟨t, x, l, c, k, -, -, heq⟩
  · rw [heq]
    exact ⟨husers.ids, husers.emails, husers.lt⟩
  · rw [heq]
    exact husers.exec x c

lemma Visit.account_of_found {l : Visit} (h : l.found = none) : l.account = none := by
  unfold Visit.account
  rw [h]
  split <;> rfl

lemma Visit.exists_found {l : Visit} (h : l.account = some id) :
    ∃ row, l.found = some row ∧ row.id = id := by
  unfold Visit.account at h
  split at h
  · exact Option.map_eq_some_iff.mp h
  · cases h

/-- A command that has run has had its effect on the store. -/
lemma store_of_run {x : ℕ} {l : Visit} {c : AuthCmd} {k : Except Exn c.Ret → Auth AuthResponse}
    (hth : s.threads t = some ⟨l, .call c k, true⟩)
    (hstep : (authServer env).step s (.run t x) = some s') :
    s'.store = (s.store.exec env x c).1 := by
  rw [Server.step_run x hth] at hstep
  rw [← Option.some.inj hstep]
  rfl

/-! ## Registrations -/

/-- The user of a registration is in the table, with the address and the password that it was
for. -/
def Visit.Stored (env : AuthEnv) (l : Visit) (row : UserRow) (store : AuthStore) : Prop :=
  ∃ e p, l.req = .register e p ∧ row.email = env.normalize e ∧ ∃ user ∈ store.users,
    user.id = row.id ∧ user.email = row.email ∧ HashOf env p user.passwordHash

theorem stored_of_runs (h : AuthState.Runs env ok AuthState.initial s)
    (hth : s.threads t = some th) (hrow : th.state.created = some row) :
    th.state.Stored env row s.store := by
  refine forall_visits_of_runs (P := fun s l => ∀ row, l.created = some row →
    l.Stored env row s.store) h (by simp) ?_ ?_ hth row hrow
  · intro s e s' l _ _ hstep hP row hrow
    obtain ⟨e, p, hreq, hemail, user, hu, hid, huser, hhash⟩ := hP row hrow
    obtain ⟨user', hu', hid', hemail', hhash'⟩ := keeps_step hstep user hu
    exact ⟨e, p, hreq, hemail, user', hu', hid'.trans hid, hemail'.trans huser,
      hhash' ▸ hhash⟩
  · intro s e s' t l c k r _ _ hstep hth hmay hanswers _ hP
    cases c with
    | create email hash b =>
      obtain ⟨hnone, -, e, p, hreq, hemail, hhash⟩ := hmay
      cases hanswers with
      | fail => exact hP
      | run x =>
        rw [store_of_run hth hstep]
        simp only [authServer, AuthStore.exec]
        split
        · intro row hrow
          have hold : l.created = some row := hrow
          rw [hnone] at hold
          cases hold
        · rintro row ⟨⟩
          exact ⟨e, p, hreq, hemail, _, List.mem_append_right _ (List.mem_singleton_self _),
            rfl, rfl, hhash⟩
    | _ => cases r <;> exact hP

/-- A registration has just stored its user, or it had before. -/
lemma created_step (hstep : (authServer env).step s e = some s')
    (hth : s'.threads t = some th) (hrow : th.state.created = some row) :
    (∃ th₀, s.threads t = some th₀ ∧ th₀.state.created = some row) ∨
      row.id = s.store.nextId ∧ ∃ x, e = .run t x := by
  rcases (Server.step_of_eq hstep).thread hth with ⟨req, -, -, rfl⟩ | ⟨th₀, hth₀, hstate, -⟩ |
    ⟨l, c, k, r, hth₀, hanswers, rfl⟩
  · cases hrow
  · exact .inl ⟨th₀, hth₀, hstate ▸ hrow⟩
  · cases c with
    | create email hash b =>
      cases hanswers with
      | fail => exact .inl ⟨_, hth₀, hrow⟩
      | run x =>
        simp only [authServer, AuthStore.exec] at hrow
        split at hrow
        · exact .inl ⟨_, hth₀, hrow⟩
        · obtain rfl := Option.some.inj hrow
          exact .inr ⟨rfl, x, rfl⟩
    | _ => cases r <;> exact .inl ⟨_, hth₀, hrow⟩

/-- No two registrations have stored the same user. -/
theorem creator_unique (h : AuthState.Runs env ok AuthState.initial s)
    (hth : s.threads t = some th) (hth' : s.threads t' = some th')
    (hrow : th.state.created = some row) (hrow' : th'.state.created = some row')
    (hid : row.id = row'.id) : t = t' := by
  refine h.invariant (I := fun s => ∀ t t' th th' row row', s.threads t = some th →
    s.threads t' = some th' → th.state.created = some row → th'.state.created = some row' →
    row.id = row'.id → t = t') ?_ ?_ t t' th th' row row' hth hth' hrow hrow' hid
  · intro t t' th th' row row' hth
    cases hth
  · intro s e s' hrun hI _ hstep t t' th th' row row' hth hth' hrow hrow' hid
    -- an identifier that is in use is not the next one
    have hlt {t : ℕ} {th : AuthThread} {row : UserRow} (hth : s.threads t = some th)
        (hrow : th.state.created = some row) : row.id < s.store.nextId := by
      obtain ⟨e, p, -, -, user, hu, huser, -⟩ := stored_of_runs hrun hth hrow
      exact huser ▸ (users_of_runs hrun).lt user hu
    rcases created_step hstep hth hrow with ⟨th₀, hth₀, hrow₀⟩ | ⟨hnext, x, hx⟩ <;>
      rcases created_step hstep hth' hrow' with ⟨th₁, hth₁, hrow₁⟩ | ⟨hnext', x', hx'⟩
    · exact hI t t' th₀ th₁ row row' hth₀ hth₁ hrow₀ hrow₁ hid
    · exact absurd (hid.trans hnext') (hlt hth₀ hrow₀).ne
    · exact absurd (hid.symm.trans hnext) (hlt hth₁ hrow₁).ne
    · rw [hx] at hx'
      cases hx'
      rfl

/-- A code is drawn between the two bounds. -/
lemma code_of_runs (h : AuthState.Runs env ok AuthState.initial s)
    (hth : s.threads t = some th) {code : String} (hcode : th.state.code = some code) :
    ∃ n, code = toString n ∧ 100000 ≤ n ∧ n < 999999 := by
  refine visit_of_runs (G := fun l => ∀ code, l.code = some code →
    ∃ n, code = toString n ∧ 100000 ≤ n ∧ n < 999999) h (by simp) ?_ hth code hcode
  intro s l c r hmay hreply hG
  cases c with
  | randomInt min max =>
    obtain ⟨-, rfl, rfl⟩ := hmay
    cases r with
    | error err => exact hG
    | ok n =>
      rintro code ⟨⟩
      obtain ⟨hmin, hmax⟩ := hreply (by decide)
      exact ⟨n, rfl, hmin, hmax⟩
  | _ => cases r <;> exact hG

/-! ## Requests that are still there -/

/-- Some request has come across this. -/
def AuthState.Has (s : AuthState) (P : Visit → Prop) : Prop :=
  ∃ t th, s.threads t = some th ∧ P th.state

/-- What a request has come across, it has come across for good. -/
lemma AuthState.Has.step {P : Visit → Prop} (h : AuthState.Has s P)
    (hmono : ∀ l l', l.Le l' → P l → P l') (hrun : AuthState.Runs env ok AuthState.initial s)
    (hok : ok s e) (hstep : (authServer env).step s e = some s') : AuthState.Has s' P := by
  obtain ⟨t, th, hth, hP⟩ := h
  obtain ⟨th', hth', hle⟩ := exists_visit_of_runs hrun (Runs.refl.tail hok hstep) hth
  exact ⟨t, th', hth', hmono _ _ hle hP⟩

/-- A registration that has drawn a code for an account. -/
def Visit.Issued (id : UserId) (code : String) (l : Visit) : Prop :=
  (∃ row, l.created = some row ∧ row.id = id) ∧ l.code = some code

lemma Visit.Issued.mono {code : String} {l l' : Visit} (hle : l.Le l') (h : l.Issued id code) :
    l'.Issued id code := by
  obtain ⟨⟨row, hrow, hid⟩, hcode⟩ := h
  exact ⟨⟨row, hle.created row hrow, hid⟩, hle.code code hcode⟩

/-- A hash of the code that a registration has drawn for an account. -/
def CodeHash (env : AuthEnv) (id : UserId) (hash : String) (s : AuthState) : Prop :=
  ∃ code, AuthState.Has s (Visit.Issued id code) ∧ HashOf env code hash

lemma CodeHash.step {hash : String} (h : CodeHash env id hash s)
    (hrun : AuthState.Runs env ok AuthState.initial s) (hok : ok s e)
    (hstep : (authServer env).step s e = some s') : CodeHash env id hash s' := by
  obtain ⟨code, hissued, hhash⟩ := h
  exact ⟨code, hissued.step (fun _ _ => Visit.Issued.mono) hrun hok hstep, hhash⟩

/-- Some call for the account has passed the check with the right code. -/
def AuthState.Matched (env : AuthEnv) (id : UserId) (s : AuthState) : Prop :=
  AuthState.Has s (Visit.Admitted env id true)

lemma AuthState.Matched.step (h : AuthState.Matched env id s)
    (hrun : AuthState.Runs env ok AuthState.initial s) (hok : ok s e)
    (hstep : (authServer env).step s e = some s') : AuthState.Matched env id s' :=
  AuthState.Has.step h (fun _ _ => Visit.Admitted.mono) hrun hok hstep

/-! ## Codes -/

/-- What is under `otp:<id>` is a hash of the code that was drawn for this user. -/
theorem otps_of_runs (h : AuthState.Runs env ok AuthState.initial s) {hash : String}
    {deadline : ℕ} (hotp : s.store.otps id = some (hash, deadline)) :
    CodeHash env id hash s := by
  refine h.invariant (I := fun s => ∀ id hash deadline, s.store.otps id = some (hash, deadline) →
    CodeHash env id hash s) ?_ ?_ id hash deadline hotp
  · intro id hash deadline hotp
    cases hotp
  · intro s e s' hrun hI hok hstep id hash deadline hotp
    have hold (hotp : s.store.otps id = some (hash, deadline)) : CodeHash env id hash s' :=
      (hI id hash deadline hotp).step hrun hok hstep
    rcases store_step hstep with ⟨now, heq⟩ | ⟨t, x, l, c, k, hth, -, heq⟩
    · rw [heq] at hotp
      exact hold hotp
    · rw [heq] at hotp
      cases c with
      | setOtp id' hash' ex =>
        rcases eq_or_ne id id' with rfl | hne
        · simp only [AuthStore.exec, Function.update_self, Option.some.injEq,
            Prod.mk.injEq] at hotp
          obtain ⟨rfl, -⟩ := hotp
          obtain ⟨-, -, -, row, code, hrow, hid, hcode, hhash⟩ :=
            ((obeys_of_runs hrun).guard hth).2
          have hissued : CodeHash env id hash' s :=
            ⟨code, ⟨t, _, hth, ⟨row, hrow, hid⟩, hcode⟩, hhash⟩
          exact hissued.step hrun hok hstep
        · simp only [AuthStore.exec, Function.update_of_ne hne] at hotp
          exact hold hotp
      | delOtp id' =>
        rcases eq_or_ne id id' with rfl | hne
        · simp [AuthStore.exec] at hotp
        · simp only [AuthStore.exec, Function.update_of_ne hne] at hotp
          exact hold hotp
      | create email hash b =>
        simp only [AuthStore.exec] at hotp
        split at hotp <;> exact hold hotp
      | _ => exact hold hotp

/-- A code is stored for ten minutes. -/
lemma deadline_of_runs (h : AuthState.Runs env ok AuthState.initial s) {hash : String}
    {deadline : ℕ} (hotp : s.store.otps id = some (hash, deadline)) :
    deadline ≤ s.store.now + 600000 := by
  refine h.invariant (I := fun s => ∀ id hash deadline, s.store.otps id = some (hash, deadline) →
    deadline ≤ s.store.now + 600000) ?_ ?_ id hash deadline hotp
  · intro id hash deadline hotp
    cases hotp
  · intro s e s' hrun hI _ hstep id hash deadline hotp
    rcases (Server.step_of_eq hstep).store with heq | ⟨ms, heq⟩ | ⟨t, x, l, c, k, -, hth, heq⟩
    · rw [heq] at hotp ⊢
      exact hI id hash deadline hotp
    · rw [heq] at hotp ⊢
      have hle := hI id hash deadline hotp
      simp only [authServer]
      omega
    · rw [heq] at hotp ⊢
      cases c with
      | setOtp id' hash' ex =>
        obtain ⟨-, rfl, -⟩ := ((obeys_of_runs hrun).guard hth).2
        rcases eq_or_ne id id' with rfl | hne
        · simp only [authServer, AuthStore.exec, Function.update_self, Option.some.injEq,
            Prod.mk.injEq] at hotp ⊢
          omega
        · simp only [authServer, AuthStore.exec, Function.update_of_ne hne] at hotp
          exact hI id hash deadline hotp
      | delOtp id' =>
        rcases eq_or_ne id id' with rfl | hne
        · simp [authServer, AuthStore.exec] at hotp
        · simp only [authServer, AuthStore.exec, Function.update_of_ne hne] at hotp
          exact hI id hash deadline hotp
      | create email hash' b =>
        simp only [authServer, AuthStore.exec] at hotp ⊢
        split at hotp
        · rw [if_pos ‹_›]
          exact hI id hash deadline hotp
        · rw [if_neg ‹_›]
          exact hI id hash deadline hotp
      | _ => exact hI id hash deadline hotp

/-- A call has read a hash of the code of its account. -/
theorem hash_of_runs (h : AuthState.Runs env ok AuthState.initial s)
    (hth : s.threads t = some th) {hash : String} (hhash : th.state.hash = some hash) :
    ∃ id, th.state.account = some id ∧ CodeHash env id hash s := by
  refine forall_visits_of_runs (P := fun s l => ∀ hash, l.hash = some hash →
    ∃ id, l.account = some id ∧ CodeHash env id hash s) h (by simp) ?_ ?_ hth hash hhash
  · intro s e s' l hrun hok hstep hP hash hhash
    obtain ⟨id, haccount, hcode⟩ := hP hash hhash
    exact ⟨id, haccount, hcode.step hrun hok hstep⟩
  · intro s e s' t l c k r hrun hok hstep hth hmay hanswers hP hP'
    cases c with
    | findByEmail email =>
      -- the account is not known yet, so nothing has been read for it
      intro hash hhash
      have hold : l.hash = some hash := by
        cases r <;> exact hhash
      obtain ⟨id, haccount, -⟩ := hP hash hold
      rw [Visit.account_of_found hmay.1] at haccount
      cases haccount
    | getOtp id =>
      cases hanswers with
      | fail => exact hP'
      | run x =>
        intro hash hhash
        have hlive : Custody.live (s.store.otps id) s.store.now = some hash := hhash
        obtain ⟨deadline, hotp, -⟩ := Custody.live_eq_some_iff.mp hlive
        exact ⟨id, hmay.2.2.2, (otps_of_runs hrun hotp).step hrun hok hstep⟩
    | _ => cases r <;> exact hP'

/-- A hashed code is there until a call with the right code takes it away. -/
lemma otps_step (hrun : AuthState.Runs env ok AuthState.initial s) (hok : ok s e)
    (hstep : (authServer env).step s e = some s') (h : (s.store.otps id).isSome) :
    (s'.store.otps id).isSome ∨ AuthState.Matched env id s' := by
  rcases store_step hstep with ⟨now, heq⟩ | ⟨t, x, l, c, k, hth, -, heq⟩
  · rw [heq]
    exact .inl h
  · rw [heq]
    cases c with
    | setOtp id' hash ex =>
      rcases eq_or_ne id id' with rfl | hne
      · simp [AuthStore.exec]
      · simp only [AuthStore.exec, Function.update_of_ne hne]
        exact .inl h
    | delOtp id' =>
      rcases eq_or_ne id id' with rfl | hne
      · have hmatched : AuthState.Matched env id s :=
          ⟨t, _, hth, ((obeys_of_runs hrun).guard hth).2.2⟩
        exact .inr (hmatched.step hrun hok hstep)
      · simp only [AuthStore.exec, Function.update_of_ne hne]
        exact .inl h
    | create email hash b =>
      simp only [AuthStore.exec]
      split <;> exact .inl h
    | _ => exact .inl h

/-- What a registration has stored under `otp:<id>` stays until then. -/
theorem stored_otp_of_runs (h : AuthState.Runs env ok AuthState.initial s)
    (hth : s.threads t = some th) (hrow : th.state.created = some row)
    (hstored : th.state.storedAt.isSome) :
    (s.store.otps row.id).isSome ∨ AuthState.Matched env row.id s := by
  have hthere : ∃ row, th.state.created = some row ∧
      ((s.store.otps row.id).isSome ∨ AuthState.Matched env row.id s) := by
    refine forall_visits_of_runs (P := fun s l => l.storedAt.isSome → ∃ row,
      l.created = some row ∧ ((s.store.otps row.id).isSome ∨ AuthState.Matched env row.id s))
      h (by simp) ?_ ?_ hth hstored
    · intro s e s' l hrun hok hstep hP hstored
      obtain ⟨row, hrow, hsome | hmatched⟩ := hP hstored
      · exact ⟨row, hrow, otps_step hrun hok hstep hsome⟩
      · exact ⟨row, hrow, .inr (hmatched.step hrun hok hstep)⟩
    · intro s e s' t l c k r _ _ hstep hth hmay hanswers hP hP'
      cases c with
      | create email hash b =>
        -- nothing has been stored yet
        intro hstored
        have hold : l.storedAt.isSome := by
          cases r <;> exact hstored
        obtain ⟨row, hrow, -⟩ := hP hold
        rw [hmay.1] at hrow
        cases hrow
      | setOtp id hash ex =>
        cases hanswers with
        | fail => exact hP'
        | run x =>
          intro _
          obtain ⟨-, -, -, row, code, hrow, rfl, -⟩ := hmay
          refine ⟨row, hrow, .inl ?_⟩
          rw [store_of_run hth hstep]
          simp [AuthStore.exec]
      | _ => cases r <;> exact hP'
  obtain ⟨row', hrow', h'⟩ := hthere
  rw [hrow] at hrow'
  obtain rfl := Option.some.inj hrow'
  exact h'

/-- A registration that has mailed its code. -/
def Visit.Mailed (mail : Mail) (l : Visit) : Prop :=
  (∃ row, l.created = some row ∧ row.email = mail.email) ∧ l.code = some mail.otp ∧
    l.storedAt.isSome

lemma Visit.Mailed.mono {mail : Mail} {l l' : Visit} (hle : l.Le l') (h : l.Mailed mail) :
    l'.Mailed mail := by
  obtain ⟨⟨row, hrow, hemail⟩, hcode, hstored⟩ := h
  obtain ⟨time, htime⟩ := Option.isSome_iff_exists.mp hstored
  exact ⟨⟨row, hle.created row hrow, hemail⟩, hle.code _ hcode, by
    rw [hle.storedAt time htime]; rfl⟩

/-- A mail comes from a registration, with its code. -/
theorem mails_of_runs (h : AuthState.Runs env ok AuthState.initial s) {mail : Mail}
    (hmail : mail ∈ s.store.mails) : AuthState.Has s (Visit.Mailed mail) := by
  refine h.invariant (I := fun s => ∀ mail ∈ s.store.mails, AuthState.Has s (Visit.Mailed mail))
    ?_ ?_ mail hmail
  · intro mail hmail
    cases hmail
  · intro s e s' hrun hI hok hstep mail hmail
    have hold (hmail : mail ∈ s.store.mails) : AuthState.Has s' (Visit.Mailed mail) :=
      (hI mail hmail).step (fun _ _ => Visit.Mailed.mono) hrun hok hstep
    rcases store_step hstep with ⟨now, heq⟩ | ⟨t, x, l, c, k, hth, -, heq⟩
    · rw [heq] at hmail
      exact hold hmail
    · rw [heq] at hmail
      cases c with
      | sendOtp email otp =>
        rcases List.mem_append.mp hmail with hmail | hmail
        · exact hold hmail
        · rw [List.mem_singleton] at hmail
          obtain ⟨-, hstored, row, hrow, hemail, hcode⟩ := ((obeys_of_runs hrun).guard hth).2
          have hmailed : AuthState.Has s (Visit.Mailed mail) := by
            rw [hmail]
            exact ⟨t, _, hth, ⟨row, hrow, hemail⟩, hcode, hstored⟩
          exact hmailed.step (fun _ _ => Visit.Mailed.mono) hrun hok hstep
      | create email hash b =>
        simp only [AuthStore.exec] at hmail
        split at hmail <;> exact hold hmail
      | _ => exact hold hmail

/-! ## Accounts -/

/-- The user that a call has found is in the table, under the address that the call is about. -/
theorem found_of_runs (h : AuthState.Runs env ok AuthState.initial s)
    (hth : s.threads t = some th) (hrow : th.state.found = some row) :
    row.email = th.state.req.address env ∧
      ∃ user ∈ s.store.users, user.id = row.id ∧ user.email = row.email := by
  refine forall_visits_of_runs (P := fun s l => ∀ row, l.found = some row →
    row.email = l.req.address env ∧
      ∃ user ∈ s.store.users, user.id = row.id ∧ user.email = row.email) h (by simp) ?_ ?_
    hth row hrow
  · intro s e s' l _ _ hstep hP row hrow
    obtain ⟨haddress, user, hu, hid, hemail⟩ := hP row hrow
    obtain ⟨user', hu', hid', hemail', -⟩ := keeps_step hstep user hu
    exact ⟨haddress, user', hu', hid'.trans hid, hemail'.trans hemail⟩
  · intro s e s' t l c k r _ _ hstep hth hmay hanswers _ hP
    cases c with
    | findByEmail email =>
      cases hanswers with
      | fail => exact hP
      | run x =>
        rintro row hrow
        rw [store_of_run hth hstep]
        obtain ⟨user, hfound, rfl⟩ := Option.map_eq_some_iff.mp hrow
        obtain ⟨hu, hemail⟩ := AuthStore.findUser_email hfound
        exact ⟨hemail.trans hmay.2.2.2.2, user, hu, rfl, rfl⟩
    | _ => cases r <;> exact hP

/-- The users that are verified stay so. -/
lemma isVerified_step (hobeys : Server.Obeys (accounts env) (Counts env) s)
    (hstep : (authServer env).step s e = some s') (h : isVerified id s = true) :
    isVerified id s' = true := by
  unfold isVerified at h ⊢
  rcases store_step hstep with ⟨now, heq⟩ | ⟨t, x, l, c, k, hth, -, heq⟩
  · rw [heq]
    exact h
  · rw [heq]
    cases c with
    | create email hash b =>
      simp only [AuthStore.exec]
      split
      · exact h
      · rw [List.any_append, h, Bool.true_or]
    | update id' b =>
      obtain ⟨-, rfl, -⟩ := (hobeys.guard hth).2
      obtain ⟨user, hu, hverified⟩ := List.any_eq_true.mp h
      refine List.any_eq_true.mpr ⟨_, List.mem_map.mpr ⟨user, hu, rfl⟩, ?_⟩
      unfold User.update
      split
      · simp_all
      · exact hverified
    | _ => exact h

/-- An account is verified only by a call with the right code. -/
theorem matched_of_isVerified (h : AuthState.Runs env ok AuthState.initial s)
    (hverified : isVerified id s = true) : AuthState.Matched env id s := by
  refine h.invariant (I := fun s => isVerified id s = true → AuthState.Matched env id s)
    (fun h => by cases h) ?_ hverified
  intro s e s' hrun hI hok hstep hverified
  by_cases hbefore : isVerified id s = true
  · exact (hI hbefore).step hrun hok hstep
  · have hobeys := obeys_of_runs hrun
    have hne : isVerified id s' ≠ isVerified id s := by
      rw [hverified]
      exact fun h => hbefore h.symm
    obtain ⟨t, b, hnext⟩ := update_of_isVerified hobeys hstep hne
    obtain ⟨l, k, hth⟩ := Pool.eq_of_next hnext
    have hmatched : AuthState.Matched env id s := ⟨t, _, hth, (hobeys.guard hth).2.2.2⟩
    exact hmatched.step hrun hok hstep

/-- The account of a call that has verified it is verified. -/
theorem isVerified_of_runs (h : AuthState.Runs env ok AuthState.initial s)
    (hth : s.threads t = some th) (hverified : th.state.verified = true) :
    ∃ id, th.state.account = some id ∧ isVerified id s = true := by
  refine forall_visits_of_runs (P := fun s l => l.verified = true →
    ∃ id, l.account = some id ∧ isVerified id s = true) h (by simp) ?_ ?_ hth hverified
  · intro s e s' l hrun _ hstep hP hverified
    obtain ⟨id, haccount, hid⟩ := hP hverified
    exact ⟨id, haccount, isVerified_step (obeys_of_runs hrun) hstep hid⟩
  · intro s e s' t l c k r hrun _ hstep hth hmay hanswers hP hP'
    cases c with
    | findByEmail email =>
      intro hverified
      have hold : l.verified = true := by
        cases r <;> exact hverified
      obtain ⟨id, haccount, -⟩ := hP hold
      rw [Visit.account_of_found hmay.1] at haccount
      cases haccount
    | update id b =>
      cases hanswers with
      | fail => exact hP'
      | run x =>
        intro _
        obtain ⟨-, rfl, haccount, -⟩ := hmay
        refine ⟨id, haccount, ?_⟩
        obtain ⟨row, hrow, rfl⟩ := Visit.exists_found haccount
        obtain ⟨-, user, hu, hid, -⟩ := found_of_runs hrun hth hrow
        unfold isVerified
        rw [store_of_run hth hstep]
        refine List.any_eq_true.mpr ⟨_, List.mem_map.mpr ⟨user, hu, rfl⟩, ?_⟩
        simp [User.update, hid]
    | _ => cases r <;> exact hP'

/-- The counter of wrong codes is no more than the calls that have counted one. -/
theorem attempts_of_runs (h : AuthState.Runs env ok AuthState.initial s) {n : ℕ}
    {deadline : Option ℕ} (hcounter : s.store.attempts id = some (n, deadline)) :
    n ≤ s.count (hasCounted id) := by
  refine h.invariant (I := fun s => ∀ n deadline, s.store.attempts id = some (n, deadline) →
    n ≤ s.count (hasCounted id)) ?_ ?_ n deadline hcounter
  · intro n deadline hcounter
    cases hcounter
  · intro s e s' hrun hI hok hstep n deadline hcounter
    have hle : s.count (hasCounted id) ≤ s'.count (hasCounted id) :=
      counted_le hrun (Runs.refl.tail hok hstep)
    have hold (hcounter : s.store.attempts id = some (n, deadline)) :
        n ≤ s'.count (hasCounted id) := (hI n deadline hcounter).trans hle
    rcases store_step hstep with ⟨now, heq⟩ | ⟨t, x, l, c, k, hth, rfl, heq⟩
    · rw [heq] at hcounter
      exact hold hcounter
    · rw [heq] at hcounter
      cases c with
      | setAttempts id' value ex =>
        rcases eq_or_ne id id' with rfl | hne
        · obtain ⟨rfl, -⟩ := ((obeys_of_runs hrun).guard hth).2
          simp only [AuthStore.exec, Function.update_self, Option.some.injEq,
            Prod.mk.injEq] at hcounter
          omega
        · simp only [AuthStore.exec, Function.update_of_ne hne] at hcounter
          exact hold hcounter
      | incrAttempts id' =>
        rcases eq_or_ne id id' with rfl | hne
        · obtain ⟨hcounted, haccount, -⟩ := ((obeys_of_runs hrun).guard hth).2
          simp only [AuthStore.exec, Function.update_self, Option.some.injEq]
            at hcounter
          have hnext : n ≤ s.count (hasCounted id) + 1 := by
            have := AuthStore.incr_le hI
            rwa [hcounter] at this
          -- the call that counts is one more
          have hmore := Pool.count_setThread (P := hasCounted id) (fresh_of_runs hrun) hth
            (s.store.exec env x (.incrAttempts id)).1
            ⟨{ l with counted := true }, k (.ok ()), true⟩
          have haccount' : ({ l with counted := true } : Visit).account = some id := haccount
          rw [← Option.some.inj ((Server.step_run x hth).symm.trans hstep)]
          simp only [hasCounted, haccount, haccount', hcounted, decide_true, Bool.and_false,
            Bool.and_true, Bool.toNat_false, Bool.toNat_true] at hmore
          exact hnext.trans hmore.ge
        · simp only [AuthStore.exec, Function.update_of_ne hne] at hcounter
          exact hold hcounter
      | delAttempts id' =>
        rcases eq_or_ne id id' with rfl | hne
        · simp [AuthStore.exec] at hcounter
        · simp only [AuthStore.exec, Function.update_of_ne hne] at hcounter
          exact hold hcounter
      | create email hash b =>
        simp only [AuthStore.exec] at hcounter
        split at hcounter <;> exact hold hcounter
      | _ => exact hold hcounter

end FxExchange
