import FxExchange.Proofs.Registration

/-
# Who signs in

A token is given only to someone who knows the password that the address was registered with, as
far as `bcrypt` reads it, and only after the code of this registration has come back.  An address
has one registration.  What has not been verified when its code expires is never verified.
-/

namespace FxExchange

open Interleaving Transition

variable {env : AuthEnv} {s s' s₀ : AuthState} {e p : String} {t r : ℕ} {th : AuthThread}
  {id : UserId} {row : UserRow} {ok : AuthState → AuthEvent → Prop}

/-! ## Rules -/

section Rules

variable {G : Type} {D : Discipline AuthCmd.Ret Exn G} {Q : G → Except Exn AuthResponse → Prop}
  {g : G} {c : AuthCmd}

/-- A command whose failure goes to the client. -/
lemma Auth.wp_command_bind {f : c.Ret → Auth AuthResponse} (hguard : D.guard g c)
    (herror : ∀ g' err, Q g' (.error err))
    (hok : ∀ a g', D.outcome g c (.ok a) g' → (f a).wp D Q g') :
    (Auth.issue c >>= f).wp D Q g := by
  unfold Auth.issue
  rw [Prog.wp_bind, Prog.wp_command]
  refine ⟨hguard, ?_⟩
  intro reply g' hout
  cases reply with
  | ok a => exact hok a g' hout
  | error err => exact herror g' err

lemma Auth.wp_check_bind {q : Prop} [Decidable q] {err : Exn} {f : Unit → Auth AuthResponse}
    (herror : ∀ g' err, Q g' (.error err)) (hf : ¬ q → (f ()).wp D Q g) :
    (Prog.throwIf q err >>= f).wp D Q g := by
  rw [Prog.wp_bind, Prog.wp_throwIf]
  exact ⟨fun _ => herror g err, hf⟩

lemma Auth.wp_body {fields : List (List Constraint)} {service : Auth AuthResponse}
    (herror : ∀ g' err, Q g' (.error err)) (h : service.wp D Q g) :
    (validated fields service).wp D Q g := by
  unfold validated
  split
  · exact h
  · exact herror g _

end Rules

/-! ## Requests that have been answered well -/

/-- A request with what the server records of it. -/
def onRecord : Discipline AuthCmd.Ret Exn Visit where
  guard _ _ := True
  outcome l c r l' := ∃ s, l' = l.after s c r

/-- What is on record behind a good answer. -/
def Delivered (l : Visit) (r : Except Exn AuthResponse) : Prop :=
  ∀ resp, r = .ok resp → match l.req with
    | .register _ _ => l.created.isSome
    | .verifyOtp _ _ => l.verified = true
    | .signin _ _ => True

lemma delivered_error (l : Visit) (err : Exn) : Delivered l (.error err) := by
  intro resp h
  cases h

lemma wp_onRecord_bind {l : Visit} {c : AuthCmd} {f : c.Ret → Auth AuthResponse}
    (h : ∀ s a, (f a).wp onRecord Delivered (l.after s c (.ok a))) :
    (Auth.issue c >>= f).wp onRecord Delivered l := by
  refine Auth.wp_command_bind trivial delivered_error ?_
  rintro a _ ⟨s, rfl⟩
  exact h s a

lemma wp_register_delivered (email : String) :
    (AuthService.register { email, password := p }).wp onRecord Delivered
      { req := .register e p } := by
  unfold AuthService.register
  refine wp_onRecord_bind fun _ found => ?_
  refine Auth.wp_check_bind delivered_error fun _ => ?_
  refine wp_onRecord_bind fun _ hash => ?_
  refine wp_onRecord_bind fun _ user => ?_
  refine wp_onRecord_bind fun _ n => ?_
  refine wp_onRecord_bind fun _ hashedOtp => ?_
  refine wp_onRecord_bind fun _ _ => ?_
  refine wp_onRecord_bind fun _ _ => ?_
  rw [Prog.wp_bind, Prog.wp_tryCatch]
  refine Prog.wp_command.mpr ⟨trivial, ?_⟩
  rintro (err | a) _ ⟨-, rfl⟩
  · exact fun _ _ => rfl
  · exact fun _ _ => rfl

lemma wp_verifyOtp_delivered (email otp : String) :
    (AuthService.verifyOtp { email, otp }).wp onRecord Delivered
      { req := .verifyOtp email otp } := by
  unfold AuthService.verifyOtp
  refine wp_onRecord_bind fun _ found => ?_
  cases found with
  | none => exact delivered_error _ _
  | some user =>
    refine Auth.wp_check_bind delivered_error fun _ => ?_
    refine wp_onRecord_bind fun _ hash => ?_
    refine wp_onRecord_bind fun _ attempts => ?_
    cases AuthService.admits hash attempts with
    | none => exact delivered_error _ _
    | some hashedOtp =>
      refine wp_onRecord_bind fun _ isValid => ?_
      cases isValid with
      | false =>
        refine wp_onRecord_bind fun _ _ => ?_
        exact delivered_error _ _
      | true =>
        refine wp_onRecord_bind fun _ _ => ?_
        refine wp_onRecord_bind fun _ _ => ?_
        refine wp_onRecord_bind fun _ _ => ?_
        exact fun _ _ => rfl

lemma wp_signin_delivered (email : String) :
    (AuthService.signin { email, password := p }).wp onRecord Delivered
      { req := .signin e p } := by
  unfold AuthService.signin
  refine wp_onRecord_bind fun _ found => ?_
  cases found with
  | none => exact delivered_error _ _
  | some user =>
    refine Auth.wp_check_bind delivered_error fun _ => ?_
    refine wp_onRecord_bind fun _ isValid => ?_
    refine Auth.wp_check_bind delivered_error fun _ => ?_
    refine Auth.wp_check_bind delivered_error fun _ => ?_
    refine wp_onRecord_bind fun _ token => ?_
    exact fun _ _ => trivial

lemma wp_request_delivered (req : AuthRequest) :
    (req.program env).wp onRecord Delivered { req } := by
  cases req with
  | register email password => exact Auth.wp_body delivered_error (wp_register_delivered _)
  | verifyOtp email otp => exact Auth.wp_body delivered_error (wp_verifyOtp_delivered email otp)
  | signin email password => exact Auth.wp_body delivered_error (wp_signin_delivered _)

/-- A request that has been answered well has done what it is for. -/
lemma delivered_of_runs (h : AuthState.Runs env ok AuthState.initial s)
    (hth : s.threads t = some th) {resp : AuthResponse} (hanswer : th.answer = some (.ok resp)) :
    Delivered th.state (.ok resp) := by
  have hobeys : Server.Obeys onRecord Delivered s := by
    refine h.invariant (I := Server.Obeys onRecord Delivered) ?_
      fun s e s' _ hobeys _ hstep => hobeys.step wp_request_delivered ?_ hstep
    · intro t th hth
      cases hth
    · intro t l c k r _ _ _
      exact ⟨s.store, rfl⟩
  exact Thread.post_of_answer (hobeys t th hth) hanswer

/-! ## What a sign-in has read -/

/-- A sign-in that remembers the state in which it has read its user. -/
def lookingUp (env : AuthEnv) (e : String) :
    Discipline AuthCmd.Ret Exn (Option AuthState) where
  guard _ c := match c with
    | .findByEmailWithPassword email => email = e
    | _ => True
  outcome g c r g' := match c, r with
    | .findByEmailWithPassword email, .ok found =>
      ∃ s, g' = some s ∧ found = s.store.findUser email
    | .compare data hash, .ok isValid => g' = g ∧ isValid = env.bcrypt.compare data hash
    | .signAsync sub email, .ok token => g' = g ∧ ∃ now, token = env.sign now sub email
    | _, _ => g' = g

/-- A token is for the user that has been read, whose password is this one and who is verified. -/
def Authenticated (env : AuthEnv) (e p : String) (read : Option AuthState)
    (r : Except Exn AuthResponse) : Prop :=
  ∀ token, r = .ok (.accessToken token) → ∃ s ∈ read, ∃ user, s.store.findUser e = some user ∧
    env.bcrypt.compare p user.passwordHash = true ∧ user.isVerified = true ∧
    ∃ now, token = env.sign now user.id user.email

lemma wp_signin_authenticated :
    (AuthService.signin { email := e, password := p }).wp (lookingUp env e)
      (Authenticated env e p) none := by
  have herror (read : Option AuthState) (err : Exn) :
      Authenticated env e p read (.error err) := by
    intro token h
    cases h
  unfold AuthService.signin
  refine Auth.wp_command_bind rfl herror ?_
  rintro found _ ⟨s, rfl, hfound⟩
  cases found with
  | none => exact herror _ _
  | some user =>
    refine Auth.wp_check_bind herror fun _ => ?_
    refine Auth.wp_command_bind trivial herror ?_
    rintro isValid _ ⟨rfl, hvalid⟩
    refine Auth.wp_check_bind herror fun hright => ?_
    refine Auth.wp_check_bind herror fun hverified => ?_
    refine Auth.wp_command_bind trivial herror ?_
    rintro token _ ⟨rfl, now, htoken⟩
    rw [not_not] at hright hverified
    intro token' h
    cases h
    exact ⟨s, rfl, user, hfound.symm, hvalid ▸ hright, hverified, now, htoken⟩

/-- In the state `s₁`, on the way to `s`, the command of the request `t` is carried out that reads
the user under the address. -/
def AuthState.ReadBy (env : AuthEnv) (ok : AuthState → AuthEvent → Prop) (t : ℕ) (e : String)
    (s₁ s : AuthState) : Prop :=
  s₁.next t = some (.findByEmailWithPassword e) ∧
    ∃ x s₂, ok s₁ (.run t x) ∧ (authServer env).step s₁ (.run t x) = some s₂ ∧
      AuthState.Runs env ok s₂ s

lemma AuthState.ReadBy.runs {s₁ : AuthState} (h : AuthState.ReadBy env ok t e s₁ s) :
    AuthState.Runs env ok s₁ s := by
  obtain ⟨-, x, s₂, hok, hstep, hrun⟩ := h
  exact (Runs.refl.tail hok hstep).trans hrun

/-- The state in which the user behind a token has been read. -/
lemma exists_read_of_runs (h : AuthState.Runs env ok AuthState.initial s)
    (hth : s.threads t = some th) (hreq : th.state.req = .signin e p) {token : String}
    (hanswer : th.answer = some (.ok (.accessToken token))) :
    ∃ s₁, AuthState.Runs env ok AuthState.initial s₁ ∧ AuthState.ReadBy env ok t e s₁ s ∧
      ∃ user, s₁.store.findUser e = some user ∧
        env.bcrypt.compare p user.passwordHash = true ∧ user.isVerified = true ∧
        ∃ now, token = env.sign now user.id user.email := by
  have hmemory : ∃ read, th.prog.wp (lookingUp env e) (Authenticated env e p) read ∧
      ∀ s₁ ∈ read, AuthState.Runs env ok AuthState.initial s₁ ∧
        AuthState.ReadBy env ok t e s₁ s := by
    refine Server.exists_memory_of_runs (K := fun l => l.req = .signin e p)
      (I := fun s t _ read => ∀ s₁ ∈ read, AuthState.Runs env ok AuthState.initial s₁ ∧
        AuthState.ReadBy env ok t e s₁ s) (fun _ => rfl) ?_ ?_ ?_ ?_ h hth hreq
    · intro store l c r hk
      cases c <;> cases r <;> exact hk
    · intro s t q hq
      obtain rfl : q = .signin e p := hq
      refine ⟨none, Auth.wp_body ?_ wp_signin_authenticated, ?_⟩
      · intro read err token h
        cases h
      · intro s₁ hs₁
        cases hs₁
    · intro s e s' t l read hs hok hstep hread s₁ hs₁
      obtain ⟨hreach, hnext, x, s₂, hok₁, hstep₁, hrun⟩ := hread s₁ hs₁
      exact ⟨hreach, hnext, x, s₂, hok₁, hstep₁, hrun.tail hok hstep⟩
    · intro s e s' t l c k r read hs hok hstep hth hanswers _ hguard hread
      cases hanswers with
      | fail => exact ⟨read, by cases c <;> rfl, hread⟩
      | run x =>
        cases c with
        | findByEmailWithPassword email =>
          obtain rfl := hguard
          refine ⟨some s, ⟨s, rfl, rfl⟩, ?_⟩
          rintro s₁ ⟨⟩
          exact ⟨hs, (Pool.next_eq hth).trans (Thread.next_call ..), x, s', hok, hstep, .refl⟩
        | compare data hash => exact ⟨read, ⟨rfl, rfl⟩, hread⟩
        | signAsync sub email => exact ⟨read, ⟨rfl, s.store.now, rfl⟩, hread⟩
        | create email hash b =>
          refine ⟨read, ?_, hread⟩
          simp only [authServer, lookingUp]
        | _ => exact ⟨read, rfl, hread⟩
  obtain ⟨read, hwp, hread⟩ := hmemory
  obtain ⟨s₁, hs₁, hfacts⟩ := Thread.post_of_wp hwp hanswer token rfl
  exact ⟨s₁, (hread s₁ hs₁).1, (hread s₁ hs₁).2, hfacts⟩

/-! ## Where users come from -/

/-- A registration that has stored the user `id`. -/
def Visit.Created (id : UserId) (l : Visit) : Prop := ∃ row, l.created = some row ∧ row.id = id

lemma Visit.Created.mono {l l' : Visit} (hle : l.Le l') (h : l.Created id) : l'.Created id := by
  obtain ⟨row, hrow, hid⟩ := h
  exact ⟨row, hle.created row hrow, hid⟩

/-- Every user has been stored by a registration. -/
lemma creator_of_runs (h : AuthState.Runs env ok AuthState.initial s) :
    ∀ user ∈ s.store.users, AuthState.Has s (Visit.Created user.id) := by
  refine h.invariant (I := fun s => ∀ user ∈ s.store.users,
    AuthState.Has s (Visit.Created user.id)) ?_ fun s e s' hrun hI hok hstep user hu => ?_
  · intro user hu
    cases hu
  · have hold {id : UserId} (h : AuthState.Has s (Visit.Created id)) :
        AuthState.Has s' (Visit.Created id) :=
      h.step (fun _ _ => Visit.Created.mono) hrun hok hstep
    rcases store_step hstep with ⟨now, heq⟩ | ⟨t, x, l, c, k, hth, rfl, heq⟩
    · rw [heq] at hu
      exact hold (hI user hu)
    · rw [heq] at hu
      cases c with
      | create email hash b =>
        by_cases htaken : (s.store.findUser email).isSome
        · simp only [AuthStore.exec, if_pos htaken] at hu
          exact hold (hI user hu)
        · simp only [AuthStore.exec, if_neg htaken, List.mem_append, List.mem_singleton] at hu
          rcases hu with hu | rfl
          · exact hold (hI user hu)
          · -- the registration that has just stored it
            rw [← Option.some.inj ((Server.step_run x hth).symm.trans hstep)]
            refine ⟨t, _, Pool.setThread_self, ?_⟩
            simp only [authServer, AuthStore.exec, if_neg htaken]
            exact ⟨_, rfl, rfl⟩
      | update id b =>
        obtain ⟨user', hu', rfl⟩ := List.mem_map.mp hu
        have hid : (User.update id b user').id = user'.id := by
          unfold User.update
          split <;> rfl
        rw [hid]
        exact hold (hI user' hu')
      | _ => exact hold (hI user hu)

/-- The registration of a user. -/
lemma exists_registration (h : AuthState.Runs env ok AuthState.initial s) {user : User}
    (hu : user ∈ s.store.users) : ∃ t th row e p, s.threads t = some th ∧
      th.state.req = .register e p ∧ env.normalize e = user.email ∧
      th.state.created = some row ∧ row.id = user.id ∧ HashOf env p user.passwordHash := by
  obtain ⟨t, th, hth, row, hrow, hid⟩ := creator_of_runs h user hu
  obtain ⟨e, p, hreq, hemail, user', hu', hid', hemail', hhash⟩ := stored_of_runs h hth hrow
  obtain rfl := (users_of_runs h).eq_of_id hu hu' (hid.symm.trans hid'.symm)
  exact ⟨t, th, row, e, p, hth, hreq, hemail.symm.trans hemail'.symm, hrow, hid, hhash⟩

/-- No two registrations have stored a user under the same address. -/
lemma creator_eq_of_email (h : AuthState.Runs env ok AuthState.initial s) {t' : ℕ}
    {th' : AuthThread} {row' : UserRow} (hth : s.threads t = some th)
    (hth' : s.threads t' = some th') (hrow : th.state.created = some row)
    (hrow' : th'.state.created = some row') (hemail : row.email = row'.email) : t = t' := by
  obtain ⟨-, -, -, -, user, hu, hid, huser, -⟩ := stored_of_runs h hth hrow
  obtain ⟨-, -, -, -, user', hu', hid', huser', -⟩ := stored_of_runs h hth' hrow'
  obtain rfl := (users_of_runs h).eq_of_email hu hu' (huser.trans (hemail.trans huser'.symm))
  exact creator_unique h hth hth' hrow hrow' (hid.symm.trans hid')

/-! ## Tokens -/

/-- What stands behind a token for the address `e` and the password `p`: in the request `r` the
address was registered with a password that agrees with it as far as `bcrypt` reads, and in the
request `v` it was verified with the code that was drawn for it, which is the only one that has
been mailed to it. -/
structure Entitled (env : AuthEnv) (e p code : String) (user : User) (r v : ℕ) (s : AuthState) :
    Prop where
  present : s.store.findUser e = some user ∧ user.isVerified = true
  registered : ∃ th e' p', s.threads r = some th ∧ th.state.req = .register e' p' ∧
    env.normalize e' = e ∧ bcryptKey p = bcryptKey p' ∧ th.state.Issued user.id code
  verified : ∃ th, s.threads v = some th ∧ th.state.req = .verifyOtp e code ∧
    th.state.Admitted env user.id true
  mailed : ∀ mail ∈ s.store.mails, mail.email = e → mail.otp = code

/-- A user that has been verified has been entitled to it. -/
lemma exists_entitled (h : AuthState.Runs env ok AuthState.initial s) {user : User}
    (hfound : s.store.findUser e = some user) (hverified : user.isVerified = true)
    (hcompare : env.bcrypt.compare p user.passwordHash = true) :
    ∃ code r v, Entitled env e p code user r v s := by
  obtain ⟨hu, hemail⟩ := AuthStore.findUser_email hfound
  obtain ⟨r, th, row, e', p', hth, hreq, hnormal, hrow, hid, hhash⟩ := exists_registration h hu
  have hkey : bcryptKey p = bcryptKey p' := (hhash.2 p).mp hcompare
  have hisVerified : isVerified user.id s = true :=
    List.any_eq_true.mpr ⟨user, hu, by simp [hverified]⟩
  obtain ⟨v, thv, hthv, haccount, hverdict, hadmitted⟩ := matched_of_isVerified h hisVerified
  unfold Visit.verdict at hverdict
  split at hverdict
  · rename_i email otp hreqv
    obtain ⟨hash, hread, hright⟩ := Option.map_eq_some_iff.mp hverdict
    obtain ⟨id, hid', code, ⟨r', thr', hthr', ⟨row', hrow', hid''⟩, hcode⟩, hof⟩ :=
      hash_of_runs h hthv hread
    obtain rfl := Option.some.inj (haccount.symm.trans hid')
    -- one account, one registration, one code
    obtain rfl := creator_unique h hth hthr' hrow hrow' (hid.trans hid''.symm)
    obtain rfl := Option.some.inj (hth.symm.trans hthr')
    obtain rfl := eq_code_of_bcryptKey h hth hcode ((hof.2 otp).mp hright)
    have haddress : email = e := by
      obtain ⟨rowv, hrowv, hidv⟩ := Visit.exists_found haccount
      obtain ⟨haddress, user', hu', hid₁, hemail'⟩ := found_of_runs h hthv hrowv
      obtain rfl := (users_of_runs h).eq_of_id hu' hu (hid₁.trans hidv)
      rw [hreqv] at haddress
      exact haddress.symm.trans (hemail'.symm.trans hemail)
    refine ⟨otp, r, v, ⟨hfound, hverified⟩, ⟨th, e', p', hth, hreq, hnormal.trans hemail,
      hkey, ⟨row, hrow, hid⟩, hcode⟩, ⟨thv, hthv, haddress ▸ hreqv, haccount, ?_, hadmitted⟩, ?_⟩
    · simp [Visit.verdict, hreqv, hread, hright]
    · intro mail hmail hto
      obtain ⟨t, tht, htht, ⟨rowt, hrowt, hemailt⟩, hcodet, -⟩ := mails_of_runs h hmail
      have hrowemail : row.email = e := by
        obtain ⟨e₁, p₁, hreq₁, hemail₁, -⟩ := stored_of_runs h hth hrow
        obtain ⟨rfl, rfl⟩ := AuthRequest.register.inj (hreq.symm.trans hreq₁)
        rw [hemail₁, hnormal, hemail]
      obtain rfl := creator_eq_of_email h htht hth hrowt hrow
        (hemailt.trans (hto.trans hrowemail.symm))
      obtain rfl := Option.some.inj (htht.symm.trans hth)
      exact Option.some.inj (hcodet.symm.trans hcode)
  · cases hverdict

/-- A token is for an account that had been registered with this password, as far as `bcrypt`
reads it, and verified with the code of its registration, when the request read it. -/
theorem token_entitled (h : s.Reachable env) (hth : s.threads t = some th)
    (hreq : th.state.req = .signin e p) {token : String}
    (hanswer : th.answer = some (.ok (.accessToken token))) :
    ∃ s₁ user code r v, s₁.Reachable env ∧ AuthState.ReadBy env anyStep t e s₁ s ∧
      Entitled env e p code user r v s₁ ∧ ∃ now, token = env.sign now user.id e := by
  obtain ⟨s₁, hs₁, hread, user, hfound, hcompare, hverified, now, htoken⟩ :=
    exists_read_of_runs h hth hreq hanswer
  obtain ⟨code, r, v, hentitled⟩ := exists_entitled hs₁ hfound hverified hcompare
  refine ⟨s₁, user, code, r, v, hs₁, hread, hentitled, now, ?_⟩
  rw [htoken, (AuthStore.findUser_email hfound).2]

deriving instance DecidableEq for AuthRequest

/-- The first user registers, verifies the code, and signs in. -/
def signedIn : List AuthEvent :=
  registration ++ arrive 1 7 (.verifyOtp "user@example.com" "100000") ++
    arrive 2 3 (.signin "user@example.com" "StrongPassword123!")

theorem token_entitled_first :
    ∃ s s₁ user code r v, s.Reachable plainAuth ∧ s₁.Reachable plainAuth ∧
      AuthState.ReadBy plainAuth anyStep 2 "user@example.com" s₁ s ∧
      Entitled plainAuth "user@example.com" "StrongPassword123!" code user r v s₁ := by
  have hplay : (runAll (authServer plainAuth).step anyStep AuthState.initial signedIn).any
      (fun s => (s.threads 2).any fun th =>
        th.state.req = .signin "user@example.com" "StrongPassword123!" &&
        th.answer = some (.ok (.accessToken "token of user@example.com"))) = true := by
    decide +kernel
  obtain ⟨s, hrun, hs⟩ := exists_of_runAll hplay
  obtain ⟨th, hth, hanswered⟩ := (Option.any_eq_true ..).mp hs
  rw [Bool.and_eq_true, decide_eq_true_eq, decide_eq_true_eq] at hanswered
  obtain ⟨s₁, user, code, r, v, hs₁, hread, hentitled, -⟩ :=
    token_entitled hrun hth hanswered.1 hanswered.2
  exact ⟨s, s₁, user, code, r, v, hrun, hs₁, hread, hentitled⟩

/-! ## One account for an address -/

/-- The user of a registration that has been answered well. -/
lemma exists_created (h : AuthState.Runs env ok AuthState.initial s)
    (hth : s.threads t = some th) (hreq : th.state.req = .register e p) {resp : AuthResponse}
    (hanswer : th.answer = some (.ok resp)) :
    ∃ row, th.state.created = some row ∧ row.email = env.normalize e := by
  have hcreated := delivered_of_runs h hth hanswer resp rfl
  rw [hreq] at hcreated
  obtain ⟨row, hrow⟩ := Option.isSome_iff_exists.mp hcreated
  obtain ⟨e', p', hreq', hemail, -⟩ := stored_of_runs h hth hrow
  obtain ⟨rfl, rfl⟩ := AuthRequest.register.inj (hreq.symm.trans hreq')
  exact ⟨row, hrow, hemail⟩

/-- Once an address has been registered, no other registration of it is answered well, and every
token for it, at any time, is for the same user and takes the password of this registration, as
far as `bcrypt` reads it. -/
theorem account_kept (h : s.Reachable env) (hth : s.threads r = some th)
    (hreq : th.state.req = .register e p) {resp : AuthResponse}
    (hanswer : th.answer = some (.ok resp)) : ∃ id, ∀ s', AuthState.Runs env anyStep s s' →
      (∀ r' th' e' p' resp', s'.threads r' = some th' → th'.state.req = .register e' p' →
        env.normalize e' = env.normalize e → th'.answer = some (.ok resp') → r' = r) ∧
      ∀ t th' p' token, s'.threads t = some th' →
        th'.state.req = .signin (env.normalize e) p' →
        th'.answer = some (.ok (.accessToken token)) →
        bcryptKey p' = bcryptKey p ∧ ∃ now, token = env.sign now id (env.normalize e) := by
  obtain ⟨row, hrow, hemail⟩ := exists_created h hth hreq hanswer
  refine ⟨row.id, fun s' hrun => ?_⟩
  obtain ⟨h', thr, hthr, hle⟩ := exists_later h hrun hth
  have hrow' := hle.created row hrow
  constructor
  · intro r' th' e' p' resp' hth' hreq' hsame hanswer'
    obtain ⟨row', hrow'', hemail'⟩ := exists_created h' hth' hreq' hanswer'
    exact creator_eq_of_email h' hth' hthr hrow'' hrow' (by rw [hemail', hsame, hemail])
  · intro t th' p' token hth' hreq' hanswer'
    obtain ⟨s₁, hs₁, hread, user, hfound, hcompare, hverified, now, htoken⟩ :=
      exists_read_of_runs h' hth' hreq' hanswer'
    obtain ⟨hu, huser⟩ := AuthStore.findUser_email hfound
    obtain ⟨t₁, th₁, row₁, e₁, p₁, hth₁, hreq₁, hnormal₁, hrow₁, hid₁, hhash⟩ :=
      exists_registration hs₁ hu
    -- the registration that was there when the user was read is this one
    obtain ⟨-, th₂, hth₂, hle₂⟩ := exists_later hs₁ hread.runs hth₁
    obtain ⟨e₂, p₂, hreq₂, hemail₂, -⟩ := stored_of_runs hs₁ hth₁ hrow₁
    obtain ⟨rfl, rfl⟩ := AuthRequest.register.inj (hreq₁.symm.trans hreq₂)
    obtain rfl := creator_eq_of_email h' hth₂ hthr (hle₂.created row₁ hrow₁) hrow'
      (by rw [hemail₂, hnormal₁, huser, hemail])
    obtain rfl := Option.some.inj (hth₂.symm.trans hthr)
    obtain rfl := Option.some.inj ((hle₂.created row₁ hrow₁).symm.trans hrow')
    obtain ⟨rfl, rfl⟩ := AuthRequest.register.inj
      ((hle₂.req.trans hreq₁).symm.trans (hle.req.trans hreq))
    exact ⟨(hhash.2 p').mp hcompare, now, by rw [htoken, huser, hid₁]⟩

/-- The first address, with the token of its user. -/
theorem account_kept_first : ∃ s id, s.Reachable plainAuth ∧ s.seq = 1 ∧
    ∀ s', AuthState.Runs plainAuth anyStep s s' → ∀ t th' p' token, s'.threads t = some th' →
      th'.state.req = .signin "user@example.com" p' →
      th'.answer = some (.ok (.accessToken token)) →
      bcryptKey p' = bcryptKey "StrongPassword123!" ∧
        ∃ now, token = plainAuth.sign now id "user@example.com" := by
  have hplay : (runAll (authServer plainAuth).step anyStep AuthState.initial registration).any
      (fun s => s.seq = 1 && (s.threads 0).any fun th =>
        th.state.req = .register "user@example.com" "StrongPassword123!" &&
        th.answer = some (.ok (.message "Verification email sent"))) = true := by
    decide +kernel
  obtain ⟨s, hrun, hs⟩ := exists_of_runAll hplay
  rw [Bool.and_eq_true, decide_eq_true_eq] at hs
  obtain ⟨th, hth, hanswered⟩ := (Option.any_eq_true ..).mp hs.2
  rw [Bool.and_eq_true, decide_eq_true_eq, decide_eq_true_eq] at hanswered
  obtain ⟨id, hkept⟩ := account_kept hrun hth hanswered.1 hanswered.2
  have hnormal : plainAuth.normalize "user@example.com" = "user@example.com" := by decide
  refine ⟨s, id, hrun, hs.1, fun s' hrun' => ?_⟩
  have hsignins := (hkept s' hrun').2
  rwa [hnormal] at hsignins

/-! ## Codes that have expired -/

/-- The account `id` has not been verified and no longer can be: its code, if there is one, has
expired, no call has read it before, and its registration will not store another one. -/
structure Lapsed (id : UserId) (s : AuthState) : Prop where
  unverified : isVerified id s = false
  expired : ∀ hash deadline, s.store.otps id = some (hash, deadline) → deadline ≤ s.store.now
  unread : ∀ t th, s.threads t = some th → th.state.account = some id → th.state.hash = none
  settled : ∀ t th, s.threads t = some th → th.state.Created id →
    th.state.storedAt.isSome ∨ th.next = none

/-- The requests of a lapsed account do not pass the check. -/
lemma Lapsed.not_admitted (h : Lapsed id s) (hth : s.threads t = some th) (b : Bool) :
    ¬ th.state.Admitted env id b := by
  rintro ⟨haccount, -, hadmitted⟩
  obtain ⟨hash, hhash⟩ := Option.isSome_iff_exists.mp hadmitted
  have hread := Visit.hash_of_admitted hhash
  rw [h.unread t th hth haccount] at hread
  cases hread

section Step

variable {ev : AuthEvent} (h : Lapsed id s) (hrun : AuthState.Runs env ok AuthState.initial s)
  (hstep : (authServer env).step s ev = some s')
include h hrun hstep

lemma Lapsed.unverified_step : isVerified id s' = false := by
  by_contra hverified
  rw [Bool.not_eq_false] at hverified
  have hne : isVerified id s' ≠ isVerified id s := by
    rw [hverified, h.unverified]
    decide
  obtain ⟨t, b, hnext⟩ := update_of_isVerified (obeys_of_runs hrun) hstep hne
  obtain ⟨l, k, hth⟩ := Pool.eq_of_next hnext
  exact h.not_admitted hth true ((obeys_of_runs hrun).guard hth).2.2.2

lemma Lapsed.expired_step {hash : String} {deadline : ℕ}
    (hotp : s'.store.otps id = some (hash, deadline)) : deadline ≤ s'.store.now := by
  rcases (Server.step_of_eq hstep).store with heq | ⟨ms, heq⟩ | ⟨t, x, l, c, k, -, hth, heq⟩
  · rw [heq] at hotp ⊢
    exact h.expired hash deadline hotp
  · rw [heq] at hotp ⊢
    exact (h.expired hash deadline hotp).trans (Nat.le_add_right ..)
  · rw [heq] at hotp ⊢
    cases c with
    | setOtp id' hash' ex =>
      rcases eq_or_ne id id' with rfl | hne
      · -- its registration has stored the code before
        obtain ⟨hnone, -, -, row, code, hrow, hid, -⟩ := ((obeys_of_runs hrun).guard hth).2
        rcases h.settled t _ hth ⟨row, hrow, hid⟩ with hstored | hended
        · simp [hnone] at hstored
        · cases hended
      · simp only [authServer, AuthStore.exec, Function.update_of_ne hne] at hotp
        exact h.expired hash deadline hotp
    | delOtp id' =>
      rcases eq_or_ne id id' with rfl | hne
      · simp [authServer, AuthStore.exec] at hotp
      · simp only [authServer, AuthStore.exec, Function.update_of_ne hne] at hotp
        exact h.expired hash deadline hotp
    | create email hash' b =>
      simp only [authServer, AuthStore.exec] at hotp ⊢
      split at hotp
      · rw [if_pos ‹_›]
        exact h.expired hash deadline hotp
      · rw [if_neg ‹_›]
        exact h.expired hash deadline hotp
    | _ => exact h.expired hash deadline hotp

lemma Lapsed.unread_step (hth : s'.threads t = some th) (haccount : th.state.account = some id) :
    th.state.hash = none := by
  rcases (Server.step_of_eq hstep).thread hth with ⟨req, -, -, rfl⟩ | ⟨th₀, hth₀, hstate, -⟩ |
    ⟨l, c, k, r, hth₀, hanswers, rfl⟩
  · rfl
  · rw [hstate] at haccount ⊢
    exact h.unread t th₀ hth₀ haccount
  · have hold := h.unread t _ hth₀
    cases c with
    | findByEmail email =>
      have hfound : l.found = none := ((obeys_of_runs hrun).guard hth₀).2.1
      have hsame : (l.after s.store (.findByEmail email) r).hash = l.hash := by
        cases r <;> rfl
      show (l.after s.store (.findByEmail email) r).hash = none
      rw [hsame]
      by_contra hread
      obtain ⟨hash, hhash⟩ := Option.ne_none_iff_exists'.mp hread
      obtain ⟨id', hid', -⟩ := hash_of_runs hrun hth₀ hhash
      rw [Visit.account_of_found hfound] at hid'
      cases hid'
    | getOtp id' =>
      cases hanswers with
      | fail => exact hold haccount
      | run x =>
        have hid : l.account = some id' := ((obeys_of_runs hrun).guard hth₀).2.2.2.2
        obtain rfl := Option.some.inj (hid.symm.trans haccount)
        show Custody.live (s.store.otps id') s.store.now = none
        by_contra hlive
        obtain ⟨hash, hhash⟩ := Option.ne_none_iff_exists'.mp hlive
        obtain ⟨deadline, hotp, hlt⟩ := Custody.live_eq_some_iff.mp hhash
        exact absurd (h.expired hash deadline hotp) (not_le.mpr hlt)
    | _ => cases r <;> exact hold haccount

lemma Lapsed.settled_step (hok : ok s ev) {user : User} (hu : user ∈ s.store.users)
    (hid : user.id = id) (hth : s'.threads t = some th) (hcreated : th.state.Created id) :
    th.state.storedAt.isSome ∨ th.next = none := by
  obtain ⟨row, hrow, rfl⟩ := hcreated
  rcases created_step hstep hth hrow with ⟨th₀, hth₀, hrow₀⟩ | ⟨hnext, -⟩
  · rcases h.settled t th₀ hth₀ ⟨row, hrow₀, rfl⟩ with hstored | hended
    · left
      obtain ⟨th', hth', hle⟩ := exists_visit_of_runs hrun (Runs.refl.tail hok hstep) hth₀
      obtain rfl := Option.some.inj (hth.symm.trans hth')
      obtain ⟨time, htime⟩ := Option.isSome_iff_exists.mp hstored
      rw [hle.storedAt time htime]
      rfl
    · right
      obtain ⟨th', hth', -, hended'⟩ := Server.exists_thread_of_next_eq_none (fresh_of_runs hrun)
        hth₀ hended hstep
      obtain rfl := Option.some.inj (hth.symm.trans hth')
      exact hended'
  · -- an identifier that is in use is not the next one
    exact absurd (hid.trans hnext) ((users_of_runs hrun).lt user hu).ne

lemma Lapsed.step (hok : ok s ev) {user : User} (hu : user ∈ s.store.users) (hid : user.id = id) :
    Lapsed id s' where
  unverified := h.unverified_step hrun hstep
  expired _ _ := h.expired_step hrun hstep
  unread _ _ := h.unread_step hrun hstep
  settled _ _ := h.settled_step hrun hstep hok hu hid

end Step

lemma keeps_of_runs (hrun : AuthState.Runs env ok s₀ s) : s₀.store.Keeps s.store := by
  refine hrun.invariant (I := fun s => s₀.store.Keeps s.store)
    (fun user hu => ⟨user, hu, rfl, rfl, rfl⟩) fun s e s' _ hkeeps _ hstep user hu => ?_
  obtain ⟨user', hu', hid, hemail, hhash⟩ := hkeeps user hu
  obtain ⟨user'', hu'', hid', hemail', hhash'⟩ := keeps_step hstep user' hu'
  exact ⟨user'', hu'', hid'.trans hid, hemail'.trans hemail, hhash'.trans hhash⟩

lemma Lapsed.runs {user : User} (h : Lapsed user.id s) (hreach : s.Reachable env)
    (hu : user ∈ s.store.users) (hrun : AuthState.Runs env anyStep s s') : Lapsed user.id s' := by
  refine hrun.invariant h fun s₁ e s₂ hs₁ hlapsed _ hstep => ?_
  obtain ⟨user', hu', hid, -⟩ := keeps_of_runs hs₁ user hu
  exact hlapsed.step (hreach.trans hs₁) hstep (show anyStep s₁ e from trivial) hu' hid

/-- The user under an address. -/
lemma id_eq_of_email (h : s.Reachable env) {user user' : User} (hu : user ∈ s₀.store.users)
    (hrun : AuthState.Runs env anyStep s₀ s) (hu' : user' ∈ s.store.users)
    (hemail : user'.email = user.email) : user'.id = user.id := by
  obtain ⟨user'', hu'', hid, hemail', -⟩ := keeps_of_runs hrun user hu
  rw [(users_of_runs h).eq_of_email hu' hu'' (hemail.trans hemail'.symm), hid]

/-- An account whose code has expired stays unverified: no code verifies it, no password signs it
in, and nobody registers its address again. -/
theorem lapsed_for_good (h : s.Reachable env) {user : User} (hu : user ∈ s.store.users)
    (hlapsed : Lapsed user.id s) (hrun : AuthState.Runs env anyStep s s')
    (hth : s'.threads t = some th) :
    isVerified user.id s' = false ∧
    (∀ otp resp, th.state.req = .verifyOtp user.email otp → th.answer ≠ some (.ok resp)) ∧
    (∀ p token, th.state.req = .signin user.email p →
      th.answer ≠ some (.ok (.accessToken token))) ∧
    ∀ e p resp, th.state.req = .register e p → env.normalize e = user.email →
      s.threads t = none → th.answer ≠ some (.ok resp) := by
  have h' : s'.Reachable env := h.trans hrun
  have hlapsed' := hlapsed.runs h hu hrun
  refine ⟨hlapsed'.unverified, ?_, ?_, ?_⟩
  · intro otp resp hreq hanswer
    have hdone := delivered_of_runs h' hth hanswer resp rfl
    rw [hreq] at hdone
    obtain ⟨id, haccount, hverified⟩ := isVerified_of_runs h' hth hdone
    obtain ⟨row, hrow, rfl⟩ := Visit.exists_found haccount
    obtain ⟨haddress, user', hu', hid', hemail'⟩ := found_of_runs h' hth hrow
    rw [hreq] at haddress
    have hsame := id_eq_of_email h' hu hrun hu' (hemail'.trans haddress)
    rw [← hid', hsame, hlapsed'.unverified] at hverified
    cases hverified
  · intro p token hreq hanswer
    obtain ⟨s₁, hs₁, hread, user₁, hfound, -, hverified, -⟩ :=
      exists_read_of_runs h' hth hreq hanswer
    have hrun₁ := hread.runs
    obtain ⟨hu₁, hemail₁⟩ := AuthStore.findUser_email hfound
    have hverified' : isVerified user₁.id s' = true := by
      refine hrun₁.invariant (I := fun s => isVerified user₁.id s = true)
        (List.any_eq_true.mpr ⟨user₁, hu₁, by simp [hverified]⟩) fun s₂ e s₃ hs₂ hI _ hstep => ?_
      exact isVerified_step (obeys_of_runs (hs₁.trans hs₂)) hstep hI
    obtain ⟨user₂, hu₂, hid₂, hemail₂, -⟩ := keeps_of_runs hrun₁ user₁ hu₁
    have hsame := id_eq_of_email h' hu hrun hu₂ (hemail₂.trans hemail₁)
    rw [← hid₂, hsame, hlapsed'.unverified] at hverified'
    cases hverified'
  · intro e p resp hreq hnormal hnew hanswer
    obtain ⟨row, hrow, hemail⟩ := exists_created h' hth hreq hanswer
    -- the registration that has stored this user was there
    obtain ⟨r, thr, rowr, er, pr, hthr, hreqr, hnormalr, hrowr, -, -⟩ := exists_registration h hu
    obtain ⟨-, thr', hthr', hle⟩ := exists_later h hrun hthr
    obtain ⟨er', pr', hreqr', hemailr, -⟩ := stored_of_runs h hthr hrowr
    obtain ⟨rfl, rfl⟩ := AuthRequest.register.inj (hreqr.symm.trans hreqr')
    obtain rfl := creator_eq_of_email h' hth hthr' hrow (hle.created rowr hrowr)
      (by rw [hemail, hnormal, hemailr, hnormalr])
    rw [hnew] at hthr
    cases hthr

/-! ## Ten minutes -/

/-- Ten minutes after its registration, an account that nobody has begun to verify has lapsed. -/
lemma lapsed_of_wait (h : AuthState.Runs env ok AuthState.initial s)
    (hunverified : isVerified id s = false)
    (hunread : ∀ t th, s.threads t = some th → th.state.account = some id → th.state.hash = none)
    (hsettled : ∀ t th, s.threads t = some th → th.state.Created id →
      th.state.storedAt.isSome ∨ th.next = none) {ms : ℕ} (hms : 600000 ≤ ms) :
    Lapsed id { s with store := (authServer env).wait s.store ms } where
  unverified := hunverified
  unread := hunread
  settled := hsettled
  expired hash deadline hotp := by
    have hle := deadline_of_runs h hotp
    simp only [authServer]
    omega

/-- The first user comes too late. -/
theorem lapsed_for_good_first : ∃ s user, s.Reachable plainAuth ∧ user ∈ s.store.users ∧
    user.email = "user@example.com" ∧ ∀ s', AuthState.Runs plainAuth anyStep s s' →
      ∀ t th, s'.threads t = some th → ∀ otp resp,
        th.state.req = .verifyOtp user.email otp → th.answer ≠ some (.ok resp) := by
  have hplay : (runAll (authServer plainAuth).step anyStep AuthState.initial registration).any
      (fun s => s.seq = 1 && !isVerified 1 s &&
        s.store.users.any (fun user => user.id = 1 && user.email = "user@example.com") &&
        (s.threads 0).any fun th => th.state.account = none && th.next = none) = true := by
    decide +kernel
  obtain ⟨s, hrun, hs⟩ := exists_of_runAll hplay
  simp only [Bool.and_eq_true, decide_eq_true_eq, Bool.not_eq_true', Option.any_eq_true,
    List.any_eq_true] at hs
  obtain ⟨⟨⟨hseq, hunverified⟩, user, hu, hid, hemail⟩, th, hth, haccount, hnext⟩ := hs
  -- there is no other request
  have honly {t : ℕ} {th' : AuthThread} (hth' : s.threads t = some th') : th' = th := by
    have hlt := (fresh_of_runs hrun).lt hth'
    obtain rfl : t = 0 := by omega
    exact Option.some.inj (hth'.symm.trans hth)
  have hlapsed : Lapsed 1 { s with store := (authServer plainAuth).wait s.store 600000 } := by
    refine lapsed_of_wait hrun hunverified ?_ ?_ le_rfl
    · intro t th' hth' haccount'
      rw [honly hth', haccount] at haccount'
      cases haccount'
    · intro t th' hth' _
      exact .inr ((honly hth') ▸ hnext)
  have hreach : AuthState.Reachable plainAuth
      { s with store := (authServer plainAuth).wait s.store 600000 } :=
    hrun.tail (e := .tick 600000) trivial rfl
  refine ⟨_, user, hreach, hu, hemail, fun s' hrun' t th' hth' => ?_⟩
  exact (lapsed_for_good hreach hu (hid ▸ hlapsed) hrun' hth').2.1

end FxExchange
