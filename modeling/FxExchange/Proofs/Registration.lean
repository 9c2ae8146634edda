import FxExchange.Proofs.Records

/-
# Getting in

A user who has registered verifies the mailed code and signs in.  The three endpoints agree on
the address of the account just where trimming and lower-casing the address does nothing: only
`RegisterDto` does that.
-/

namespace FxExchange

open Interleaving Transition

variable {env : AuthEnv} {s s' s₀ : AuthState} {e p code : String} {r t v : ℕ} {th : AuthThread}
  {row : UserRow} {ok : AuthState → AuthEvent → Prop} {mine : List ℕ}

/-! ## What getting in means -/

/-- A call with another code. -/
def isGuess (address code : String) (th : AuthThread) : Bool :=
  match th.state.req with
  | .verifyOtp email otp => email = address && otp ≠ code
  | _ => false

/-- Besides the requests in `mine`, all are about other addresses or bring a wrong code; those
with a wrong code are four at most. -/
structure Setting (env : AuthEnv) (address code : String) (mine : List ℕ) (s : AuthState) :
    Prop where
  others : ∀ t th, s.threads t = some th → t ∉ mine →
    th.state.req.address env ≠ address ∨ isGuess address code th = true
  guesses : s.count (isGuess address code) ≤ 4

/-- The commands of a request do not fail, its process does not die, and the hashed code that it
comes to read has not expired. -/
def Served (t : ℕ) (s : AuthState) : AuthEvent → Prop
  | .run t' _ => t' = t → ∀ id, s.next t = some (.getOtp id) →
    ∀ hash deadline, s.store.otps id = some (hash, deadline) → s.store.now < deadline
  | .fail t' => t' ≠ t
  | .crash t' => t' ≠ t
  | _ => True

/-- The steps between which a user gets in. -/
def AuthState.Calm (env : AuthEnv) (address code : String) (mine : List ℕ) (t : ℕ) (s : AuthState)
    (e : AuthEvent) : Prop :=
  Setting env address code mine s ∧ Served t s e

/-- A request comes to an answer, and there is no other answer than a good one. -/
structure Succeeds (env : AuthEnv) (ok : AuthState → AuthEvent → Prop) (t : ℕ) (s : AuthState)
    (good : AuthResponse → Prop) : Prop where
  answers : ∀ s', AuthState.Runs env ok s s' →
    ∃ s'', AuthState.Runs env (Server.Alone t) s' s'' ∧ (s''.answer t).isSome
  good_of_answer : ∀ s' a, AuthState.Runs env ok s s' → s'.answer t = some a →
    ∃ resp, a = .ok resp ∧ good resp

/-- The state with one more request. -/
def AuthState.arrival (env : AuthEnv) (s : AuthState) (req : AuthRequest) : AuthState :=
  s.spawn ((authServer env).thread req)

/-- `register` has accepted an address and a password, and mailed a code. -/
structure Registered (env : AuthEnv) (e p code : String) (r : ℕ) (s : AuthState) : Prop where
  reachable : s.Reachable env
  created : ∃ th, s.threads r = some th ∧ th.state.req = .register e p ∧
    th.state.created.isSome
  mailed : ⟨env.normalize e, code⟩ ∈ s.store.mails

/-- Whoever has registered can verify the account with the mailed code, and then sign in: with
what was typed at the registration. -/
def GetsIn (env : AuthEnv) (e p : String) : Prop := ∀ s r code, Registered env e p code r s →
  Succeeds env (AuthState.Calm env (env.normalize e) code [r, s.seq] s.seq) s.seq
    (s.arrival env (.verifyOtp e code)) (· = .message "Email verified successfully") ∧
  ∀ s', AuthState.Runs env (AuthState.Calm env (env.normalize e) code [r, s.seq] s.seq)
      (s.arrival env (.verifyOtp e code)) s' → (s'.answer s.seq).isSome →
    Succeeds env (AuthState.Calm env (env.normalize e) code [r, s.seq, s'.seq] s'.seq) s'.seq
      (s'.arrival env (.signin e p)) fun resp => ∃ token, resp = .accessToken token

/-- `register` lets the address and the password through. -/
def Accepted (env : AuthEnv) (e p : String) : Prop :=
  validationPipe (RegisterDto.constraints env { email := env.normalize e, password := p }) = .ok ()

/-! ## Codes -/

/-- Digits stand for themselves. -/
lemma presentationSequences_eq_zero {cs : List Char} (h : ∀ c ∈ cs, c.isDigit = true) :
    presentationSequences cs = 0 := by
  have hnot {c : Char} (hc : c.isDigit = true) : isVariationSelector c = false := by
    simp only [Char.isDigit, Bool.and_eq_true, decide_eq_true_eq] at hc
    have hle : c.toNat ≤ 57 := UInt32.le_iff_toNat_le.mp hc.2
    simp only [isVariationSelector, Bool.or_eq_false_iff, decide_eq_false_iff_not]
    omega
  induction cs with
  | nil => rfl
  | cons c cs ih =>
    cases cs with
    | nil => rfl
    | cons c' rest =>
      have hc' := hnot (h c' (by simp))
      rw [presentationSequences, ih fun c hc => h c (List.mem_cons_of_mem _ hc), hc']
      rfl

/-- A code has six digits. -/
lemma length_toString {n : ℕ} (hmin : 100000 ≤ n) (hmax : n < 999999) :
    (toString n).toList.length = 6 := by
  have hdigits : (toString n).toList = Nat.toDigits 10 n := Nat.toList_repr
  have hle := (Nat.length_toDigits_le_iff (b := 10) (n := n) (k := 6) (by decide)
    (by decide)).mpr (by omega)
  have hgt := (Nat.length_toDigits_le_iff (b := 10) (n := n) (k := 5) (by decide)
    (by decide)).not.mpr (by omega)
  rw [hdigits]
  omega

lemma isLength_toString {n : ℕ} (hmin : 100000 ≤ n) (hmax : n < 999999) :
    isLength (toString n) 6 6 = true := by
  have hdigits : (toString n).toList = Nat.toDigits 10 n := Nat.toList_repr
  unfold isLength
  rw [length_toString hmin hmax, hdigits, presentationSequences_eq_zero fun c hc =>
    Nat.isDigit_of_mem_toDigits (by decide) (by decide) hc]
  rfl

/-- Of a text that is short enough, all is read. -/
lemma eq_of_bcryptKey {data data' : String} (hshort : (Utf8.encode data').length < 72)
    (h : bcryptKey data = bcryptKey data') : data = data' := by
  unfold bcryptKey at h
  rw [List.take_of_length_le hshort.le] at h
  have hlength := congrArg List.length h
  rw [List.length_take] at hlength
  rw [List.take_of_length_le (by omega)] at h
  exact Utf8.encode_injective h

/-- So it is of a code. -/
lemma eq_code_of_bcryptKey (h : AuthState.Runs env ok AuthState.initial s)
    (hth : s.threads t = some th) (hcode : th.state.code = some code) {otp : String}
    (hkey : bcryptKey otp = bcryptKey code) : otp = code := by
  obtain ⟨n, rfl, hmin, hmax⟩ := code_of_runs h hth hcode
  refine eq_of_bcryptKey ?_ hkey
  have := Utf8.length_encode_le (toString n)
  rw [length_toString hmin hmax] at this
  omega

/-! ## The registration -/

/-- What a registration remembers of its account. -/
structure Visit.Owns (l : Visit) (e p code : String) (row : UserRow) : Prop where
  req : l.req = .register e p
  created : l.created = some row
  code : l.code = some code
  stored : l.storedAt.isSome

lemma Visit.Owns.mono {l l' : Visit} (hle : l.Le l') (h : l.Owns e p code row) :
    l'.Owns e p code row := by
  obtain ⟨time, htime⟩ := Option.isSome_iff_exists.mp h.stored
  exact ⟨hle.req.trans h.req, hle.created row h.created, hle.code code h.code, by
    rw [hle.storedAt time htime]; rfl⟩

/-- The mailed code is that of the registration. -/
lemma Registered.exists_owns (h : Registered env e p code r s) :
    ∃ th row, s.threads r = some th ∧ th.state.Owns e p code row := by
  obtain ⟨th, hth, hreq, hcreated⟩ := h.created
  obtain ⟨row, hrow⟩ := Option.isSome_iff_exists.mp hcreated
  obtain ⟨t, th', hth', ⟨row', hrow', hemail'⟩, hcode, hstored⟩ :=
    mails_of_runs h.reachable h.mailed
  have husers := users_of_runs h.reachable
  obtain ⟨e₁, p₁, hreq₁, hemail, user, hu, hid, huser, -⟩ := stored_of_runs h.reachable hth hrow
  obtain ⟨-, -, -, -, user', hu', hid', huser', -⟩ := stored_of_runs h.reachable hth' hrow'
  obtain ⟨rfl, rfl⟩ := AuthRequest.register.inj (hreq.symm.trans hreq₁)
  -- one address, one user, one registration
  have hsame : user = user' := by
    refine husers.eq_of_email hu hu' ?_
    rw [huser, hemail, huser', hemail']
  obtain rfl := creator_unique h.reachable hth hth' hrow hrow' (by rw [← hid, hsame, hid'])
  obtain rfl := Option.some.inj (hth.symm.trans hth')
  exact ⟨th, row, hth, hreq, hrow, hcode, hstored⟩

section Account

variable (h : AuthState.Runs env ok AuthState.initial s) (hth : s.threads r = some th)
  (howns : th.state.Owns e p code row)
include h hth howns

/-- The user of the registration. -/
lemma Visit.Owns.exists_user : ∃ user ∈ s.store.users, user.id = row.id ∧
    user.email = env.normalize e ∧ HashOf env p user.passwordHash := by
  obtain ⟨e', p', hreq, hemail, user, hu, hid, huser, hhash⟩ := stored_of_runs h hth howns.created
  obtain ⟨rfl, rfl⟩ := AuthRequest.register.inj (howns.req.symm.trans hreq)
  exact ⟨user, hu, hid, huser.trans hemail, hhash⟩

lemma Visit.Owns.hashOf_of_codeHash {hash : String} (hcode : CodeHash env row.id hash s) :
    HashOf env code hash := by
  obtain ⟨code', ⟨t, th', hth', ⟨row', hrow', hid⟩, hcode'⟩, hhash⟩ := hcode
  obtain rfl := creator_unique h hth hth' howns.created hrow' hid.symm
  obtain rfl := Option.some.inj (hth.symm.trans hth')
  obtain rfl := Option.some.inj (howns.code.symm.trans hcode')
  exact hhash

/-- The calls for the account are about its address. -/
lemma Visit.Owns.address_of_account {th' : AuthThread} (hth' : s.threads t = some th')
    (haccount : th'.state.account = some row.id) :
    th'.state.req.address env = env.normalize e := by
  obtain ⟨row', hrow', hid'⟩ := Visit.exists_found haccount
  obtain ⟨haddress, user', hu', huser', hemail'⟩ := found_of_runs h hth' hrow'
  obtain ⟨user, hu, huser, hemail, -⟩ := howns.exists_user h hth
  obtain rfl := (users_of_runs h).eq_of_id hu' hu (huser'.trans (hid'.trans huser.symm))
  rw [← haddress, ← hemail', hemail]

/-- Only the mailed code is a right one. -/
lemma Visit.Owns.req_of_admitted {th' : AuthThread} (hth' : s.threads t = some th')
    (hadmitted : th'.state.Admitted env row.id true) :
    ∃ email, th'.state.req = .verifyOtp email code := by
  obtain ⟨haccount, hverdict, -⟩ := hadmitted
  unfold Visit.verdict at hverdict
  split at hverdict
  · rename_i email otp hreq
    obtain ⟨hash, hhash, hright⟩ := Option.map_eq_some_iff.mp hverdict
    obtain ⟨id, hid, hcode⟩ := hash_of_runs h hth' hhash
    obtain rfl := Option.some.inj (haccount.symm.trans hid)
    have hof := howns.hashOf_of_codeHash h hth hcode
    have hotp := eq_code_of_bcryptKey h hth howns.code ((hof.2 otp).mp hright)
    exact ⟨email, by rw [hreq, hotp]⟩
  · cases hverdict

/-- As long as the owner has not passed the check, nobody has with the right code. -/
lemma Visit.Owns.not_matched (hsetting : Setting env (env.normalize e) code [r, v] s)
    (hv : ∀ th, s.threads v = some th → ¬ th.state.Admitted env row.id true) :
    ¬ AuthState.Matched env row.id s := by
  rintro ⟨t, th', hth', hadmitted⟩
  obtain ⟨email, hreq⟩ := howns.req_of_admitted h hth hth' hadmitted
  have haddress := howns.address_of_account h hth hth' hadmitted.1
  by_cases hmine : t ∈ [r, v]
  · rw [List.mem_pair] at hmine
    rcases hmine with rfl | rfl
    · obtain rfl := Option.some.inj (hth.symm.trans hth')
      rw [howns.req] at hreq
      cases hreq
    · exact hv th' hth' hadmitted
  · rcases hsetting.others t th' hth' hmine with hne | hguess
    · exact hne haddress
    · simp [isGuess, hreq] at hguess

/-- As long as the owner has not counted an attempt, the counted ones are guesses. -/
lemma Visit.Owns.counted_le_four (hsetting : Setting env (env.normalize e) code [r, v] s)
    (hv : ∀ th, s.threads v = some th → th.state.counted = false) :
    s.count (hasCounted row.id) ≤ 4 := by
  refine le_trans (Pool.count_mono fun t th' hth' hcounted => ?_) hsetting.guesses
  simp only [hasCounted, Bool.and_eq_true, decide_eq_true_eq] at hcounted
  have haddress := howns.address_of_account h hth hth' hcounted.1
  by_cases hmine : t ∈ [r, v]
  · rw [List.mem_pair] at hmine
    rcases hmine with rfl | rfl
    · obtain rfl := Option.some.inj (hth.symm.trans hth')
      have hnone : th.state.account = none := by
        rw [Visit.account, howns.req]
      rw [hnone] at hcounted
      cases hcounted.1
    · rw [hv th' hth'] at hcounted
      cases hcounted.2
  · exact (hsetting.others t th' hth' hmine).resolve_left fun hne => hne haddress

/-- A call about the address that has verified an account has verified this one. -/
lemma Visit.Owns.isVerified_of_verified {th' : AuthThread} (hth' : s.threads t = some th')
    (haddress : th'.state.req.address env = env.normalize e)
    (hverified : th'.state.verified = true) : isVerified row.id s = true := by
  obtain ⟨id, haccount, hid⟩ := isVerified_of_runs h hth' hverified
  obtain ⟨row', hrow', rfl⟩ := Visit.exists_found haccount
  obtain ⟨hemail', user', hu', huser', hfound⟩ := found_of_runs h hth' hrow'
  obtain ⟨user, hu, huser, hemail, -⟩ := howns.exists_user h hth
  have hsame : user' = user := by
    refine (users_of_runs h).eq_of_email hu' hu ?_
    rw [hfound, hemail', haddress, hemail]
  rwa [← huser', hsame, huser] at hid

end Account

/-! ## Requests whose commands are answered well -/

/-- The discipline of a request whose commands succeed, with answers that satisfy `G`. -/
def expecting (G : (c : AuthCmd) → c.Ret → Prop) : Discipline AuthCmd.Ret Exn Visit where
  guard _ _ := True
  outcome l c r l' := ∃ a, r = .ok a ∧ G c a ∧ ∃ s, l' = l.after s c r

/-- The request is answered well, and then satisfies `P`. -/
def Well (good : AuthResponse → Prop) (P : Visit → Prop) (l : Visit)
    (r : Except Exn AuthResponse) : Prop :=
  P l ∧ ∃ resp, r = .ok resp ∧ good resp

section Expecting

variable {G : (c : AuthCmd) → c.Ret → Prop} {Q : Visit → Except Exn AuthResponse → Prop}
  {good : AuthResponse → Prop} {P : Visit → Prop} {l : Visit} {c : AuthCmd}

lemma wp_expect_bind {f : c.Ret → Auth AuthResponse}
    (h : ∀ s a, G c a → (f a).wp (expecting G) Q (l.after s c (.ok a))) :
    (Auth.issue c >>= f).wp (expecting G) Q l := by
  unfold Auth.issue
  rw [Prog.wp_bind, Prog.wp_command]
  refine ⟨trivial, ?_⟩
  rintro _ _ ⟨a, rfl, hG, s, rfl⟩
  exact h s a hG

lemma wp_pass_bind {q : Prop} [Decidable q] {err : Exn} {f : Unit → Auth AuthResponse}
    (hq : ¬ q) (h : (f ()).wp (expecting G) Q l) :
    (Prog.throwIf q err >>= f).wp (expecting G) Q l := by
  unfold Prog.throwIf
  rw [if_neg hq]
  exact h

/-- What a request is answered, where its commands are answered well in every state that it can
come to. -/
lemma succeeds_of_expecting {req : AuthRequest} (hreach : (s.arrival env req).Reachable env)
    (hserved : ∀ s', ¬ ok s' (.fail s.seq) ∧ ¬ ok s' (.crash s.seq))
    (hreply : ∀ s' l c k x, AuthState.Runs env ok (s.arrival env req) s' → ok s' (.run s.seq x) →
      s'.threads s.seq = some ⟨l, .call c k, true⟩ →
      ∃ a, (s'.store.exec env x c).2 = .ok a ∧ G c a)
    (hwp : (req.program env).wp (expecting G) (Well good P) { req }) :
    Succeeds env ok s.seq (s.arrival env req) good ∧
      ∀ s' a, AuthState.Runs env ok (s.arrival env req) s' → s'.answer s.seq = some a →
        ∃ th, s'.threads s.seq = some th ∧ P th.state := by
  have hnew : (s.arrival env req).threads s.seq = some ((authServer env).thread req) :=
    Pool.setThread_self
  have hwp' {s' : AuthState} (hrun : AuthState.Runs env ok (s.arrival env req) s') :
      ∃ th, s'.threads s.seq = some th ∧ th.alive = true ∧
        th.prog.wp (expecting G) (Well good P) th.state := by
    refine Server.exists_wp_of_runs (fresh_of_runs hreach) (fun s' => (hserved s').2) ?_ hrun
      hnew rfl hwp
    intro s' l c k r e hs' hok hth hanswers
    cases hanswers with
    | run x =>
      obtain ⟨a, ha, hG⟩ := hreply s' l c k x hs' hok hth
      exact ⟨a, ha, hG, s'.store, rfl⟩
    | fail => exact absurd hok (hserved s').1
  refine ⟨⟨fun s' hrun => ?_, fun s' a hrun ha => ?_⟩, fun s' a hrun ha => ?_⟩
  · obtain ⟨⟨l, p, alive⟩, hth, rfl, -⟩ := hwp' hrun
    obtain ⟨s'', hrun', -, hanswer, -⟩ :=
      Server.exists_runs_perform (M := authServer env) (Q := AuthRequest) 0 hth
    exact ⟨s'', hrun', by rw [hanswer]; rfl⟩
  · obtain ⟨th, hth, -, hth'⟩ := hwp' hrun
    rw [Pool.answer_eq hth] at ha
    exact (Thread.post_of_answer hth' ha).2
  · obtain ⟨th, hth, -, hth'⟩ := hwp' hrun
    rw [Pool.answer_eq hth] at ha
    exact ⟨th, hth, (Thread.post_of_answer hth' ha).1⟩

end Expecting

/-! ## Bodies that pass their check -/

lemma validationPipe_eq_ok_iff {fields : List (List Constraint)} :
    validationPipe fields = .ok () ↔
      ∀ constraints ∈ fields, ∀ c ∈ constraints, c.holds = true := by
  unfold validationPipe
  simp only
  split
  · rename_i h
    simp only [List.isEmpty_iff, List.filterMap_eq_nil_iff] at h
    simpa using h
  · rename_i h
    simp only [List.isEmpty_iff, List.filterMap_eq_nil_iff] at h
    simpa using h

lemma validated_of_ok {α : Type} {fields : List (List Constraint)} {service : Auth α}
    (h : validationPipe fields = .ok ()) : validated fields service = service := by
  rw [validated, h]

section Bodies

variable (haccepted : Accepted env e p) (hnormal : env.normalize e = e)
include haccepted hnormal

/-- The mailed code with the address, as `VerifyOtpDto` checks them. -/
lemma verifyOtp_accepted {n : ℕ} (hmin : 100000 ≤ n) (hmax : n < 999999) :
    validationPipe (VerifyOtpDto.constraints env { email := e, otp := toString n }) = .ok () := by
  have h := validationPipe_eq_ok_iff.mp haccepted
  simp only [RegisterDto.constraints, hnormal, List.forall_mem_cons] at h
  obtain ⟨⟨hempty, hemail, -⟩, -⟩ := h
  have hlength := isLength_toString hmin hmax
  have hotp : isNotEmpty (toString n) = true := by
    simp only [isNotEmpty, decide_eq_true_eq]
    intro hnil
    rw [hnil] at hlength
    cases hlength
  rw [validationPipe_eq_ok_iff]
  simpa [VerifyOtpDto.constraints, hempty, hemail] using And.intro hlength hotp

lemma signin_accepted :
    validationPipe (SigninDto.constraints env { email := e, password := p }) = .ok () := by
  have h := validationPipe_eq_ok_iff.mp haccepted
  simp only [RegisterDto.constraints, hnormal, List.forall_mem_cons] at h
  obtain ⟨⟨hempty, hemail, -⟩, ⟨-, -, hpassword, -⟩, -⟩ := h
  rw [validationPipe_eq_ok_iff]
  simp [SigninDto.constraints, hempty, hemail, hpassword]

end Bodies

/-! ## The mailed code -/

/-- The answers that the owner of an account gets before it is verified: the code is there, and
the attempts are not used up. -/
def Verifiable (env : AuthEnv) (address code : String) (id : UserId) : (c : AuthCmd) → c.Ret → Prop
  | .findByEmail email, found =>
    email = address → ∃ user ∈ found, user.id = id ∧ user.isVerified = false
  | .getOtp id', hash => id' = id → ∃ h ∈ hash, HashOf env code h
  | .getAttempts id', attempts => id' = id → ∀ n ∈ attempts, n < 5
  | .compare data hash, isValid => isValid = env.bcrypt.compare data hash
  | _, _ => True

lemma wp_verifyOtp_well {id : UserId} :
    (AuthService.verifyOtp { email := e, otp := code }).wp (expecting (Verifiable env e code id))
      (Well (· = .message "Email verified successfully") fun l => l.verified = true)
      { req := .verifyOtp e code } := by
  unfold AuthService.verifyOtp
  refine wp_expect_bind fun _ found hfound => ?_
  obtain ⟨user, rfl, rfl, hunverified⟩ := hfound rfl
  refine wp_pass_bind (by simp [hunverified]) ?_
  refine wp_expect_bind fun _ hash hhash => ?_
  obtain ⟨h, rfl, hof⟩ := hhash rfl
  refine wp_expect_bind fun _ attempts hattempts => ?_
  have hfew : ¬ ∃ n ∈ attempts, 5 ≤ n := by
    rintro ⟨n, hn, hfive⟩
    exact absurd (hattempts rfl n hn) (not_lt.mpr hfive)
  have hadmits : AuthService.admits (some h) attempts = some h := by
    simp only [AuthService.admits, if_neg (not_or.mpr ⟨hof.1, hfew⟩)]
  rw [hadmits]
  unfold AuthService.compareOtp
  refine wp_expect_bind fun _ isValid hvalid => ?_
  obtain rfl : isValid = true := hvalid.trans ((hof.2 code).mpr rfl)
  rw [if_pos rfl]
  refine wp_expect_bind fun _ _ _ => ?_
  refine wp_expect_bind fun _ _ _ => ?_
  refine wp_expect_bind fun _ _ _ => ?_
  exact ⟨rfl, _, rfl, rfl⟩

/-- What the owner is answered, with the account not verified yet. -/
lemma verifiable_of_runs (h : AuthState.Runs env ok AuthState.initial s)
    (hth : s.threads r = some th) (howns : th.state.Owns e p code row)
    (hnormal : env.normalize e = e) (hsetting : Setting env (env.normalize e) code [r, v] s)
    {l : Visit} {c : AuthCmd} {k : Except Exn c.Ret → Auth AuthResponse}
    (hv : s.threads v = some ⟨l, .call c k, true⟩) (hreq : l.req = .verifyOtp e code)
    (hlive : ∀ id, c = .getOtp id → ∀ hash deadline,
      s.store.otps id = some (hash, deadline) → s.store.now < deadline) (x : ℕ) :
    ∃ a, (s.store.exec env x c).2 = .ok a ∧ Verifiable env e code row.id c a := by
  have hmay := ((obeys_of_runs h).guard hv).2
  have hunmatched (hnot : ¬ l.Admitted env row.id true) : ¬ AuthState.Matched env row.id s := by
    refine howns.not_matched h hth hsetting fun th' hth' => ?_
    obtain rfl := Option.some.inj (hv.symm.trans hth')
    exact hnot
  cases c with
  | findByEmail email =>
    refine ⟨_, rfl, ?_⟩
    rintro rfl
    obtain ⟨user, hu, hid, hemail, -⟩ := howns.exists_user h hth
    have hfound : s.store.findUser email = some user := by
      have := (users_of_runs h).findUser_eq hu
      rwa [hemail, hnormal] at this
    refine ⟨user.toUserRow, by rw [hfound]; rfl, hid, ?_⟩
    -- who has verified the account would have passed the check
    by_contra hverified
    rw [Bool.not_eq_false] at hverified
    have hverified' : isVerified row.id s = true :=
      List.any_eq_true.mpr ⟨user, hu, by simp [hid, hverified]⟩
    refine hunmatched (fun hadmitted => ?_) (matched_of_isVerified h hverified')
    have haccount := hadmitted.1
    rw [Visit.account_of_found hmay.1] at haccount
    cases haccount
  | getOtp id =>
    refine ⟨_, rfl, ?_⟩
    rintro rfl
    have hthere := (stored_otp_of_runs h hth howns.created howns.stored).resolve_right
      (hunmatched fun hadmitted => by
        have := hadmitted.2.2
        rw [Visit.admitted, hmay.2.1] at this
        cases this)
    obtain ⟨⟨hash, deadline⟩, hotp⟩ := Option.isSome_iff_exists.mp hthere
    refine ⟨hash, ?_, howns.hashOf_of_codeHash h hth (otps_of_runs h hotp)⟩
    exact Custody.live_eq_some_iff.mpr ⟨deadline, hotp, hlive row.id rfl hash deadline hotp⟩
  | getAttempts id =>
    refine ⟨_, rfl, ?_⟩
    rintro rfl n hn
    obtain ⟨deadline, hcounter⟩ := AuthStore.liveAttempts_eq hn
    have hcount := attempts_of_runs h hcounter
    have hfour := howns.counted_le_four h hth hsetting fun th' hth' => by
      obtain rfl := Option.some.inj (hv.symm.trans hth')
      exact hmay.2.2.1
    omega
  | create email hash b =>
    obtain ⟨-, -, e', p', hreq', -⟩ := hmay
    rw [hreq] at hreq'
    cases hreq'
  | compare data hash => exact ⟨_, rfl, rfl⟩
  | _ => exact ⟨_, rfl, trivial⟩

/-! ## The password -/

/-- The answers that the owner of a verified account gets. -/
def Signable (env : AuthEnv) (address password : String) : (c : AuthCmd) → c.Ret → Prop
  | .findByEmailWithPassword email, found => email = address → ∃ user ∈ found,
    user.isVerified = true ∧ HashOf env password user.passwordHash
  | .compare data hash, isValid => isValid = env.bcrypt.compare data hash
  | _, _ => True

lemma wp_signin_well :
    (AuthService.signin { email := e, password := p }).wp (expecting (Signable env e p))
      (Well (fun resp => ∃ token, resp = .accessToken token) fun _ => True)
      { req := .signin e p } := by
  unfold AuthService.signin
  refine wp_expect_bind fun _ found hfound => ?_
  obtain ⟨user, rfl, hverified, hof⟩ := hfound rfl
  refine wp_pass_bind hof.1 ?_
  refine wp_expect_bind fun _ isPasswordValid hvalid => ?_
  obtain rfl : isPasswordValid = true := hvalid.trans ((hof.2 p).mpr rfl)
  refine wp_pass_bind (by simp) ?_
  refine wp_pass_bind (by simp [hverified]) ?_
  refine wp_expect_bind fun _ token _ => ?_
  exact ⟨trivial, _, rfl, token, rfl⟩

/-- What the owner is answered, with the account verified. -/
lemma signable_of_runs (h : AuthState.Runs env ok AuthState.initial s)
    (hth : s.threads r = some th) (howns : th.state.Owns e p code row)
    (hnormal : env.normalize e = e) (hverified : isVerified row.id s = true)
    {l : Visit} {c : AuthCmd} {k : Except Exn c.Ret → Auth AuthResponse}
    (hv : s.threads v = some ⟨l, .call c k, true⟩) (hreq : l.req = .signin e p) (x : ℕ) :
    ∃ a, (s.store.exec env x c).2 = .ok a ∧ Signable env e p c a := by
  have hmay := ((obeys_of_runs h).guard hv).2
  cases c with
  | findByEmailWithPassword email =>
    refine ⟨_, rfl, ?_⟩
    rintro rfl
    obtain ⟨user, hu, hid, hemail, hhash⟩ := howns.exists_user h hth
    obtain ⟨user', hu', hverified'⟩ := List.any_eq_true.mp hverified
    rw [Bool.and_eq_true, decide_eq_true_eq] at hverified'
    obtain rfl := (users_of_runs h).eq_of_id hu' hu (hverified'.1.trans hid.symm)
    have hfound := (users_of_runs h).findUser_eq hu
    rw [hemail, hnormal] at hfound
    exact ⟨user', hfound, hverified'.2, hhash⟩
  | create email hash b =>
    obtain ⟨-, -, e', p', hreq', -⟩ := hmay
    rw [hreq] at hreq'
    cases hreq'
  | compare data hash => exact ⟨_, rfl, rfl⟩
  | _ => exact ⟨_, rfl, trivial⟩

/-! ## Getting in -/

/-- A request is there as long as the run goes on. -/
lemma exists_later (h : s₀.Reachable env) (hrun : AuthState.Runs env ok s₀ s)
    (hth : s₀.threads t = some th) :
    s.Reachable env ∧ ∃ th', s.threads t = some th' ∧ th.state.Le th'.state := by
  have hany : AuthState.Runs env anyStep s₀ s := hrun.mono fun _ _ _ => trivial
  exact ⟨h.trans hany, exists_visit_of_runs h hany hth⟩

lemma arrival_reachable (h : s.Reachable env) (req : AuthRequest) :
    (s.arrival env req).Reachable env :=
  h.tail (e := .spawn req) trivial rfl

lemma arrival_threads (h : s.Reachable env) (hth : s.threads t = some th) (req : AuthRequest) :
    (s.arrival env req).threads t = some th := by
  refine Eq.trans ?_ hth
  exact Pool.setThread_of_ne ((fresh_of_runs h).lt hth).ne

lemma AuthState.Calm.served {address : String} (s' : AuthState) :
    ¬ AuthState.Calm env address code mine t s' (.fail t) ∧
      ¬ AuthState.Calm env address code mine t s' (.crash t) :=
  ⟨fun h => h.2 rfl, fun h => h.2 rfl⟩

section Owner

variable (haccepted : Accepted env e p) (hnormal : env.normalize e = e)
include haccepted hnormal

/-- Where trimming and lower-casing does nothing, the mailed code verifies the account. -/
lemma verifyOtp_succeeds (hreg : Registered env e p code r s) :
    Succeeds env (AuthState.Calm env (env.normalize e) code [r, s.seq] s.seq) s.seq
      (s.arrival env (.verifyOtp e code)) (· = .message "Email verified successfully") ∧
    ∀ s' a, AuthState.Runs env (AuthState.Calm env (env.normalize e) code [r, s.seq] s.seq)
        (s.arrival env (.verifyOtp e code)) s' → s'.answer s.seq = some a →
      ∃ th, s'.threads s.seq = some th ∧ th.state.verified = true := by
  obtain ⟨th, row, hth, howns⟩ := hreg.exists_owns
  have hreach := arrival_reachable hreg.reachable (.verifyOtp e code)
  have hth₁ := arrival_threads hreg.reachable hth (.verifyOtp e code)
  refine succeeds_of_expecting (G := Verifiable env e code row.id)
    (P := fun l => l.verified = true) hreach AuthState.Calm.served ?_ ?_
  · intro s' l c k x hrun hok hv
    obtain ⟨hreach', th', hth', hle⟩ := exists_later hreach hrun hth₁
    obtain ⟨-, thv, hthv, hlev⟩ := exists_later hreach hrun Pool.setThread_self
    obtain rfl := Option.some.inj (hv.symm.trans hthv)
    refine verifiable_of_runs hreach' hth' (howns.mono hle) hnormal hok.1 hv hlev.req
      (fun id hc => ?_) x
    refine hok.2 rfl id ?_
    rw [Pool.next_eq hv, Thread.next_call, hc]
  · obtain ⟨n, rfl, hmin, hmax⟩ := code_of_runs hreg.reachable hth howns.code
    rw [AuthRequest.program, validated_of_ok (verifyOtp_accepted haccepted hnormal hmin hmax)]
    exact wp_verifyOtp_well

/-- Then the password signs in. -/
lemma signin_succeeds {address : String} (hreach : s.Reachable env) (hth : s.threads r = some th)
    (howns : th.state.Owns e p code row) (hverified : isVerified row.id s = true) :
    Succeeds env (AuthState.Calm env address code mine s.seq) s.seq (s.arrival env (.signin e p))
      fun resp => ∃ token, resp = .accessToken token := by
  have hreach₁ := arrival_reachable hreach (.signin e p)
  have hth₁ := arrival_threads hreach hth (.signin e p)
  refine (succeeds_of_expecting (G := Signable env e p) (P := fun _ => True) hreach₁
    AuthState.Calm.served ?_ ?_).1
  · intro s' l c k x hrun hok hv
    obtain ⟨hreach', th', hth', hle⟩ := exists_later hreach₁ hrun hth₁
    obtain ⟨-, thv, hthv, hlev⟩ := exists_later hreach₁ hrun Pool.setThread_self
    obtain rfl := Option.some.inj (hv.symm.trans hthv)
    refine signable_of_runs hreach' hth' (howns.mono hle) hnormal ?_ hv hlev.req x
    exact hrun.invariant (I := fun s' => isVerified row.id s' = true) hverified
      fun s e s' hs hI _ hstep => isVerified_step (obeys_of_runs
        (exists_later hreach₁ hs hth₁).1) hstep hI
  · rw [AuthRequest.program, validated_of_ok (signin_accepted haccepted hnormal)]
    exact wp_signin_well

lemma getsIn_of_normal : GetsIn env e p := by
  intro s r code hreg
  obtain ⟨hsucceeds, hverified⟩ := verifyOtp_succeeds haccepted hnormal hreg
  refine ⟨hsucceeds, fun s' hrun hanswered => ?_⟩
  obtain ⟨th, row, hth, howns⟩ := hreg.exists_owns
  have hreach := arrival_reachable hreg.reachable (.verifyOtp e code)
  have hth₁ := arrival_threads hreg.reachable hth (.verifyOtp e code)
  obtain ⟨hreach', th', hth', hle⟩ := exists_later hreach hrun hth₁
  obtain ⟨a, ha⟩ := Option.isSome_iff_exists.mp hanswered
  obtain ⟨thv, hthv, hdone⟩ := hverified s' a hrun ha
  obtain ⟨-, thv', hthv', hlev⟩ := exists_later hreach hrun Pool.setThread_self
  obtain rfl := Option.some.inj (hthv.symm.trans hthv')
  refine signin_succeeds haccepted hnormal hreach' hth' (howns.mono hle) ?_
  refine (howns.mono hle).isVerified_of_verified hreach' hth' hthv ?_ hdone
  rw [hlev.req]
  exact hnormal.symm

end Owner

/-! ## Not getting in -/

/-- The first registration, undisturbed. -/
lemma exists_registered (haccepted : Accepted env e p) : ∃ s, Registered env e p "100000" 0 s ∧
    s.seq = 1 ∧ (∀ t, t ≠ 0 → s.threads t = none) ∧
      ∀ email, email ≠ env.normalize e → s.store.findUser email = none := by
  have hspawn : (AuthState.initial.arrival env (.register e p)).Reachable env :=
    arrival_reachable .refl (.register e p)
  have hth : (AuthState.initial.arrival env (.register e p)).threads 0 =
      some ⟨{ req := .register e p }, (AuthRequest.register e p).program env, true⟩ := rfl
  have hprogram : (AuthRequest.register e p).program env =
      AuthService.register { email := env.normalize e, password := p } :=
    validated_of_ok haccepted
  obtain ⟨s, hrun, hstore, -, hseq, hothers⟩ := Server.exists_runs_perform (M := authServer env)
    0 hth
  rw [hprogram] at hstore
  have hmails : s.store.mails = [⟨env.normalize e, "100000"⟩] := by
    rw [hstore]
    rfl
  have husers : s.store.users.map (fun user => user.email) = [env.normalize e] := by
    rw [hstore]
    rfl
  obtain ⟨hreach, th, hth', hle⟩ := exists_later hspawn hrun hth
  have halone (t : ℕ) (ht : t ≠ 0) : s.threads t = none := by
    rw [hothers t ht]
    exact Pool.setThread_of_ne ht
  refine ⟨s, ⟨hreach, ⟨th, hth', hle.req, ?_⟩, ?_⟩, hseq, halone, fun email hne => ?_⟩
  · -- the code comes from a registration, and there is no other
    obtain ⟨t, th', hmailer, ⟨row, hrow, -⟩, -⟩ := mails_of_runs hreach
      (hmails ▸ List.mem_singleton_self _)
    obtain rfl : t = 0 := by
      by_contra ht
      rw [halone t ht] at hmailer
      cases hmailer
    obtain rfl := Option.some.inj (hth'.symm.trans hmailer)
    rw [hrow]
    rfl
  · rw [hmails]
    exact List.mem_singleton_self _
  · refine List.find?_eq_none.mpr fun user hu => ?_
    have hemail : user.email ∈ s.store.users.map fun user => user.email :=
      List.mem_map_of_mem hu
    rw [husers, List.mem_singleton] at hemail
    simpa [hemail] using hne.symm

/-- Two requests that are alone. -/
lemma setting_of_alone {address : String} (hseq : s.seq = 1)
    (halone : ∀ t, t ≠ 0 → s.threads t = none) (req : AuthRequest) :
    Setting env address code [0, s.seq] (s.arrival env req) := by
  constructor
  · intro t th ht hmine
    simp only [List.mem_cons, List.not_mem_nil, or_false, not_or] at hmine
    have hold : s.threads t = some th := (Pool.setThread_of_ne hmine.2).symm.trans ht
    rw [halone t hmine.1] at hold
    cases hold
  · have hlength : (s.arrival env req).count (isGuess address code) ≤ s.seq + 1 :=
      List.countP_le_length.trans List.length_range.le
    omega

/-- An address that no user has. -/
lemma exists_step_of_findUser {l : Visit} (hfind : s.store.findUser e = none)
    (hth : s.threads t = some ⟨l, AuthService.verifyOtp { email := e, otp := code }, true⟩) :
    s.next t = some (.findByEmail e) ∧ ∃ s', (authServer env).step s (.run t 0) = some s' ∧
      s'.answer t = some (.error AuthService.invalidOtp) := by
  obtain ⟨k, hprogram, hnone⟩ : ∃ k, AuthService.verifyOtp { email := e, otp := code } =
      .call (.findByEmail e) k ∧ k (.ok none) = .throw AuthService.invalidOtp := ⟨_, rfl, rfl⟩
  rw [hprogram] at hth
  have hread : (s.store.exec env 0 (.findByEmail e)).2 = .ok none := by
    simp only [AuthStore.exec, hfind]
    rfl
  refine ⟨Pool.next_eq hth, _, Server.step_run 0 hth, ?_⟩
  rw [Server.resume, Pool.answer_eq Pool.setThread_self]
  show (⟨_, k (s.store.exec env 0 (.findByEmail e)).2, true⟩ : AuthThread).answer = _
  rw [hread, hnone]
  rfl

/-- Where trimming and lower-casing does something, the address that was typed is not found. -/
lemma not_getsIn (haccepted : Accepted env e p) (hne : env.normalize e ≠ e) :
    ¬ GetsIn env e p := by
  intro hin
  obtain ⟨s, hreg, hseq, halone, hfind⟩ := exists_registered haccepted
  obtain ⟨⟨-, hgood⟩, -⟩ := hin s 0 "100000" hreg
  have hth : (s.arrival env (.verifyOtp e "100000")).threads s.seq =
      some ⟨{ req := .verifyOtp e "100000" }, (AuthRequest.verifyOtp e "100000").program env,
        true⟩ := Pool.setThread_self
  cases hvalid : validationPipe
      (VerifyOtpDto.constraints env { email := e, otp := "100000" }) with
  | error err =>
    rw [AuthRequest.program, validated, hvalid] at hth
    obtain ⟨resp, hresp, -⟩ := hgood _ _ .refl (Pool.answer_eq hth)
    cases hresp
  | ok _ =>
    rw [AuthRequest.program, validated_of_ok hvalid] at hth
    have hnobody : (s.arrival env (.verifyOtp e "100000")).store.findUser e = none :=
      hfind e hne.symm
    obtain ⟨hnext, s', hstep, hanswer⟩ := exists_step_of_findUser hnobody hth
    have hserved : Served s.seq (s.arrival env (.verifyOtp e "100000")) (.run s.seq 0) := by
      intro _ id hget
      rw [hnext] at hget
      cases hget
    obtain ⟨resp, hresp, -⟩ := hgood _ _
      (.tail .refl ⟨setting_of_alone hseq halone (.verifyOtp e "100000"), hserved⟩ hstep) hanswer
    cases hresp

/-- Whoever has registered gets in with what was typed, just where trimming and lower-casing
leaves the address as it is. -/
theorem getsIn_iff (haccepted : Accepted env e p) : GetsIn env e p ↔ env.normalize e = e := by
  constructor
  · intro hin
    by_contra hne
    exact not_getsIn haccepted hne hin
  · exact getsIn_of_normal haccepted

theorem getsIn_iff_lower_case : GetsIn plainAuth "user@example.com" "StrongPassword123!" := by
  have haccepted : Accepted plainAuth "user@example.com" "StrongPassword123!" := by rfl
  exact (getsIn_iff haccepted).mpr (by decide)

theorem not_getsIn_mixed_case :
    Accepted plainAuth "User@Example.com" "StrongPassword123!" ∧
      ¬ GetsIn plainAuth "User@Example.com" "StrongPassword123!" := by
  have haccepted : Accepted plainAuth "User@Example.com" "StrongPassword123!" := by rfl
  exact ⟨haccepted, not_getsIn haccepted (by decide)⟩

end FxExchange
