import FxExchange.Model.Auth

/-
# What an auth request may do

Each endpoint keeps to a discipline: which commands it issues, in terms of what it has come
across before.  So a call of `verifyOtp` counts itself only after a comparison that has
failed, sets `isVerified` only after one that has not, and a registration stores a hash of the
code that it mails.
-/

namespace FxExchange

open Interleaving

variable {env : AuthEnv} {s s' : AuthState} {e : AuthEvent} {t : ℕ} {l : Visit} {c : AuthCmd}

namespace Visit

/-- The account that a call of `verifyOtp` is about. -/
def account (l : Visit) : Option UserId :=
  match l.req with
  | .verifyOtp _ _ => l.found.map UserRow.id
  | _ => none

/-- Whether the code of a call is the one whose hash it has read. -/
def verdict (env : AuthEnv) (l : Visit) : Option Bool :=
  match l.req with
  | .verifyOtp _ otp => l.hash.map fun hash => env.bcrypt.compare otp hash
  | _ => none

/-- The hash that a call goes on to compare with: it has read the counter, and passed. -/
def admitted (l : Visit) : Option String := l.attempts.bind fun attempts =>
  AuthService.admits l.hash attempts

/-- A call for the account that has passed the check, with a right code or a wrong one. -/
def Admitted (env : AuthEnv) (a : UserId) (b : Bool) (l : Visit) : Prop :=
  l.account = some a ∧ l.verdict env = some b ∧ l.admitted.isSome

instance (a : UserId) (b : Bool) (l : Visit) : Decidable (l.Admitted env a b) :=
  inferInstanceAs (Decidable (_ ∧ _ ∧ _))

end Visit

/-- A hash that is there, and for which only texts with the key of `data` are accepted. -/
def HashOf (env : AuthEnv) (data hash : String) : Prop :=
  hash ≠ "" ∧ ∀ data', env.bcrypt.compare data' hash ↔ bcryptKey data' = bcryptKey data

/-! ## The discipline -/

/-- When a request may issue a command. -/
def Visit.May (env : AuthEnv) (l : Visit) : AuthCmd → Prop
  | .findByEmail email =>
    l.found = none ∧ l.attempts = none ∧ l.compared = false ∧ l.counted = false ∧
      email = l.req.address env
  | .create email passwordHash isVerified => l.created = none ∧ isVerified = false ∧
    ∃ e p, l.req = .register e p ∧ email = env.normalize e ∧ HashOf env p passwordHash
  | .randomInt min max => l.code = none ∧ min = 100000 ∧ max = 999999
  | .setOtp id hash ex => l.storedAt = none ∧ ex = 600 ∧ l.reset = false ∧ ∃ user code,
    l.created = some user ∧ user.id = id ∧ l.code = some code ∧ HashOf env code hash
  | .setAttempts id value ex => value = 0 ∧ ex = 900 ∧ l.reset = false ∧ l.storedAt.isSome ∧
    ∃ user, l.created = some user ∧ user.id = id
  | .sendOtp email otp => l.reset ∧ l.storedAt.isSome ∧
    ∃ user, l.created = some user ∧ user.email = email ∧ l.code = some otp
  | .getOtp id => l.hash = none ∧ l.attempts = none ∧ l.compared = false ∧ l.account = some id
  | .getAttempts id =>
    l.attempts = none ∧ l.compared = false ∧ l.counted = false ∧ l.verified = false ∧
      l.account = some id
  | .compare _ hash => (∃ e p, l.req = .signin e p) ∨
    l.admitted = some hash ∧ l.counted = false ∧ l.verified = false ∧ l.account.isSome
  | .incrAttempts id => l.counted = false ∧ l.Admitted env id false
  | .update id isVerified => l.verified = false ∧ isVerified = true ∧ l.Admitted env id true
  | .delOtp id => l.verified = true ∧ l.Admitted env id true
  | .delAttempts id => l.dropped = true ∧ l.verified = true ∧ l.Admitted env id true
  | _ => True

/-- What a request can rely on in an answer. -/
def AuthReply (env : AuthEnv) : (c : AuthCmd) → Except Exn c.Ret → Prop
  | .findByEmail email, .ok found => ∀ user ∈ found, user.email = email
  | .create email _ _, .ok user => user.email = email
  | .hash data _, .ok hash => HashOf env data hash
  | .randomInt min max, .ok n => min < max → min ≤ n ∧ n < max
  | .compare data hash, .ok isValid => isValid = env.bcrypt.compare data hash
  | _, _ => True

/-- The discipline of the auth requests. -/
def accounts (env : AuthEnv) : Discipline AuthCmd.Ret Exn Visit where
  guard l c := l.failed = false ∧ l.May env c
  outcome l c r l' := (∃ s, l' = l.after s c r) ∧ AuthReply env c r

/-- A wrong code that has been admitted is counted, unless a command has failed. -/
def Counts (env : AuthEnv) (l : Visit) (_ : Except Exn AuthResponse) : Prop :=
  ∀ a, l.Admitted env a false → l.counted = true ∨ l.failed = true

/-! ## The endpoints keep to it -/

lemma AuthService.hash_of_admits {hashedOtp : Option String} {attempts : Option ℕ} {hash : String}
    (h : admits hashedOtp attempts = some hash) : hashedOtp = some hash := by
  cases hashedOtp with
  | none => cases h
  | some hash' =>
    simp only [admits] at h
    split at h
    · cases h
    · exact h

@[simp] lemma Visit.after_failed (s : AuthStore) (l : Visit) (c : AuthCmd) (e : Exn) :
    (l.after s c (.error e)).failed = true := by
  cases c <;> rfl

/-- A command and what follows. -/
lemma Auth.wp_issue_bind {f : c.Ret → Auth AuthResponse} (hfailed : l.failed = false)
    (hmay : l.May env c)
    (hok : ∀ s a, AuthReply env c (.ok a) →
      (f a).wp (accounts env) (Counts env) (l.after s c (.ok a))) :
    (Auth.issue c >>= f).wp (accounts env) (Counts env) l := by
  unfold Auth.issue
  rw [Prog.wp_bind, Prog.wp_command]
  refine ⟨⟨hfailed, hmay⟩, ?_⟩
  rintro (e | a) l' ⟨⟨s, rfl⟩, hreply⟩
  · intro a _
    simp
  · exact hok s a hreply

lemma Auth.wp_throwIf_bind {p : Prop} [Decidable p] {e : Exn} {f : Unit → Auth AuthResponse}
    (hp : p → Counts env l (.error e)) (hf : ¬ p → (f ()).wp (accounts env) (Counts env) l) :
    (Prog.throwIf p e >>= f).wp (accounts env) (Counts env) l := by
  rw [Prog.wp_bind, Prog.wp_throwIf]
  exact ⟨hp, hf⟩

/-- A call that has not passed the check has nothing to count. -/
lemma counts_of_not_admitted (h : l.admitted = none) (r : Except Exn AuthResponse) :
    Counts env l r := by
  intro a ha
  have := ha.2.2
  simp [h] at this

lemma wp_register {e p : String} (email : String) (hemail : email = env.normalize e) :
    (AuthService.register { email, password := p }).wp (accounts env) (Counts env)
      { req := .register e p } := by
  unfold AuthService.register
  refine Auth.wp_issue_bind rfl ⟨rfl, rfl, rfl, rfl, hemail⟩ fun _ found _ => ?_
  refine Auth.wp_throwIf_bind (fun _ => counts_of_not_admitted rfl _) fun _ => ?_
  refine Auth.wp_issue_bind rfl trivial fun _ passwordHash hpassword => ?_
  refine Auth.wp_issue_bind rfl ⟨rfl, rfl, e, p, rfl, hemail, hpassword⟩ fun _ user huser => ?_
  refine Auth.wp_issue_bind rfl ⟨rfl, rfl, rfl⟩ fun _ otp _ => ?_
  refine Auth.wp_issue_bind rfl trivial fun _ hashedOtp hotp => ?_
  refine Auth.wp_issue_bind rfl ⟨rfl, rfl, rfl, user, _, rfl, rfl, rfl, hotp⟩ fun _ _ _ => ?_
  refine Auth.wp_issue_bind rfl ⟨rfl, rfl, rfl, rfl, user, rfl, rfl⟩ fun _ _ _ => ?_
  rw [Prog.wp_bind, Prog.wp_tryCatch]
  refine Prog.wp_command.mpr ⟨⟨rfl, rfl, rfl, user, rfl, rfl, rfl⟩, ?_⟩
  rintro (e | a) l' ⟨⟨s, rfl⟩, -⟩
  · exact counts_of_not_admitted rfl (.ok (.message "Verification email sent"))
  · exact counts_of_not_admitted rfl (.ok (.message "Verification email sent"))

lemma wp_compareOtp {id : UserId} {otp hash : String} (hfailed : l.failed = false)
    (haccount : l.account = some id) (hadmitted : l.admitted = some hash)
    (hcounted : l.counted = false) (hverified : l.verified = false)
    (hverdict : l.verdict env = some (env.bcrypt.compare otp hash)) :
    (AuthService.compareOtp otp hash id).wp (accounts env) (Counts env) l := by
  have hpassed : l.admitted.isSome := by rw [hadmitted]; rfl
  unfold AuthService.compareOtp
  refine Auth.wp_issue_bind hfailed (.inr ⟨hadmitted, hcounted, hverified, by rw [haccount]; rfl⟩)
    fun _ isValid hvalid => ?_
  obtain rfl : isValid = env.bcrypt.compare otp hash := hvalid
  split
  · rename_i hright
    rw [hright] at hverdict
    have hnot (l' : Visit) (r : Except Exn AuthResponse) (h : l'.verdict env = some true) :
        Counts env l' r := by
      intro a ha
      rw [ha.2.1] at h
      cases h
    refine Auth.wp_issue_bind hfailed ⟨hverified, rfl, haccount, hverdict, hpassed⟩ fun _ _ _ => ?_
    refine Auth.wp_issue_bind hfailed ⟨rfl, haccount, hverdict, hpassed⟩ fun _ _ _ => ?_
    refine Auth.wp_issue_bind hfailed ⟨rfl, rfl, haccount, hverdict, hpassed⟩ fun _ _ _ => ?_
    exact hnot _ _ hverdict
  · rename_i hwrong
    rw [Bool.not_eq_true] at hwrong
    rw [hwrong] at hverdict
    refine Auth.wp_issue_bind hfailed ⟨hcounted, haccount, hverdict, hpassed⟩ fun _ _ _ => ?_
    intro a _
    exact .inl rfl

lemma wp_verifyOtp (email otp : String) :
    (AuthService.verifyOtp { email, otp }).wp (accounts env) (Counts env)
      { req := .verifyOtp email otp } := by
  unfold AuthService.verifyOtp
  refine Auth.wp_issue_bind rfl ⟨rfl, rfl, rfl, rfl, rfl⟩ fun _ found _ => ?_
  cases found with
  | none => exact counts_of_not_admitted rfl _
  | some user =>
    refine Auth.wp_throwIf_bind (fun _ => counts_of_not_admitted rfl _) fun _ => ?_
    refine Auth.wp_issue_bind rfl ⟨rfl, rfl, rfl, rfl⟩ fun _ hash _ => ?_
    refine Auth.wp_issue_bind rfl ⟨rfl, rfl, rfl, rfl, rfl⟩ fun _ attempts _ => ?_
    split
    · rename_i hrefused
      refine counts_of_not_admitted ?_ _
      exact hrefused
    · rename_i hashedOtp hadmits
      have hhash : hash = some hashedOtp := AuthService.hash_of_admits hadmits
      exact wp_compareOtp rfl rfl hadmits rfl rfl (by rw [hhash]; rfl)

lemma wp_signin (email password : String) :
    (AuthService.signin { email, password }).wp (accounts env) (Counts env)
      { req := .signin email password } := by
  have hnone (r : Except Exn AuthResponse) : Counts env { req := .signin email password } r :=
    counts_of_not_admitted rfl _
  unfold AuthService.signin
  refine Auth.wp_issue_bind rfl trivial fun _ found _ => ?_
  cases found with
  | none => exact hnone _
  | some user =>
    refine Auth.wp_throwIf_bind (fun _ => hnone _) fun _ => ?_
    refine Auth.wp_issue_bind rfl (.inl ⟨_, _, rfl⟩) fun _ isPasswordValid _ => ?_
    refine Auth.wp_throwIf_bind (fun _ => counts_of_not_admitted rfl _) fun _ => ?_
    refine Auth.wp_throwIf_bind (fun _ => counts_of_not_admitted rfl _) fun _ => ?_
    refine Auth.wp_issue_bind rfl trivial fun _ token _ => ?_
    exact counts_of_not_admitted rfl _

lemma wp_validated {fields : List (List Constraint)} {service : Auth AuthResponse}
    (hadmitted : l.admitted = none) (h : service.wp (accounts env) (Counts env) l) :
    (validated fields service).wp (accounts env) (Counts env) l := by
  unfold validated
  split
  · exact h
  · exact counts_of_not_admitted hadmitted _

lemma wp_request (req : AuthRequest) :
    (req.program env).wp (accounts env) (Counts env) { req } := by
  cases req with
  | register email password => exact wp_validated rfl (wp_register _ rfl)
  | verifyOtp email otp => exact wp_validated rfl (wp_verifyOtp email otp)
  | signin email password => exact wp_validated rfl (wp_signin email password)

/-! ## The answers -/

lemma AuthStore.findUser_email {s : AuthStore} {email : String} {user : User}
    (h : s.findUser email = some user) : user ∈ s.users ∧ user.email = email := by
  unfold findUser at h
  exact ⟨List.mem_of_find?_eq_some h, by simpa using List.find?_some h⟩

lemma reply_exec (s : AuthStore) (x : ℕ) : AuthReply env c (s.exec env x c).2 := by
  cases c with
  | findByEmail email =>
    intro user huser
    obtain ⟨user', hfound, rfl⟩ := Option.map_eq_some_iff.mp huser
    exact (AuthStore.findUser_email hfound).2
  | create email passwordHash isVerified =>
    simp only [AuthStore.exec]
    split
    · trivial
    · rfl
  | hash data rounds =>
    exact ⟨env.bcrypt.hash_ne x rounds data, env.bcrypt.compare_hash x rounds data⟩
  | randomInt min max =>
    intro hlt
    have hmod := Nat.mod_lt x (Nat.sub_pos_of_lt hlt)
    show min ≤ min + x % (max - min) ∧ min + x % (max - min) < max
    omega
  | compare data hash => rfl
  | _ => trivial

/-- Only the insertion of a user can fail by itself. -/
lemma AuthStore.eq_create_of_error {s : AuthStore} {x : ℕ} {err : Exn}
    (h : (s.exec env x c).2 = .error err) : ∃ email hash b, c = .create email hash b := by
  cases c with
  | create email hash b => exact ⟨email, hash, b, rfl⟩
  | _ => cases h

lemma reply_of_answers {r : Except Exn c.Ret} (h : (authServer env).Answers s t c e r) :
    AuthReply env c r := by
  cases h with
  | run x => exact reply_exec s.store x
  | fail => cases c <;> trivial

/-! ## Every request keeps to it -/

variable {ok : AuthState → AuthEvent → Prop}

lemma fresh_of_runs (h : AuthState.Runs env ok AuthState.initial s) : Server.Fresh s :=
  (Server.fresh_initial _).runs h

/-- Every thread keeps to the discipline, whatever comes in between. -/
theorem obeys_of_runs (h : AuthState.Runs env ok AuthState.initial s) :
    Server.Obeys (accounts env) (Counts env) s := by
  refine h.invariant (I := Server.Obeys (accounts env) (Counts env)) ?_
    fun s e s' _ hobeys _ hstep => hobeys.step wp_request ?_ hstep
  · intro t th hth
    cases hth
  · intro t l c k r _ _ hanswers
    exact ⟨⟨s.store, rfl⟩, reply_of_answers hanswers⟩

/-- What holds of a new request, is kept by each step, and by each command that it may issue,
holds of every request. -/
lemma forall_visits_of_runs {P : AuthState → Visit → Prop}
    (h : AuthState.Runs env ok AuthState.initial s) (hnew : ∀ s req, P s { req })
    (hkept : ∀ s e s' l, AuthState.Runs env ok AuthState.initial s → ok s e →
      (authServer env).step s e = some s' → P s l → P s' l)
    (hmoved : ∀ s e s' t l c k r, AuthState.Runs env ok AuthState.initial s → ok s e →
      (authServer env).step s e = some s' → s.threads t = some ⟨l, .call c k, true⟩ →
      l.May env c → (authServer env).Answers s t c e r → P s l → P s' l →
      P s' (l.after s.store c r))
    {th : AuthThread} (hth : s.threads t = some th) : P s th.state := by
  revert t th
  refine h.invariant (I := fun s => ∀ {t th}, s.threads t = some th → P s th.state)
    (fun hth => by cases hth) fun s e s' hrun hP hok hstep t th hth => ?_
  rcases (Server.step_of_eq hstep).thread hth with ⟨req, -, -, rfl⟩ | ⟨th₀, hth₀, hstate, -⟩ |
    ⟨l, c, k, r, hth₀, hanswers, rfl⟩
  · exact hnew s' req
  · rw [hstate]
    exact hkept s e s' _ hrun hok hstep (hP hth₀)
  · have hmay := ((obeys_of_runs hrun).guard hth₀).2
    exact hmoved s e s' t l c k r hrun hok hstep hth₀ hmay hanswers (hP hth₀)
      (hkept s e s' l hrun hok hstep (hP hth₀))

/-- The same, of what does not depend on the state. -/
lemma visit_of_runs {G : Visit → Prop} (h : AuthState.Runs env ok AuthState.initial s)
    (hnew : ∀ req, G { req })
    (hafter : ∀ s l c r, l.May env c → AuthReply env c r → G l → G (l.after s c r))
    {th : AuthThread} (hth : s.threads t = some th) : G th.state :=
  forall_visits_of_runs (P := fun _ => G) h (fun _ => hnew) (fun _ _ _ _ _ _ _ hG => hG)
    (fun s _ _ _ l c _ r _ _ _ _ hmay hanswers hG _ =>
      hafter s.store l c r hmay (reply_of_answers hanswers) hG) hth

/-! ## What a request has come across, it remembers -/

/-- `l'` is what `l` has become. -/
structure Visit.Le (l l' : Visit) : Prop where
  req : l'.req = l.req
  found : ∀ user, l.found = some user → l'.found = some user
  created : ∀ user, l.created = some user → l'.created = some user
  code : ∀ code, l.code = some code → l'.code = some code
  storedAt : ∀ time, l.storedAt = some time → l'.storedAt = some time
  hash : ∀ hash, l.hash = some hash → l'.hash = some hash
  attempts : ∀ attempts, l.attempts = some attempts → l'.attempts = some attempts
  reset : l.reset = true → l'.reset = true
  compared : l.compared = true → l'.compared = true
  counted : l.counted = true → l'.counted = true
  verified : l.verified = true → l'.verified = true
  dropped : l.dropped = true → l'.dropped = true

namespace Visit

variable {l' l'' : Visit} {a id : UserId} {b : Bool}

@[refl] lemma Le.refl (l : Visit) : l.Le l := by
  constructor <;> simp

lemma Le.trans (h : l.Le l') (h' : l'.Le l'') : l.Le l'' where
  req := h'.req.trans h.req
  found user hu := h'.found user (h.found user hu)
  created user hu := h'.created user (h.created user hu)
  code code hc := h'.code code (h.code code hc)
  storedAt time ht := h'.storedAt time (h.storedAt time ht)
  hash hash hh := h'.hash hash (h.hash hash hh)
  attempts n hn := h'.attempts n (h.attempts n hn)
  reset hr := h'.reset (h.reset hr)
  compared hc := h'.compared (h.compared hc)
  counted hc := h'.counted (h.counted hc)
  verified hv := h'.verified (h.verified hv)
  dropped hd := h'.dropped (h.dropped hd)

lemma le_after (h : l.May env c) (s : AuthStore) (r : Except Exn c.Ret) :
    l.Le (l.after s c r) := by
  cases r with
  | error e => cases c <;> constructor <;> simp [after]
  | ok a => cases c <;> constructor <;> simp_all [after, May]

lemma Le.account (hle : l.Le l') (h : l.account = some a) : l'.account = some a := by
  unfold Visit.account at h ⊢
  rw [hle.req]
  cases hreq : l.req with
  | verifyOtp email otp =>
    simp only [hreq, Option.map_eq_some_iff] at h ⊢
    obtain ⟨user, hfound, hid⟩ := h
    exact ⟨user, hle.found user hfound, hid⟩
  | _ => simp [hreq] at h

lemma Le.verdict (hle : l.Le l') (h : l.verdict env = some b) : l'.verdict env = some b := by
  unfold Visit.verdict at h ⊢
  rw [hle.req]
  cases hreq : l.req with
  | verifyOtp email otp =>
    simp only [hreq, Option.map_eq_some_iff] at h ⊢
    obtain ⟨hash, hhash, hcompare⟩ := h
    exact ⟨hash, hle.hash hash hhash, hcompare⟩
  | _ => simp [hreq] at h

lemma hash_of_admitted {hash : String} (h : l.admitted = some hash) : l.hash = some hash := by
  obtain ⟨attempts, -, hadmits⟩ := Option.bind_eq_some_iff.mp h
  exact AuthService.hash_of_admits hadmits

lemma Le.admitted (hle : l.Le l') {hash : String} (h : l.admitted = some hash) :
    l'.admitted = some hash := by
  have hhash := hash_of_admitted h
  obtain ⟨attempts, hattempts, hadmits⟩ := Option.bind_eq_some_iff.mp h
  refine Option.bind_eq_some_iff.mpr ⟨attempts, hle.attempts attempts hattempts, ?_⟩
  rw [hle.hash hash hhash]
  rw [hhash] at hadmits
  exact hadmits

/-- A call that has passed the check has passed it for good. -/
lemma Admitted.mono (hle : l.Le l') (h : l.Admitted env a b) : l'.Admitted env a b := by
  obtain ⟨haccount, hverdict, hadmitted⟩ := h
  obtain ⟨hash, hhash⟩ := Option.isSome_iff_exists.mp hadmitted
  exact ⟨hle.account haccount, hle.verdict hverdict, by rw [hle.admitted hhash]; rfl⟩

/-- It is the reading of the counter that a call passes with. -/
lemma admitted_of_after (hmay : l.May env c) {s : AuthStore} {r : Except Exn c.Ret}
    (h : (l.after s c r).Admitted env a b) : l.Admitted env a b ∨ c = .getAttempts a := by
  have hunread (hattempts : l.attempts = none) : ∀ l' : Visit, l'.attempts = l.attempts →
      ¬ l'.Admitted env a b := by
    intro l' heq hl'
    have := hl'.2.2
    rw [admitted, heq, hattempts] at this
    cases this
  cases r with
  | error e => cases c <;> exact .inl h
  | ok answer =>
    cases c with
    | findByEmail email => exact absurd h (hunread hmay.2.1 _ rfl)
    | getOtp id => exact absurd h (hunread hmay.2.1 _ rfl)
    | getAttempts id =>
      obtain ⟨-, -, -, -, haccount⟩ := hmay
      obtain rfl := Option.some.inj (haccount.symm.trans h.1)
      exact .inr rfl
    | _ => exact .inl h

lemma after_counted (h : ∀ id, c ≠ .incrAttempts id) (s : AuthStore) (r : Except Exn c.Ret) :
    (l.after s c r).counted = l.counted := by
  cases c with
  | incrAttempts id => exact absurd rfl (h id)
  | _ => cases r <;> rfl

end Visit

/-- What a request remembers of the past, along a run. -/
lemma exists_visit_of_runs {s₀ : AuthState} (h₀ : AuthState.Runs env ok AuthState.initial s₀)
    (h : AuthState.Runs env ok s₀ s) {th : AuthThread} (hth : s₀.threads t = some th) :
    ∃ th', s.threads t = some th' ∧ th.state.Le th'.state := by
  refine Server.exists_thread_of_runs (B := Visit.Le) Visit.Le.refl (fun _ _ _ => Visit.Le.trans)
    (fun s t l c k r e hrun _ hth hanswers => ?_) (fresh_of_runs h₀) h hth
  exact Visit.le_after ((obeys_of_runs (h₀.trans hrun)).guard hth).2 _ _

end FxExchange
