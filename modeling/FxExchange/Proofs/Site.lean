import FxExchange.Proofs.Access
import FxExchange.Proofs.Endpoints
import FxExchange.Proofs.Linearization

/-
# The site

Money moves for a user only after a sign-in of that user: somebody had the password that the
address was registered with, as far as `bcrypt` reads it, and the code that was mailed there.
What the services would find wrong with the arguments of an operation is found before they are
called.  Keys that differ in the white space around them are the same key.
-/

namespace FxExchange

open Transition

variable {env : HttpEnv} {cfg : Config} {ok : Site → SiteEvent → Prop} {s s' : Site}
  {r : HttpRequest} {u : UserId} {t : Tid}

/-! ## Steps -/

namespace Site

/-- The ways in which the site can move. -/
inductive Step (env : HttpEnv) (cfg : Config) (s : Site) : SiteEvent → Site → Prop
  | refused {r : HttpRequest} {e : HttpException}
      (h : r.handle env s.auth.store.now = .error e) :
    Step env cfg s (.http r) (s.log r (.refused (AllExceptionsFilter.respond e)))
  | served {r : HttpRequest} {req : Request} {sys : Sys}
      (h : r.handle env s.auth.store.now = .ok (.wallet req))
      (hspawn : s.sys.step cfg (.spawn req) = some sys) :
    Step env cfg s (.http r) { s.log r (.thread s.sys.seq) with sys }
  | rates {r : HttpRequest} (h : r.handle env s.auth.store.now = .ok .rates) :
    Step env cfg s (.http r) (s.log r .rates)
  | history {r : HttpRequest} {u : UserId} {q : TransactionsQuery}
      (h : r.handle env s.auth.store.now = .ok (.history u q)) :
    Step env cfg s (.http r) (s.log r (.history u q))
  | auth {e : AuthEvent} {auth : AuthState}
      (hauth : (authServer env.toAuthEnv).step s.auth e = some auth) :
    Step env cfg s (.auth e) { s with auth }
  | run {t : Tid} {choice : Choice} {sys : Sys}
      (hsys : s.sys.step cfg (.run t choice) = some sys) :
    Step env cfg s (.run t choice) { s with sys }
  | crash {t : Tid} {sys : Sys} (hsys : s.sys.step cfg (.crash t) = some sys) :
    Step env cfg s (.crash t) { s with sys }
  | tick {ms : ℕ} {auth : AuthState} {sys : Sys}
      (hauth : (authServer env.toAuthEnv).step s.auth (.tick ms) = some auth)
      (hsys : s.sys.step cfg (.tick ms) = some sys) :
    Step env cfg s (.tick ms) { s with auth, sys }

lemma step_of_eq {e : SiteEvent} (h : s.step env cfg e = some s') : Step env cfg s e s' := by
  cases e with
  | http r =>
    simp only [step] at h
    split at h
    · rename_i hhandle
      obtain rfl := Option.some.inj h
      exact .refused hhandle
    · rename_i hhandle
      obtain ⟨sys, hspawn, rfl⟩ := Option.map_eq_some_iff.mp h
      exact .served hhandle hspawn
    · rename_i hhandle
      obtain rfl := Option.some.inj h
      exact .rates hhandle
    · rename_i hhandle
      obtain rfl := Option.some.inj h
      exact .history hhandle
  | auth e =>
    cases e with
    | tick ms => cases h
    | _ =>
      simp only [step] at h
      obtain ⟨auth, hauth, rfl⟩ := Option.map_eq_some_iff.mp h
      exact .auth hauth
  | run t choice =>
    obtain ⟨sys, hsys, rfl⟩ := Option.map_eq_some_iff.mp h
    exact .run hsys
  | crash t =>
    obtain ⟨sys, hsys, rfl⟩ := Option.map_eq_some_iff.mp h
    exact .crash hsys
  | tick ms =>
    simp only [step] at h
    obtain ⟨auth, hauth, h⟩ := Option.bind_eq_some_iff.mp h
    obtain ⟨sys, hsys, rfl⟩ := Option.map_eq_some_iff.mp h
    exact .tick hauth hsys

/-- A step of the site is at most one step of each of its parts. -/
lemma Step.parts {e : SiteEvent} (h : Step env cfg s e s') :
    AuthState.Runs env.toAuthEnv anyStep s.auth s'.auth ∧
      FxExchange.Runs cfg anyStep s.sys s'.sys := by
  cases h with
  | refused h => exact ⟨.refl, .refl⟩
  | served h hspawn => exact ⟨.refl, Runs.refl.tail trivial hspawn⟩
  | rates h => exact ⟨.refl, .refl⟩
  | history h => exact ⟨.refl, .refl⟩
  | auth hauth => exact ⟨Runs.refl.tail trivial hauth, .refl⟩
  | run hsys => exact ⟨.refl, Runs.refl.tail trivial hsys⟩
  | crash hsys => exact ⟨.refl, Runs.refl.tail trivial hsys⟩
  | tick hauth hsys => exact ⟨Runs.refl.tail trivial hauth, Runs.refl.tail trivial hsys⟩

/-- A run of the site is one of each of its parts. -/
lemma parts_of_runs (h : Site.Runs env cfg ok s s') :
    AuthState.Runs env.toAuthEnv anyStep s.auth s'.auth ∧
      FxExchange.Runs cfg anyStep s.sys s'.sys := by
  induction h with
  | refl => exact ⟨.refl, .refl⟩
  | tail _ _ hstep ih =>
    obtain ⟨hauth, hsys⟩ := (step_of_eq hstep).parts
    exact ⟨ih.1.trans hauth, ih.2.trans hsys⟩

end Site

/-! ## Where calls come from -/

/-- A step makes no thread but that of a new request. -/
lemma Sys.exists_thread_of_step {s s' : Sys} {e : Event} {th : Thread}
    (h : s.step cfg e = some s') (hth : s'.threads t = some th) :
    (∃ req, e = .spawn req ∧ t = s.seq) ∨ ∃ th₀, s.threads t = some th₀ := by
  cases Sys.step_of_eq h with
  | spawn req =>
    rcases Sys.of_setThread hth with ⟨rfl, -⟩ | ⟨-, hold⟩
    · exact .inl ⟨req, rfl, rfl⟩
    · exact .inr ⟨th, hold⟩
  | @run t' choice l c k s₁ r hth₁ hrespond =>
    rcases Sys.of_setThread hth with ⟨rfl, -⟩ | ⟨-, hold⟩
    · exact .inr ⟨_, hth₁⟩
    · rw [(Sys.served_of_eq hrespond).frame.1] at hold
      exact .inr ⟨th, hold⟩
  | @crash t' l c k hth₁ =>
    rcases Sys.of_setThread hth with ⟨rfl, -⟩ | ⟨-, hold⟩
    · exact .inr ⟨_, hth₁⟩
    · exact .inr ⟨th, hold⟩
  | tick ms => exact .inr ⟨th, hth⟩

/-- The user for whom a service is called, if it is for one. -/
def ServiceCall.userId : ServiceCall → Option UserId
  | .wallet req => some req.userId
  | .rates => none
  | .history userId _ => some userId

lemma ApiCall.GoesTo.userId {call : ApiCall} {c : ServiceCall} (h : call.GoesTo env u c) :
    ∀ v ∈ c.userId, v = u := by
  rintro v hv
  cases h <;> cases hv <;> rfl

/-- All calls and readings come from the traffic, and what is demanded of their tokens is so. -/
structure Accounted (env : HttpEnv) (P : AuthState → String → UserId → Prop) (s : Site) :
    Prop where
  threads : ∀ t th, s.sys.threads t = some th → ∃ r, (r, Outcome.thread t) ∈ s.traffic
  served : ∀ r t, (r, .thread t) ∈ s.traffic → ∃ th token, s.sys.threads t = some th ∧
    r.token = some token ∧ P s.auth token th.state.req.userId ∧
    r.call.GoesTo env th.state.req.userId (.wallet th.state.req)
  histories : ∀ r u q, (r, .history u q) ∈ s.traffic → ∃ token, r.token = some token ∧
    P s.auth token u ∧ r.call.GoesTo env u (.history u q)

namespace Accounted

variable {P : AuthState → String → UserId → Prop}

/-- What is demanded stays so, and is so of each token that is accepted. -/
structure Demand (env : HttpEnv) (cfg : Config) (ok : Site → SiteEvent → Prop)
    (P : AuthState → String → UserId → Prop) : Prop where
  mono : ∀ {a a' token u}, AuthState.Runs env.toAuthEnv anyStep a a' → P a token u → P a' token u
  accepted : ∀ {s : Site} {r : HttpRequest} {token user}, s.auth.Reachable env.toAuthEnv →
    ok s (.http r) → r.token = some token → env.verify s.auth.store.now token = some user →
    P s.auth token user.sub

/-- After a step that adds to the traffic, if anything, what is accounted for. -/
lemma after (h : Accounted env P s) (hdemand : Demand env cfg ok P) (hreach : Reachable cfg s.sys)
    (new : List (HttpRequest × Outcome))
    (hauth : AuthState.Runs env.toAuthEnv anyStep s.auth s'.auth)
    (hsys : FxExchange.Runs cfg anyStep s.sys s'.sys) (htraffic : s'.traffic = s.traffic ++ new)
    (hthreads : ∀ t th, s'.sys.threads t = some th →
      (∃ th₀, s.sys.threads t = some th₀) ∨ ∃ r, (r, Outcome.thread t) ∈ new)
    (hserved : ∀ r t, (r, .thread t) ∈ new → ∃ th token, s'.sys.threads t = some th ∧
      r.token = some token ∧ P s'.auth token th.state.req.userId ∧
      r.call.GoesTo env th.state.req.userId (.wallet th.state.req))
    (hhistories : ∀ r u q, (r, .history u q) ∈ new → ∃ token, r.token = some token ∧
      P s'.auth token u ∧ r.call.GoesTo env u (.history u q)) : Accounted env P s' := by
  constructor
  · intro t th hth
    rw [htraffic]
    rcases hthreads t th hth with ⟨th₀, hth₀⟩ | ⟨r, hr⟩
    · obtain ⟨r, hr⟩ := h.threads t th₀ hth₀
      exact ⟨r, List.mem_append_left _ hr⟩
    · exact ⟨r, List.mem_append_right _ hr⟩
  · intro r t hmem
    rw [htraffic] at hmem
    rcases List.mem_append.mp hmem with hold | hnew
    · obtain ⟨th, token, hth, htoken, hP, hgoes⟩ := h.served r t hold
      obtain ⟨th', hth', hreq⟩ := req_of_runs hreach hsys hth
      exact ⟨th', token, hth', htoken, hreq ▸ hdemand.mono hauth hP, hreq ▸ hgoes⟩
    · exact hserved r t hnew
  · intro r u q hmem
    rw [htraffic] at hmem
    rcases List.mem_append.mp hmem with hold | hnew
    · obtain ⟨token, htoken, hP, hgoes⟩ := h.histories r u q hold
      exact ⟨token, htoken, hdemand.mono hauth hP, hgoes⟩
    · exact hhistories r u q hnew

/-- After a step that adds nothing to the traffic. -/
lemma quiet (h : Accounted env P s) (hdemand : Demand env cfg ok P) (hreach : Reachable cfg s.sys)
    (hauth : AuthState.Runs env.toAuthEnv anyStep s.auth s'.auth)
    (hsys : FxExchange.Runs cfg anyStep s.sys s'.sys) (htraffic : s'.traffic = s.traffic)
    (hthreads : ∀ t th, s'.sys.threads t = some th → ∃ th₀, s.sys.threads t = some th₀) :
    Accounted env P s' :=
  h.after hdemand hreach [] hauth hsys (htraffic.trans (List.append_nil _).symm)
    (fun t th hth => .inl (hthreads t th hth)) (fun _ _ hr => by cases hr)
    (fun _ _ _ hr => by cases hr)

lemma step (h : Accounted env P s) (hdemand : Demand env cfg ok P)
    (hauth : s.auth.Reachable env.toAuthEnv) (hreach : Reachable cfg s.sys) {e : SiteEvent}
    (hok : ok s e) (hstep : Site.Step env cfg s e s') : Accounted env P s' := by
  obtain ⟨hauth', hsys'⟩ := hstep.parts
  have hsame {sys : Sys} {e : Event} (hsys : s.sys.step cfg e = some sys)
      (he : ∀ req, e ≠ .spawn req) (t : Tid) (th : Thread) (hth : sys.threads t = some th) :
      ∃ th₀, s.sys.threads t = some th₀ := by
    rcases Sys.exists_thread_of_step hsys hth with ⟨req, rfl, -⟩ | hold
    · exact absurd rfl (he req)
    · exact hold
  cases hstep with
  | refused hhandle =>
    refine h.after hdemand hreach [(_, _)] hauth' hsys' rfl (fun t th hth => .inl ⟨th, hth⟩) ?_ ?_
    · intro r t hmem
      cases List.mem_singleton.mp hmem
    · intro r u q hmem
      cases List.mem_singleton.mp hmem
  | @served r req sys hhandle hspawn =>
    obtain ⟨token, user, htoken, hverify, hgoes⟩ := HttpRequest.goesTo_of_handle hhandle
    refine h.after hdemand hreach [(r, .thread s.sys.seq)] hauth' hsys' rfl ?_ ?_ ?_
    · intro t th hth
      rcases Sys.exists_thread_of_step hspawn hth with ⟨-, -, rfl⟩ | hold
      · exact .inr ⟨r, List.mem_singleton_self _⟩
      · exact .inl hold
    · intro r' t hmem
      obtain ⟨rfl, ht⟩ := Prod.mk.inj (List.mem_singleton.mp hmem)
      obtain rfl := Outcome.thread.inj ht
      obtain rfl := Option.some.inj hspawn
      refine ⟨_, token, Sys.setThread_self _, htoken, ?_, ?_⟩
      · have huser : req.userId = user.sub := hgoes.userId _ rfl
        show P s.auth token req.userId
        rw [huser]
        exact hdemand.accepted hauth hok htoken hverify
      · have huser : req.userId = user.sub := hgoes.userId _ rfl
        show r'.call.GoesTo env req.userId (.wallet req)
        rw [huser]
        exact hgoes
    · intro r' u q hmem
      cases (Prod.mk.inj (List.mem_singleton.mp hmem)).2
  | rates hhandle =>
    refine h.after hdemand hreach [(_, _)] hauth' hsys' rfl (fun t th hth => .inl ⟨th, hth⟩) ?_ ?_
    · intro r t hmem
      cases List.mem_singleton.mp hmem
    · intro r u q hmem
      cases List.mem_singleton.mp hmem
  | @history r u q hhandle =>
    obtain ⟨token, user, htoken, hverify, hgoes⟩ := HttpRequest.goesTo_of_handle hhandle
    obtain rfl : u = user.sub := hgoes.userId _ rfl
    have hP : P s.auth token user.sub := hdemand.accepted hauth hok htoken hverify
    refine h.after hdemand hreach [(r, .history user.sub q)] hauth' hsys' rfl
      (fun t th hth => .inl ⟨th, hth⟩) ?_ ?_
    · intro r' t hmem
      cases (Prod.mk.inj (List.mem_singleton.mp hmem)).2
    · intro r' u q' hmem
      obtain ⟨rfl, hq⟩ := Prod.mk.inj (List.mem_singleton.mp hmem)
      obtain ⟨rfl, rfl⟩ := Outcome.history.inj hq
      exact ⟨token, htoken, hP, hgoes⟩
  | auth hauth =>
    exact h.quiet hdemand hreach hauth' hsys' rfl fun t th hth => ⟨th, hth⟩
  | run hsys => exact h.quiet hdemand hreach hauth' hsys' rfl (hsame hsys (by simp))
  | crash hsys => exact h.quiet hdemand hreach hauth' hsys' rfl (hsame hsys (by simp))
  | tick hauth hsys => exact h.quiet hdemand hreach hauth' hsys' rfl (hsame hsys (by simp))

end Accounted

/-- Everything is accounted for, along every run. -/
lemma accounted_of_runs {P : AuthState → String → UserId → Prop}
    (hdemand : Accounted.Demand env cfg ok P) (h : Site.Runs env cfg ok .initial s) :
    Accounted env P s := by
  refine h.invariant (I := Accounted env P) ⟨?_, ?_, ?_⟩ fun s e s' hrun haccounted hok hstep => ?_
  · intro t th hth
    cases hth
  · intro r t hmem
    cases hmem
  · intro r u q hmem
    cases hmem
  · obtain ⟨hauth, hsys⟩ := Site.parts_of_runs hrun
    exact haccounted.step hdemand hauth hsys hok (Site.step_of_eq hstep)

/-! ## Whose calls they are -/

/-- The request is a sign-in. -/
def AuthRequest.isSignin : AuthRequest → Bool
  | .signin _ _ => true
  | _ => false

/-- The token has been returned to a sign-in. -/
def AuthState.Returned (a : AuthState) (token : String) : Prop :=
  ∃ t < a.seq, (a.threads t).any (fun th => th.state.req.isSignin &&
    th.answer = some (.ok (.accessToken token))) = true

/-- Nobody else can sign: a token that is brought and accepted has been returned to a sign-in. -/
def Unforged (env : HttpEnv) (s : Site) : SiteEvent → Prop
  | .http r => ∀ token ∈ r.token, (env.verify s.auth.store.now token).isSome = true →
    s.auth.Returned token
  | _ => True

/-- The token is for this user, and has been returned to a sign-in; when this read its user, the
address had been registered with the password that was given there, as far as `bcrypt` reads it,
and verified with the code that was mailed to it. -/
def Vouched (env : HttpEnv) (a : AuthState) (token : String) (u : UserId) : Prop :=
  (∃ now user, env.verify now token = some user ∧ user.sub = u) ∧
  ∃ σ t th e p, AuthState.Runs env.toAuthEnv anyStep σ a ∧ σ.threads t = some th ∧
    th.state.req = .signin e p ∧ th.answer = some (.ok (.accessToken token)) ∧
    ∃ σ' user code reg ver, σ'.Reachable env.toAuthEnv ∧
      AuthState.ReadBy env.toAuthEnv anyStep t e σ' σ ∧
      Entitled env.toAuthEnv e p code user reg ver σ' ∧ user.id = u

/-- The subject of a token is the user that it was signed for. -/
lemma HttpEnv.sub_eq {t now : ℕ} {sub : UserId} {email : String} {user : Payload}
    (h : env.verify now (env.sign t sub email) = some user) : user.sub = sub := by
  rw [env.verify_sign] at h
  split at h
  · obtain rfl := Option.some.inj h
    rfl
  · cases h

/-- A token that is accepted and has been returned to a sign-in is for the user who was read
there. -/
lemma vouched_of_returned {a : AuthState} (h : a.Reachable env.toAuthEnv) {token : String}
    (hreturned : a.Returned token) {now : ℕ} {user : Payload}
    (hverify : env.verify now token = some user) : Vouched env a token user.sub := by
  obtain ⟨t, -, hany⟩ := hreturned
  obtain ⟨th, hth, hanswered⟩ := (Option.any_eq_true ..).mp hany
  rw [Bool.and_eq_true, decide_eq_true_eq] at hanswered
  obtain ⟨hsignin, hanswer⟩ := hanswered
  obtain ⟨e, p, hreq⟩ : ∃ e p, th.state.req = .signin e p := by
    cases hreq : th.state.req with
    | signin e p => exact ⟨e, p, rfl⟩
    | _ =>
      rw [hreq] at hsignin
      cases hsignin
  obtain ⟨σ', hσ', hread, found, hfound, hcompare, hverified, at_, rfl⟩ :=
    exists_read_of_runs h hth hreq hanswer
  obtain ⟨code, reg, ver, hentitled⟩ := exists_entitled hσ' hfound hverified hcompare
  exact ⟨⟨now, user, hverify, rfl⟩, a, t, th, e, p, .refl, hth, hreq, hanswer, σ', found, code,
    reg, ver, hσ', hread, hentitled, (env.sub_eq hverify).symm⟩

lemma demand_vouched : Accounted.Demand env cfg (Unforged env) (Vouched env) where
  mono {_ _ _ _} hrun := by
    rintro ⟨hverify, σ, t, th, e, p, hσ, hfacts⟩
    exact ⟨hverify, σ, t, th, e, p, hσ.trans hrun, hfacts⟩
  accepted {_ _ token _} hreach hok htoken hverify :=
    vouched_of_returned hreach (hok token htoken (by rw [hverify]; rfl)) hverify

/-- Whatever is called, booked or read over the API is for the user of a token that has been
returned to a sign-in, with the password and the mailed code of this user. -/
theorem acts_for_signed_in (h : Site.Runs env cfg (Unforged env) .initial s) :
    (∀ t th, s.sys.threads t = some th → ∃ r token, (r, .thread t) ∈ s.traffic ∧
      r.token = some token ∧ Vouched env s.auth token th.state.req.userId ∧
      r.call.GoesTo env th.state.req.userId (.wallet th.state.req)) ∧
    (∀ j ∈ s.sys.db.journals, ∃ r token t th tx, (r, .thread t) ∈ s.traffic ∧
      r.token = some token ∧ Vouched env s.auth token j.userId ∧ s.sys.threads t = some th ∧
      th.state.req.key = some j.idempotencyKey ∧ (t, tx) ∈ s.sys.commits ∧ tx.journals = [j]) ∧
    ∀ r u q, (r, .history u q) ∈ s.traffic → ∃ token, r.token = some token ∧
      Vouched env s.auth token u := by
  have haccounted := accounted_of_runs demand_vouched h
  obtain ⟨-, hsys⟩ := Site.parts_of_runs h
  have hcalls (t : Tid) (th : Thread) (hth : s.sys.threads t = some th) :
      ∃ r token, (r, .thread t) ∈ s.traffic ∧ r.token = some token ∧
        Vouched env s.auth token th.state.req.userId ∧
        r.call.GoesTo env th.state.req.userId (.wallet th.state.req) := by
    obtain ⟨r, hr⟩ := haccounted.threads t th hth
    obtain ⟨th', token, hth', htoken, hvouched, hgoes⟩ := haccounted.served r t hr
    obtain rfl := Option.some.inj (hth.symm.trans hth')
    exact ⟨r, token, hr, htoken, hvouched, hgoes⟩
  refine ⟨hcalls, fun j hj => ?_, fun r u q hr => ?_⟩
  · obtain ⟨t, th, tx, hth, hcommit, -, hbooks⟩ := (history_of_reachable hsys).books_of_mem hj
    obtain ⟨r, token, hr, htoken, hvouched, -⟩ := hcalls t th hth
    exact ⟨r, token, t, th, tx, hr, htoken, hbooks.userId ▸ hvouched, hth, hbooks.key, hcommit,
      hbooks.journals⟩
  · obtain ⟨token, htoken, hvouched, -⟩ := haccounted.histories r u q hr
    exact ⟨token, htoken, hvouched⟩

/-! ### A first user -/

/-- Tokens that can be read: the time and the user in unary, and the address. -/
def plainSign (t : ℕ) (sub : UserId) (email : String) : String :=
  String.ofList (List.replicate t '0' ++ '.' :: (List.replicate sub '0' ++ '.' :: email.toList))

/-- How many zeros a text starts with. -/
def zeros (cs : List Char) : ℕ := (cs.takeWhile fun c => c = '0').length

lemma zeros_replicate (n : ℕ) (cs : List Char) :
    zeros (List.replicate n '0' ++ '.' :: cs) = n := by
  induction n with
  | zero => rfl
  | succ n ih =>
    rw [List.replicate_succ, List.cons_append, zeros, List.takeWhile_cons_of_pos (by simp),
      List.length_cons]
    exact congrArg (· + 1) ih

/-- Reads a token of `plainSign` back, within its hour. -/
def plainVerify (now : ℕ) (token : String) : Option Payload :=
  let t := zeros token.toList
  let rest := token.toList.drop (t + 1)
  let sub := zeros rest
  let email := String.ofList (rest.drop (sub + 1))
  if token = plainSign t sub email ∧ now / 1000 < t / 1000 + 3600 then some { sub, email } else none

lemma plainVerify_plainSign (t now : ℕ) (sub : UserId) (email : String) :
    plainVerify now (plainSign t sub email) =
      if now / 1000 < t / 1000 + 3600 then some { sub, email } else none := by
  have hrest : (plainSign t sub email).toList.drop (t + 1) =
      List.replicate sub '0' ++ '.' :: email.toList := by
    rw [plainSign, String.toList_ofList, List.drop_append, List.length_replicate,
      Nat.add_sub_cancel_left, List.drop_of_length_le (by simp)]
    rfl
  have hemail : (List.replicate sub '0' ++ '.' :: email.toList).drop (sub + 1) = email.toList := by
    rw [List.drop_append, List.length_replicate, Nat.add_sub_cancel_left,
      List.drop_of_length_le (by simp)]
    rfl
  have ht : zeros (plainSign t sub email).toList = t := by
    rw [plainSign, String.toList_ofList, zeros_replicate]
  simp only [plainVerify, ht, hrest, zeros_replicate, hemail, String.ofList_toList, true_and]

/-- Everything that the API is given, so that it can be read. -/
def plainHttp : HttpEnv where
  toAuthEnv := { plainAuth with sign := plainSign }
  verify := plainVerify
  verify_sign := plainVerify_plainSign
  isUppercase value := toUpperCase value = value
  isUppercase_iff _ _ := decide_eq_true_iff
  isUUID value := value.length = 36
  quoteId value := value.length

instance (env : HttpEnv) (s : Site) : DecidablePred (Unforged env s)
  | .http r => inferInstanceAs (Decidable (∀ token ∈ r.token, (_ → ∃ t < _, _)))
  | .auth _ => isTrue trivial
  | .run _ _ => isTrue trivial
  | .crash _ => isTrue trivial
  | .tick _ => isTrue trivial

/-- A funding by the first user, who has signed in. -/
def fundingRequest : HttpRequest where
  authorization := some ("Bearer " ++ plainSign 0 1 "user@example.com")
  call := .fundWallet (some " key ") { currency := "USD", amount := .finite 500 }

/-- A user signs in and funds the wallet. -/
def fundedSite : List SiteEvent :=
  signedIn.map .auth ++ .http fundingRequest :: List.replicate 18 (.run 1 .ok)

theorem acts_for_signed_in_funded : ∃ s j r token t, Site.Runs plainHttp {} (Unforged plainHttp)
    .initial s ∧ j ∈ s.sys.db.journals ∧ (r, .thread t) ∈ s.traffic ∧ r.token = some token ∧
    Vouched plainHttp s.auth token j.userId := by
  have hplay : (runAll (Site.step plainHttp {}) (Unforged plainHttp) .initial fundedSite).any
      (fun s => s.sys.db.journals ≠ []) = true := by decide +kernel
  obtain ⟨s, hrun, hs⟩ := exists_of_runAll hplay
  obtain ⟨j, hj⟩ := List.exists_mem_of_ne_nil _ (of_decide_eq_true hs)
  obtain ⟨r, token, t, th, tx, hr, htoken, hvouched, -⟩ := (acts_for_signed_in hrun).2.1 j hj
  exact ⟨s, j, r, token, t, hrun, hj, hr, htoken, hvouched⟩

/-! ## What the client is told -/

/-- The service finds nothing wrong with the arguments of what gets to it. -/
lemma ApiCall.GoesTo.check {call : ApiCall} {req : Request} (h : call.GoesTo env u (.wallet req)) :
    req.check = pure () := by
  have hsupported (c : Currency) : requireSupported c.code = pure c := by
    unfold requireSupported
    rw [supportedCurrency_code]
  have hpositive {n : ℤ} (hmin : 1 ≤ n) :
      requirePositiveInteger (.integer n) = pure n := by
    unfold requirePositiveInteger
    dsimp only
    rw [if_neg (by omega)]
  cases h with
  | getWallet => rfl
  | @fundWallet header k c n hkey hmin hmax =>
    show (requireSupported c.code >>= _) = _
    rw [hsupported, hpositive hmin]
    rfl
  | @convert header k f t n hkey hne hmin hmax =>
    unfold Request.check
    dsimp only
    rw [hsupported, hsupported, hpositive hmin, toUpperCase_code, toUpperCase_code,
      Prog.throwIf, if_neg (code_injective.ne hne)]
    rfl
  | trade hid => rfl
  | createQuote hfrom hto hmin => rfl

/-- What the client of an operation can be told when it fails. -/
inductive Told (req : Request) : ErrorBody → Prop
  | insufficient (c : Currency) : Told req ⟨400, "Insufficient " ++ c.code ++ " balance"⟩
  | exhausted (c : Currency) : Told req ⟨400, "House liquidity exhausted for " ++ c.code⟩
  | small (h : req.isConversion = true) : Told req ⟨400, "Amount too small to convert."⟩
  | gone {u : UserId} {q : QuoteId} {k : String} (h : req = .executeTrade u q k) :
    Told req ⟨400, "Quote expired, already used, or does not belong to this user"⟩
  | failed {message : String} (h : req.failure = .badRequest message) : Told req ⟨400, message⟩
  | busy : Told req ⟨500, "System is busy, please try again later"⟩
  | internal : Told req ⟨500, "Internal server error"⟩

/-- A message that is not empty is passed on as it is. -/
lemma AllExceptionsFilter.respond_badRequest {message : String} (h : message ≠ "") :
    respond (.exn (.badRequest message)) = ⟨400, message⟩ := by
  rw [respond, messageOf, if_neg h]

/-- A refusal with a cause, as the client sees it. -/
lemma told_of_cause {w : Evidence} {req : Request} {hand : Option Quote}
    {rates : Option VersionedRates} {x : Exn} (h : Cause w req hand rates x)
    (hcheck : req.check = pure ())
    (hcontext : ∀ u from_ to_ a k context, req = .convertFunds u from_ to_ a k context →
      context = .convert) : Told req (AllExceptionsFilter.respond (.exn x)) := by
  cases h with
  | @insufficient transfers c htransfers hseen =>
    rw [insufficientBalance, AllExceptionsFilter.respond_badRequest (by cases c <;> decide)]
    exact .insufficient c
  | @exhausted transfers c htransfers hseen =>
    rw [houseLiquidityExhausted, AllExceptionsFilter.respond_badRequest (by cases c <;> decide)]
    exact .exhausted c
  | invalid hthrow =>
    rw [hcheck] at hthrow
    cases hthrow
  | @unusable r c x hreq hrates hrate =>
    -- an error of the rates is no HTTP exception
    obtain ⟨message, rfl⟩ : ∃ message, x = .error message := by
      unfold rateOf at hrate
      split at hrate
      · exact ⟨_, (Prog.throw.inj hrate).symm⟩
      · split at hrate
        · exact ⟨_, (Prog.throw.inj hrate).symm⟩
        · cases hrate
    exact .internal
  | small hreq hf ht hrates hout hle =>
    obtain rfl := hcontext _ _ _ _ _ _ hreq
    exact .small (by rw [hreq]; rfl)
  | gone hreq hseen => exact .gone hreq
  | hindered hw hx =>
    rcases hx with htechnical | rfl | rfl
    · cases x with
      | unavailable => exact .internal
      | uniqueViolation => exact .internal
      | checkViolation => exact .internal
      | _ => cases htechnical
    · exact .busy
    · cases req with
      | fundWallet u c a k => exact .failed rfl
      | convertFunds u f t a k context => exact .failed rfl
      | _ => exact .failed rfl

/-- The service finds nothing wrong with the arguments of an operation that has come over the API,
and when it fails, its client is told one of a few things. -/
lemma told_of_runs (h : Site.Runs env cfg ok .initial s) {th : Thread}
    (hth : s.sys.threads t = some th) (hkey : th.state.req.key.isSome) {x : Exn}
    (hx : th.failure = some x) :
    th.state.req.check = pure () ∧ Told th.state.req (AllExceptionsFilter.respond (.exn x)) := by
  obtain ⟨-, hsys⟩ := Site.parts_of_runs h
  have haccounted : Accounted env (fun _ _ _ => True) s :=
    accounted_of_runs ⟨fun _ _ => trivial, fun _ _ _ _ => trivial⟩ h
  obtain ⟨r, hr⟩ := haccounted.threads t th hth
  obtain ⟨th', token, hth', -, -, hgoes⟩ := haccounted.served r t hr
  obtain rfl := Option.some.inj (hth.symm.trans hth')
  obtain ⟨s₀, s₁, es, rfl, hspan⟩ := exists_span hsys hth
  have hcause := hspan.cause (w := evidence cfg s₁ es s₀.seq) hkey hx
    (fun es₁ es₂ s₂ P hes hrun hP => ⟨es₁, es₂, s₂, hes, hrun, hP⟩)
    fun es₁ e es₂ s₂ s₃ hes hrun hstep hhindered =>
      ⟨es₁, e, es₂, s₂, s₃, hes, hrun, hstep, hhindered⟩
  refine ⟨hgoes.check, told_of_cause hcause hgoes.check fun u from_ to_ a k context hreq => ?_⟩
  rw [hreq] at hgoes
  generalize hcall : r.call = call at hgoes
  cases hgoes
  rfl

/-! ## Retries -/

/-- The key of a request, as the services get it. -/
def ApiCall.key : ApiCall → Option String
  | .fundWallet header _ => header.map trim
  | .convert header _ => header.map trim
  | .trade dto => some dto.idempotencyKey
  | _ => none

lemma ApiCall.GoesTo.key_eq {call : ApiCall} {req : Request}
    (h : call.GoesTo env u (.wallet req)) : req.key = call.key := by
  cases h with
  | fundWallet hkey hmin hmax => exact (parseIdempotencyKey_eq_ok_iff.mp hkey).1.symm
  | convert hkey hne hmin hmax => exact (parseIdempotencyKey_eq_ok_iff.mp hkey).1.symm
  | _ => rfl

/-- The token has been returned to a sign-in under the address. -/
def AuthState.SignedIn (a : AuthState) (e token : String) : Prop :=
  ∃ t th p, a.threads t = some th ∧ th.state.req = .signin e p ∧
    th.answer = some (.ok (.accessToken token))

/-- Tokens that were returned under one address have one subject. -/
lemma sub_eq_of_signedIn {a : AuthState} (h : a.Reachable env.toAuthEnv) {e token token' : String}
    (hsignin : a.SignedIn e token) (hsignin' : a.SignedIn e token') {now now' : ℕ}
    {user user' : Payload} (hverify : env.verify now token = some user)
    (hverify' : env.verify now' token' = some user') : user.sub = user'.sub := by
  obtain ⟨t, th, p, hth, hreq, hanswer⟩ := hsignin
  obtain ⟨t', th', p', hth', hreq', hanswer'⟩ := hsignin'
  obtain ⟨σ, -, hread, found, hfound, -, -, at_, rfl⟩ := exists_read_of_runs h hth hreq hanswer
  obtain ⟨σ', -, hread', found', hfound', -, -, at', rfl⟩ :=
    exists_read_of_runs h hth' hreq' hanswer'
  obtain ⟨hu, hemail⟩ := AuthStore.findUser_email hfound
  obtain ⟨hu', hemail'⟩ := AuthStore.findUser_email hfound'
  obtain ⟨kept, hkept, hid, hkeptEmail, -⟩ := keeps_of_runs hread.runs found hu
  rw [env.sub_eq hverify, env.sub_eq hverify', ← hid]
  exact id_eq_of_email h hu' hread'.runs hkept (hkeptEmail.trans (hemail.trans hemail'.symm))

/-- A token that has been accepted at some time is for its subject. -/
lemma demand_subject : Accounted.Demand env cfg ok fun _ token u =>
    ∃ now user, env.verify now token = some user ∧ user.sub = u where
  mono _ h := h
  accepted {s _ _ user} _ _ _ hverify := ⟨s.auth.store.now, user, hverify, rfl⟩

/-- Whoever tries again, perhaps after another sign-in under the same address, and with a key that
differs in the white space around it, gets the journal of before; there is only this one. -/
theorem retry_same_journal (h : Site.Runs env cfg anyStep .initial s)
    {e token token' : String} (hsignin : s.auth.SignedIn e token)
    (hsignin' : s.auth.SignedIn e token') {r r' : HttpRequest} {t t' : Tid}
    (hr : (r, .thread t) ∈ s.traffic) (hr' : (r', .thread t') ∈ s.traffic)
    (htoken : r.token = some token) (htoken' : r'.token = some token')
    (hkey : r.call.key = r'.call.key) {th th' : Thread} (hth : s.sys.threads t = some th)
    (hth' : s.sys.threads t' = some th') {x x' : OperationResponse}
    (hx : th.operation = some x) (hx' : th'.operation = some x') :
    x.journal = x'.journal ∧ ∀ j ∈ s.sys.db.journals, j.userId = th.state.req.userId →
      r.call.key = some j.idempotencyKey → j = x.journal := by
  have haccounted := accounted_of_runs demand_subject h
  obtain ⟨hauth, hsys⟩ := Site.parts_of_runs h
  obtain ⟨th₁, token₁, hth₁, htoken₁, ⟨now, user, hverify, huser⟩, hgoes⟩ :=
    haccounted.served r t hr
  obtain ⟨th₂, token₂, hth₂, htoken₂, ⟨now', user', hverify', huser'⟩, hgoes'⟩ :=
    haccounted.served r' t' hr'
  obtain rfl := Option.some.inj (hth.symm.trans hth₁)
  obtain rfl := Option.some.inj (hth'.symm.trans hth₂)
  obtain rfl := Option.some.inj (htoken.symm.trans htoken₁)
  obtain rfl := Option.some.inj (htoken'.symm.trans htoken₂)
  have hsame : th.state.req.userId = th'.state.req.userId := by
    rw [← huser, ← huser']
    exact sub_eq_of_signedIn hauth hsignin hsignin' hverify hverify'
  obtain ⟨hmem, hu, hk⟩ := journal_of_answer hsys hth (Thread.answer_of_operation hx)
  obtain ⟨hmem', hu', hk'⟩ := journal_of_answer hsys hth' (Thread.answer_of_operation hx')
  rw [hgoes.key_eq] at hk
  rw [hgoes'.key_eq] at hk'
  have hunique := List.inj_on_of_nodup_map (inv_of_reachable hsys).ledger.sheet.unique
  refine ⟨hunique hmem hmem' (Prod.ext ?_ ?_), fun j hj huj hkj => hunique hj hmem (Prod.ext ?_ ?_)⟩
  · exact hu.trans (hsame.trans hu'.symm)
  · exact Option.some.inj (hk.symm.trans (hkey.trans hk'))
  · exact huj.trans hu.symm
  · exact Option.some.inj (hkj.symm.trans hk)

/-- The first user signs in again, and sends the same funding with the bare key. -/
def retryRequest : HttpRequest where
  authorization := some ("Bearer " ++ plainSign 1 1 "user@example.com")
  call := .fundWallet (some "key") { currency := "USD", amount := .finite 500 }

/-- The user signs in again, with a clock that has moved, and repeats the funding. -/
def retriedSite : List SiteEvent :=
  fundedSite ++ .tick 1 :: (arrive 3 3 (.signin "user@example.com" "StrongPassword123!")).map .auth
    ++ [.http retryRequest, .run 20 .ok]

theorem retry_same_journal_signed_in_again : ∃ s th th' x x',
    Site.Runs plainHttp {} anyStep .initial s ∧ s.sys.threads 1 = some th ∧
    s.sys.threads 20 = some th' ∧ th.operation = some x ∧ th'.operation = some x' ∧
    x.journal = x'.journal := by
  let returned (s : Site) (t : ℕ) (token : String) : Bool := (s.auth.threads t).any fun th =>
    th.state.req = .signin "user@example.com" "StrongPassword123!" &&
      th.answer = some (.ok (.accessToken token))
  have hplay : (runAll (Site.step plainHttp {}) anyStep .initial retriedSite).any
      (fun s => (returned s 2 (plainSign 0 1 "user@example.com") &&
        returned s 3 (plainSign 1 1 "user@example.com")) &&
        (fundingRequest, .thread 1) ∈ s.traffic && (retryRequest, .thread 20) ∈ s.traffic &&
        (s.sys.threads 1).any (fun th => th.operation.isSome) &&
        (s.sys.threads 20).any (fun th => th.operation.isSome)) = true := by decide +kernel
  obtain ⟨s, hrun, hs⟩ := exists_of_runAll hplay
  simp only [Bool.and_eq_true, decide_eq_true_eq, Option.any_eq_true] at hs
  obtain ⟨⟨⟨⟨⟨h₁, h₂⟩, hr⟩, hr'⟩, th, hth, hsome⟩, th', hth', hsome'⟩ := hs
  have hsignin {t : ℕ} {token : String} (hreturned : returned s t token = true) :
      s.auth.SignedIn "user@example.com" token := by
    obtain ⟨tha, htha, hanswered⟩ := (Option.any_eq_true ..).mp hreturned
    rw [Bool.and_eq_true, decide_eq_true_eq, decide_eq_true_eq] at hanswered
    exact ⟨t, tha, _, htha, hanswered⟩
  obtain ⟨x, hx⟩ := Option.isSome_iff_exists.mp hsome
  obtain ⟨x', hx'⟩ := Option.isSome_iff_exists.mp hsome'
  have htoken : fundingRequest.token = some (plainSign 0 1 "user@example.com") := by
    decide +kernel
  have htoken' : retryRequest.token = some (plainSign 1 1 "user@example.com") := by
    decide +kernel
  have hkey : fundingRequest.call.key = retryRequest.call.key := by decide +kernel
  exact ⟨s, th, th', x, x', hrun, hth, hth', hx, hx', (retry_same_journal hrun (hsignin h₁)
    (hsignin h₂) hr hr' htoken htoken' hkey hth hth' hx hx').1⟩

end FxExchange
