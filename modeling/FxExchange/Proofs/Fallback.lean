import FxExchange.Proofs.Commands
import FxExchange.Proofs.Redemption

/-
# GET and DEL instead of GETDEL

Where GETDEL fails a call reads the quote and deletes it by two commands.  As long as no other
call finds the quote between the two, this comes to the same as the one command: for every
run there is one in which GETDEL works and all requests are answered alike.
-/

namespace FxExchange

open Service Transition Custody
open Prog (tryCatch Issues issues_bind issues_command issues_mono)

variable {cfg : Config} {s s' s₁ : Sys} {t : Tid} {e : Event} {α β : Type}

/-! ## The shape of the programs -/

/-- The key of a DEL. -/
def Cmd.deletes : Cmd → Option QuoteId
  | .redis (.del q) => some q
  | _ => none

/-- `p` gets the quote and, where it finds one, deletes it; then it goes on like `f`. -/
def TakesInTwo (q : QuoteId) (f : Option Quote → Service α) (p : Service α) : Prop :=
  ∃ k, p = .call (.redis (.get q)) k ∧ k (.ok none) = f none ∧
    ∀ quote, ∃ k', k (.ok (some quote)) = .call (.redis (.del q)) k' ∧ k' (.ok ()) = f (some quote)

/-- GET and DEL are issued only in the place of a GETDEL that has failed. -/
def FallsBack : Service α → Prop
  | .pure _ => True
  | .throw _ => True
  | .call (.redis (.getdel q)) k =>
    (∀ found, FallsBack (k (.ok found))) ∧
      ∀ e, TakesInTwo q (fun found => k (.ok found)) (k (.error e))
  | .call (.redis (.get _)) _ => False
  | .call (.redis (.del _)) _ => False
  | .call _ k => ∀ r, FallsBack (k r)

/-- The command neither reads a quote nor deletes one. -/
def Cmd.LeavesQuotes (c : Cmd) : Prop := c.reads = none ∧ c.deletes = none

lemma fallsBack_call {c : Cmd} {k : Except Exn c.Ret → Service α} (hc : c.LeavesQuotes) :
    FallsBack (.call c k) ↔ ∀ r, FallsBack (k r) := by
  cases c with
  | redis c =>
    cases c with
    | getdel q => cases hc.1
    | get q => cases hc.1
    | del q => cases hc.2
    | _ => exact Iff.rfl
  | _ => exact Iff.rfl

lemma Cmd.leavesQuotes_or (c : Cmd) : c.LeavesQuotes ∨ ∃ q, c = .redis (.getdel q) ∨
    c = .redis (.get q) ∨ c = .redis (.del q) := by
  cases c with
  | redis c =>
    cases c with
    | getdel q => exact Or.inr ⟨q, Or.inl rfl⟩
    | get q => exact Or.inr ⟨q, Or.inr (Or.inl rfl)⟩
    | del q => exact Or.inr ⟨q, Or.inr (Or.inr rfl)⟩
    | _ => exact Or.inl ⟨rfl, rfl⟩
  | _ => exact Or.inl ⟨rfl, rfl⟩

/-- The shape is kept by whatever a program is put into that goes on after its end. -/
lemma FallsBack.context {C : Service α → Service β}
    (hcall : ∀ c k, C (.call c k) = .call c fun r => C (k r))
    (hpure : ∀ a, FallsBack (C (.pure a))) (hthrow : ∀ e, FallsBack (C (.throw e)))
    {p : Service α} (hp : FallsBack p) : FallsBack (C p) := by
  induction p with
  | pure a => exact hpure a
  | throw e => exact hthrow e
  | call c k ih =>
    rw [hcall]
    rcases c.leavesQuotes_or with hc | ⟨q, rfl | rfl | rfl⟩
    · rw [fallsBack_call hc] at hp ⊢
      exact fun r => ih r (hp r)
    · refine ⟨fun found => ih _ (hp.1 found), fun e => ?_⟩
      obtain ⟨k₁, hk, hnone, hsome⟩ := hp.2 e
      refine ⟨fun r => C (k₁ r), (congrArg C hk).trans (hcall _ _), congrArg C hnone,
        fun quote => ?_⟩
      obtain ⟨k₂, hk₂, hgo⟩ := hsome quote
      exact ⟨fun r => C (k₂ r), (congrArg C hk₂).trans (hcall _ _), congrArg C hgo⟩
    · exact hp.elim
    · exact hp.elim

lemma FallsBack.bind {p : Service α} {f : α → Service β} (hp : FallsBack p)
    (hf : ∀ a, FallsBack (f a)) : FallsBack (p >>= f) :=
  hp.context (C := fun p => p.bind f) (fun _ _ => rfl) hf fun _ => trivial

lemma fallsBack_of_issues {p : Service α} (h : p.Issues Cmd.LeavesQuotes) : FallsBack p := by
  induction p with
  | pure a => trivial
  | throw e => trivial
  | call c k ih => exact (fallsBack_call h.1).mpr fun r => ih r (h.2 r)

lemma fallsBack_takeQuote (q : QuoteId) : FallsBack (takeQuote q) :=
  ⟨fun _ => trivial, fun _ => ⟨_, rfl, rfl, fun _ => ⟨_, rfl, rfl⟩⟩⟩

lemma fallsBack_consumeQuote (q : QuoteId) (u : UserId) : FallsBack (consumeQuote q u) := by
  refine (fallsBack_takeQuote q).bind fun raw => fallsBack_of_issues ?_
  cases raw with
  | none => trivial
  | some parsed =>
    dsimp only
    split
    · refine issues_bind (issues_bind (issues_command ⟨rfl, rfl⟩) fun time => ?_) fun _ => trivial
      dsimp only
      split
      · exact Prog.issues_tryCatch (issues_command ⟨rfl, rfl⟩) fun _ => trivial
      · trivial
    · trivial

lemma fallsBack_executeTrade (u : UserId) (q : QuoteId) (key : String) :
    FallsBack (executeTrade cfg u q key) := by
  have hleaves {c : Cmd} (hc : c.reads = none) (hd : c.deletes = none) : c.LeavesQuotes := ⟨hc, hd⟩
  refine FallsBack.bind (fallsBack_of_issues (issues_command ⟨rfl, rfl⟩)) fun existing => ?_
  cases existing with
  | some journal => dsimp only; split <;> trivial
  | none =>
    refine (fallsBack_consumeQuote q u).bind fun found => ?_
    cases found with
    | none => trivial
    | some quote =>
      refine fallsBack_of_issues (issues_acquire ⟨rfl, rfl⟩ ⟨rfl, rfl⟩ ?_)
      refine issues_bind (issues_findOrCreateWallet ⟨rfl, rfl⟩ ⟨rfl, rfl⟩) fun _ => ?_
      refine issues_bind (issues_command ⟨rfl, rfl⟩) fun _ => ?_
      refine issues_inTransaction ?_ ⟨rfl, rfl⟩ fun _ => ?_
      · exact issues_executeTradeTx (fun _ => ⟨rfl, rfl⟩) ⟨rfl, rfl⟩ ⟨rfl, rfl⟩ ⟨rfl, rfl⟩
      · exact Prog.issues_tryCatch (issues_bind (issues_command ⟨rfl, rfl⟩) fun _ => trivial)
          fun _ => trivial

/-- The requests that redeem quotes are of this shape. -/
lemma fallsBack_program {req : Request} {q : QuoteId} (hq : req.Redeems q) :
    FallsBack (req.program cfg) := by
  cases req with
  | consumeQuote u q => exact (fallsBack_consumeQuote q u).bind fun _ => trivial
  | executeTrade u q key => exact (fallsBack_executeTrade u q key).bind fun _ => trivial
  | _ => exact hq.elim

/-! ## The same stores with other quotes and threads -/

/-- The system with other quotes in Redis and with other threads. -/
def Sys.patch (s : Sys) (Q : QuoteId → Option (Quote × ℕ)) (T : Tid → Option Thread) : Sys :=
  { s with redis := { s.redis with quotes := Q }, threads := T }

/-- The system with other quotes in Redis. -/
def Sys.withQuotes (s : Sys) (Q : QuoteId → Option (Quote × ℕ)) : Sys :=
  { s with redis := { s.redis with quotes := Q } }

variable {Q Q' R : QuoteId → Option (Quote × ℕ)} {T : Tid → Option Thread} {q : QuoteId}

lemma execRedis_quotes {c : RedisCmd} {redis redis' : Redis} {time : ℕ} {r : Except Exn c.Ret}
    (hc : (Cmd.redis c).LeavesQuotes) (hset : (Cmd.redis c).sets = none)
    (h : execRedis redis time t c = some (redis', r)) :
    execRedis { redis with quotes := Q } time t c = some ({ redis' with quotes := Q }, r) ∧
      redis'.quotes = redis.quotes := by
  cases c with
  | getdel q => cases hc.1
  | get q => cases hc.1
  | del q => cases hc.2
  | set q quote ex => cases hset
  | acquire u ttl =>
    simp only [execRedis] at h ⊢
    split at h
    · cases h
    · cases h
      exact ⟨rfl, rfl⟩
  | release u =>
    by_cases hown : live (redis.locks u) time = some t
    · rw [execRedis, if_pos hown] at h
      cases h
      exact ⟨if_pos hown, rfl⟩
    · rw [execRedis, if_neg hown] at h
      cases h
      exact ⟨if_neg hown, rfl⟩
  | _ =>
    cases h
    exact ⟨rfl, rfl⟩

/-- A command that has nothing to do with quotes does not see the difference. -/
lemma Sys.exec_patch {tx : Option Tx} {c : Cmd} {r : Except Exn c.Ret} (hc : c.LeavesQuotes)
    (hset : c.sets = none) (h : s.exec t tx c = some (s₁, r)) :
    (s.patch Q T).exec t tx c = some (s₁.patch Q T, r) ∧ s₁.redis.quotes = s.redis.quotes := by
  cases c with
  | tx c =>
    simp only [exec] at h ⊢
    split at h
    · cases h
      exact ⟨rfl, rfl⟩
    · rename_i x
      by_cases haborted : x.aborted = true
      · rw [if_pos haborted] at h ⊢
        cases h
        exact ⟨rfl, rfl⟩
      · rw [if_neg haborted] at h ⊢
        obtain ⟨⟨locks, r'⟩, hexec, heq⟩ := Option.map_eq_some_iff.mp h
        cases heq
        exact ⟨Option.map_eq_some_iff.mpr ⟨_, hexec, rfl⟩, rfl⟩
  | commit =>
    simp only [exec] at h ⊢
    split at h
    · cases h
      exact ⟨rfl, rfl⟩
    · rename_i x
      by_cases haborted : x.aborted = true
      · rw [if_pos haborted] at h ⊢
        cases h
        exact ⟨rfl, rfl⟩
      · rw [if_neg haborted] at h ⊢
        cases h
        exact ⟨rfl, rfl⟩
  | redis c =>
    obtain ⟨⟨redis, r'⟩, hexec, heq⟩ := Option.map_eq_some_iff.mp h
    cases heq
    obtain ⟨hpatch, hquotes⟩ := execRedis_quotes (Q := Q) hc hset hexec
    exact ⟨Option.map_eq_some_iff.mpr ⟨_, hpatch, rfl⟩, hquotes⟩
  | getRates => cases h
  | _ =>
    cases h
    exact ⟨rfl, rfl⟩

lemma Sys.fail_patch {c : Cmd} (h : s.fail t c = some s₁) :
    (s.patch Q T).fail t c = some (s₁.patch Q T) ∧ s₁.redis = s.redis := by
  cases c with
  | now => cases h
  | uuid => cases h
  | _ =>
    cases h
    exact ⟨rfl, rfl⟩

/-- Nor is the difference seen by a command that fails. -/
lemma Sys.respond_patch {tx : Option Tx} {c : Cmd} {choice : Choice} {r : Except Exn c.Ret}
    (hc : choice = .ok → c.LeavesQuotes ∧ c.sets = none)
    (h : s.respond t tx c choice = some (s₁, r)) :
    (s.patch Q T).respond t tx c choice = some (s₁.patch Q T, r) ∧
      s₁.redis.quotes = s.redis.quotes := by
  cases choice with
  | ok => exact Sys.exec_patch (hc rfl).1 (hc rfl).2 h
  | fail =>
    obtain ⟨s₂, hfail, heq⟩ := Option.map_eq_some_iff.mp h
    cases heq
    obtain ⟨hpatch, hredis⟩ := Sys.fail_patch (Q := Q) (T := T) hfail
    exact ⟨Option.map_eq_some_iff.mpr ⟨_, hpatch, rfl⟩, congrArg Redis.quotes hredis⟩
  | rates rates =>
    cases c with
    | getRates =>
      cases h
      exact ⟨rfl, rfl⟩
    | _ => cases h

/-- What a request remembers, but for whether it has fallen back. -/
def Local.forget (l : Local) : Local := { l with trail := { l.trail with fellBack := false } }

lemma Local.after_forget {l : Local} {seq : ℕ} {c : Cmd} {r : Except Exn c.Ret}
    (hc : ∀ q, c ≠ .redis (.getdel q)) : l.forget.after seq c r = (l.after seq c r).forget := by
  cases c with
  | redis c =>
    cases c with
    | getdel q => exact absurd rfl (hc q)
    | _ => cases r <;> rfl
  | pool c => cases c <;> cases r <;> rfl
  | _ => cases r <;> rfl

/-! ## Two commands for one -/

/-- A program between GET and DEL is behind the one that has got the quote by GETDEL, and before
the GET behind the one that is about to issue GETDEL; otherwise the two are the same. -/
inductive Behind (l : Local) : Service Response → Service Response → Prop
  | same {p : Service Response} (hp : (∃ q, l.req.Redeems q) → FallsBack p) : Behind l p p
  | get {q : QuoteId} {k : Except Exn (Option Quote) → Service Response} {e : Exn}
      (hp : FallsBack (.call (.redis (.getdel q)) k)) :
      Behind l (k (.error e)) (.call (.redis (.getdel q)) k)
  | del {q : QuoteId} {k : Except Exn Unit → Service Response} (hp : FallsBack (k (.ok ())))
      (hhand : ∃ quote, l.trail.hand = some quote ∧ quote.id = q) :
      Behind l (.call (.redis (.del q)) k) (k (.ok ()))

/-- What a thread has in the run in which GETDEL works. -/
structure Shadows (th th' : Thread) : Prop where
  state : th'.state = th.state.forget
  alive : th'.alive = th.alive
  prog : Behind th.state th.prog th'.prog

/-- Some call has found the quote and is about to delete it. -/
def Sys.Deleting (s : Sys) (q : QuoteId) : Prop := ∃ t, (s.next t).bind Cmd.deletes = some q

/-- `Q` are the quotes in the run in which GETDEL works: there a quote that is about to be deleted
is gone. -/
structure Mirrors (s : Sys) (Q : QuoteId → Option (Quote × ℕ)) : Prop where
  deleting : ∀ q, s.Deleting q → ∀ time, s.now ≤ time → live (Q q) time = none
  live_eq : ∀ q, ¬ s.Deleting q → ∀ time, s.now ≤ time →
    live (Q q) time = live (s.redis.quotes q) time

/-- A request that has not begun. -/
def Request.arrived (cfg : Config) (req : Request) : Thread :=
  { state := { req }, prog := req.program cfg }

/-- `Q` and `T` are the quotes and the threads in the run in which GETDEL works.  There may be
requests there that do not begin. -/
structure Simulates (cfg : Config) (s : Sys) (Q : QuoteId → Option (Quote × ℕ))
    (T : Tid → Option Thread) : Prop where
  mirrors : Mirrors s Q
  threads : ∀ t th, s.threads t = some th → ∃ th', T t = some th' ∧ Shadows th th'
  others : ∀ t th', T t = some th' → s.threads t = none → ∃ req : Request, th' = req.arrived cfg

/-- The key of a GET. -/
def Cmd.gets : Cmd → Option QuoteId
  | .redis (.get q) => some q
  | _ => none

/-- Nobody finds a quote between the GET and the DEL of another call, and these two succeed. -/
def Isolated (s : Sys) : Event → Prop
  | .run t .ok => ∀ q ∈ (s.next t).bind Cmd.reads, (live (s.redis.quotes q) s.now).isSome →
      ∀ t' < s.seq, t' ≠ t → (s.next t').bind Cmd.deletes ≠ some q
  | .run t .fail => (s.next t).bind Cmd.gets = none ∧ (s.next t).bind Cmd.deletes = none
  | .crash t => (s.next t).bind Cmd.deletes = none
  | _ => True

instance (s : Sys) : DecidablePred (Isolated s)
  | .run t .ok => inferInstanceAs (Decidable (∀ q ∈ (s.next t).bind Cmd.reads,
      (live (s.redis.quotes q) s.now).isSome → ∀ t' < s.seq, t' ≠ t →
        (s.next t').bind Cmd.deletes ≠ some q))
  | .run t .fail => inferInstanceAs (Decidable ((s.next t).bind Cmd.gets = none ∧
      (s.next t).bind Cmd.deletes = none))
  | .run _ (.rates _) => isTrue trivial
  | .crash t => inferInstanceAs (Decidable ((s.next t).bind Cmd.deletes = none))
  | .spawn _ => isTrue trivial
  | .tick _ => isTrue trivial

/-- Nothing but GETDEL fails, and no process dies. -/
def OnlyGetdelFails (s : Sys) : Event → Prop
  | .run t .fail => (s.next t).bind Cmd.reads ≠ none ∧ (s.next t).bind Cmd.gets = none
  | .crash _ => False
  | _ => True

instance (s : Sys) : DecidablePred (OnlyGetdelFails s)
  | .run t .fail => inferInstanceAs (Decidable ((s.next t).bind Cmd.reads ≠ none ∧
      (s.next t).bind Cmd.gets = none))
  | .run _ .ok => isTrue trivial
  | .run _ (.rates _) => isTrue trivial
  | .crash _ => isFalse id
  | .spawn _ => isTrue trivial
  | .tick _ => isTrue trivial

/-! ## Who is about to delete a quote -/

/-- A thread whose shadow is itself is not. -/
lemma deletes_of_same (h : Reachable cfg s) {th : Thread} (hth : s.threads t = some th)
    (hp : (∃ q, th.state.req.Redeems q) → FallsBack th.prog) (q : QuoteId) :
    (s.next t).bind Cmd.deletes ≠ some q := by
  intro hdel
  rw [Sys.next_eq hth] at hdel
  obtain ⟨l, prog, alive⟩ := th
  cases prog with
  | pure a => cases alive <;> cases hdel
  | throw e => cases alive <;> cases hdel
  | call c k =>
    cases alive with
    | false => cases hdel
    | true =>
      cases c with
      | redis c =>
        cases c with
        | del q' =>
          have hguard := (inv_of_reachable h).guard hth
          exact hp ⟨q', hguard.1⟩
        | _ => cases hdel
      | _ => cases hdel

/-- Who is, has the quote in hand. -/
lemma Simulates.of_deletes (h : Simulates cfg s Q T) (hreach : Reachable cfg s)
    (hdel : (s.next t).bind Cmd.deletes = some q) : ∃ th th' quote, s.threads t = some th ∧
      T t = some th' ∧ th'.state = th.state.forget ∧ th.state.trail.hand = some quote ∧
      quote.id = q := by
  cases hth : s.threads t with
  | none =>
    rw [Sys.next, hth] at hdel
    cases hdel
  | some th =>
    obtain ⟨⟨l', p', alive'⟩, hT, hstate, -, hprog⟩ := h.threads t th hth
    rw [Sys.next_eq hth] at hdel
    obtain ⟨l, p, alive⟩ := th
    cases alive with
    | false => cases p <;> cases hdel
    | true =>
      cases hprog with
      | same hp => exact absurd (Sys.next_eq hth ▸ hdel) (deletes_of_same hreach hth hp q)
      | @get q' k e hp =>
        obtain ⟨k', hk, -⟩ := hp.2 e
        rw [hk] at hdel
        cases hdel
      | del hp hhand =>
        obtain ⟨quote, hhand, rfl⟩ := hhand
        cases hdel
        exact ⟨_, _, quote, rfl, hT, hstate, hhand, rfl⟩

/-- Which quotes are about to be deleted when a thread has moved. -/
lemma Sys.deleting_setThread (hthreads : s₁.threads = s.threads) {th : Thread} :
    (s₁.setThread t th).Deleting q ↔ th.next.bind Cmd.deletes = some q ∨
      ∃ t' ≠ t, (s.next t').bind Cmd.deletes = some q := by
  have hself : (s₁.setThread t th).next t = th.next := next_eq (setThread_self th)
  have hother {t' : Tid} (hne : t' ≠ t) : (s₁.setThread t th).next t' = s.next t' := by
    rw [next, setThread_of_ne hne, hthreads, next]
  constructor
  · rintro ⟨t', h⟩
    rcases eq_or_ne t' t with rfl | hne
    · exact Or.inl (hself ▸ h)
    · exact Or.inr ⟨t', hne, hother hne ▸ h⟩
  · rintro (h | ⟨t', hne, h⟩)
    · exact ⟨t, hself.symm ▸ h⟩
    · exact ⟨t', (hother hne).symm ▸ h⟩

/-- Nothing changes when the thread was not about to delete the quote, and is not now. -/
lemma Sys.deleting_setThread_iff (hthreads : s₁.threads = s.threads) {th : Thread}
    (hold : (s.next t).bind Cmd.deletes ≠ some q) (hnew : th.next.bind Cmd.deletes ≠ some q) :
    (s₁.setThread t th).Deleting q ↔ s.Deleting q := by
  rw [deleting_setThread hthreads]
  constructor
  · rintro (h | ⟨t', -, h⟩)
    · exact absurd h hnew
    · exact ⟨t', h⟩
  · rintro ⟨t', h⟩
    refine Or.inr ⟨t', ?_, h⟩
    rintro rfl
    exact hold h

/-! ## The quotes -/

/-- What has expired or is gone stays so. -/
lemma live_eq_none_of_le {entry : Option (Quote × ℕ)} {now time : ℕ} (h : live entry now = none)
    (hle : now ≤ time) : live entry time = none := by
  by_contra hne
  obtain ⟨quote, hquote⟩ := Option.ne_none_iff_exists'.mp hne
  obtain ⟨deadline, hentry, hlt⟩ := live_eq_some_iff.mp hquote
  rw [live_eq_some_iff.mpr ⟨deadline, hentry, hle.trans_lt hlt⟩] at h
  cases h

lemma Mirrors.idle (h : Mirrors s Q) (hnow : s.now ≤ s'.now)
    (hquotes : s'.redis.quotes = s.redis.quotes) (hiff : ∀ q, s'.Deleting q ↔ s.Deleting q) :
    Mirrors s' Q := by
  refine ⟨fun q hq time htime => h.deleting q ((hiff q).mp hq) time (hnow.trans htime),
    fun q hq time htime => ?_⟩
  rw [hquotes]
  exact h.live_eq q ((hiff q).not.mp hq) time (hnow.trans htime)

/-- A command changes what is there under one key. -/
lemma Mirrors.change (h : Mirrors s Q) (q : QuoteId)
    (hnow : s.now ≤ s'.now) (hiff : ∀ q' ≠ q, (s'.Deleting q' ↔ s.Deleting q'))
    (hQ : ∀ q' ≠ q, Q' q' = Q q')
    (hquotes : ∀ q' ≠ q, s'.redis.quotes q' = s.redis.quotes q')
    (hdeleting : s'.Deleting q → ∀ time, s'.now ≤ time → live (Q' q) time = none)
    (hlive : ¬ s'.Deleting q → ∀ time, s'.now ≤ time →
      live (Q' q) time = live (s'.redis.quotes q) time) : Mirrors s' Q' := by
  refine ⟨fun q' hq' time htime => ?_, fun q' hq' time htime => ?_⟩
  · rcases eq_or_ne q' q with rfl | hne
    · exact hdeleting hq' time htime
    · rw [hQ q' hne]
      exact h.deleting q' ((hiff q' hne).mp hq') time (hnow.trans htime)
  · rcases eq_or_ne q' q with rfl | hne
    · exact hlive hq' time htime
    · rw [hQ q' hne, hquotes q' hne]
      exact h.live_eq q' ((hiff q' hne).not.mp hq') time (hnow.trans htime)

/-- Nothing is there under a key that has been deleted. -/
lemma live_deleted (Q : QuoteId → Option (Quote × ℕ)) (q : QuoteId) (time : ℕ) :
    live (Function.update Q q none q) time = none := by
  rw [Function.update_self]
  rfl

/-- A command writes the same under one key in both runs. -/
lemma Mirrors.write (h : Mirrors s Q) {entry : Option (Quote × ℕ)} (hnow : s.now ≤ s'.now)
    (hiff : ∀ q', s'.Deleting q' ↔ s.Deleting q')
    (hquotes : s'.redis.quotes = Function.update s.redis.quotes q entry)
    (hentry : s'.Deleting q → entry = none) : Mirrors s' (Function.update Q q entry) := by
  refine h.change q hnow (fun q' _ => hiff q') (fun q' hne => Function.update_of_ne hne _ _)
    (fun q' hne => by rw [hquotes, Function.update_of_ne hne]) (fun hq time _ => ?_)
    fun _ time _ => ?_
  · rw [hentry hq]
    exact live_deleted Q q time
  · rw [hquotes, Function.update_self, Function.update_self]

lemma Cmd.deletes_of_reads {c : Cmd} (h : c.reads = some q) : c.deletes = none := by
  unfold reads at h
  split at h
  · rfl
  · rfl
  · cases h

/-- A call finds the same in both runs. -/
lemma Mirrors.found_eq (h : Mirrors s Q) (hreach : Reachable cfg s)
    (hok : Isolated s (.run t .ok)) {c : Cmd} (hnext : s.next t = some c)
    (hreads : c.reads = some q) :
    live (Q q) s.now = live (s.redis.quotes q) s.now := by
  by_cases hdel : s.Deleting q
  · obtain ⟨t', ht'⟩ := hdel
    rw [h.deleting q ⟨t', ht'⟩ _ le_rfl]
    by_contra hne
    have hlt : t' < s.seq := by
      obtain ⟨c', hc', -⟩ := Option.bind_eq_some_iff.mp ht'
      obtain ⟨th, hth, -⟩ := Option.bind_eq_some_iff.mp hc'
      exact (inv_of_reachable hreach).lt_seq hth
    have hne' : t' ≠ t := by
      rintro rfl
      rw [hnext, Option.bind_some, Cmd.deletes_of_reads hreads] at ht'
      cases ht'
    have hread : (s.next t).bind Cmd.reads = some q := by rw [hnext, Option.bind_some, hreads]
    exact hok q hread (Option.isSome_iff_ne_none.mpr (Ne.symm hne)) t' hlt hne' ht'
  · exact h.live_eq q hdel _ le_rfl

/-! ## The threads -/

lemma Behind.congr {l l' : Local} {p p' : Service Response} (h : Behind l p p')
    (hreq : l'.req = l.req) (hhand : l'.trail.hand = l.trail.hand) : Behind l' p p' := by
  cases h with
  | same hp => exact .same (hreq ▸ hp)
  | get hp => exact .get hp
  | del hp hquote => exact .del hp (hhand ▸ hquote)

/-- A thread has moved in both runs. -/
lemma Simulates.both (h : Simulates cfg s Q T) {th th' : Thread} (hthreads : s₁.threads = s.threads)
    (hmirrors : Mirrors (s₁.setThread t th) Q') (hshadows : Shadows th th') :
    Simulates cfg (s₁.setThread t th) Q' (Function.update T t (some th')) := by
  refine ⟨hmirrors, fun t' th₁ hth₁ => ?_, fun t' th₂ hT hnone => ?_⟩
  · rcases Sys.of_setThread hth₁ with ⟨rfl, rfl⟩ | ⟨hne, hold⟩
    · exact ⟨th', Function.update_self _ _ _, hshadows⟩
    · obtain ⟨th₂, hT, hshadows₂⟩ := h.threads t' th₁ (hthreads ▸ hold)
      exact ⟨th₂, by rw [Function.update_of_ne hne, hT], hshadows₂⟩
  · obtain ⟨hne, hnone⟩ := Sys.of_setThread_none hnone
    rw [hthreads] at hnone
    rw [Function.update_of_ne hne] at hT
    exact h.others t' th₂ hT hnone

/-- A thread has moved in the one run, and in the other one a request has arrived. -/
lemma Simulates.pad (h : Simulates cfg s Q T) (hreach : Reachable cfg s) {th₀ th th' : Thread}
    (hthreads : s₁.threads = s.threads) (hth : s.threads t = some th₀) (hT : T t = some th')
    (hmirrors : Mirrors (s₁.setThread t th) Q') (hshadows : Shadows th th') (req : Request) :
    Simulates cfg (s₁.setThread t th) Q' (Function.update T s.seq (some (req.arrived cfg))) := by
  have hlt {t' : Tid} {th₁ : Thread} (hth₁ : s.threads t' = some th₁) : t' ≠ s.seq :=
    ((inv_of_reachable hreach).lt_seq hth₁).ne
  refine ⟨hmirrors, fun t' th₁ hth₁ => ?_, fun t' th₂ hT' hnone => ?_⟩
  · rcases Sys.of_setThread hth₁ with ⟨rfl, rfl⟩ | ⟨hne, hold⟩
    · exact ⟨th', by rw [Function.update_of_ne (hlt hth), hT], hshadows⟩
    · rw [hthreads] at hold
      obtain ⟨th₂, hT', hshadows₂⟩ := h.threads t' th₁ hold
      exact ⟨th₂, by rw [Function.update_of_ne (hlt hold), hT'], hshadows₂⟩
  · obtain ⟨-, hnone⟩ := Sys.of_setThread_none hnone
    rw [hthreads] at hnone
    rcases eq_or_ne t' s.seq with rfl | hne'
    · rw [Function.update_self] at hT'
      cases hT'
      exact ⟨req, rfl⟩
    · rw [Function.update_of_ne hne'] at hT'
      exact h.others t' th₂ hT' hnone

lemma simulates_initial :
    Simulates cfg Sys.initial Sys.initial.redis.quotes Sys.initial.threads := by
  refine ⟨⟨fun q h => ?_, fun _ _ _ _ => rfl⟩, ?_, ?_⟩
  · obtain ⟨t, ht⟩ := h
    cases ht
  · simp [Sys.initial]
  · simp [Sys.initial]

/-! ## The steps -/

/-- In the run in which GETDEL works the step is matched. -/
def Matched (cfg : Config) (s : Sys) (Q : QuoteId → Option (Quote × ℕ)) (T : Tid → Option Thread)
    (s' : Sys) : Prop :=
  ∃ Q' T', Runs cfg GetdelAvailable (s.patch Q T) (s'.patch Q' T') ∧ Simulates cfg s' Q' T'

section Steps

variable {l : Local}

lemma Simulates.spawn (h : Simulates cfg s Q T) (hreach : Reachable cfg s) (req : Request) :
    Matched cfg s Q T (s.setThread s.seq (req.arrived cfg)) := by
  have hshape : (∃ q, req.Redeems q) → FallsBack (req.program cfg) := by
    rintro ⟨q, hq⟩
    exact fallsBack_program hq
  have hreach' : Reachable cfg (s.setThread s.seq (req.arrived cfg)) :=
    hreach.tail (e := .spawn req) trivial rfl
  have hold (q : QuoteId) : (s.next s.seq).bind Cmd.deletes ≠ some q := by
    rw [Sys.next, (inv_of_reachable hreach).fresh s.seq le_rfl]
    simp
  have hnew (q : QuoteId) : (req.arrived cfg).next.bind Cmd.deletes ≠ some q := by
    have := deletes_of_same hreach' (Sys.setThread_self _) hshape q
    rwa [Sys.next_eq (Sys.setThread_self _)] at this
  refine ⟨Q, Function.update T s.seq (some (req.arrived cfg)),
    Runs.refl.tail (e := .spawn req) trivial rfl, h.both rfl ?_ ⟨rfl, rfl, .same hshape⟩⟩
  exact h.mirrors.idle le_rfl rfl fun q => Sys.deleting_setThread_iff rfl (hold q) (hnew q)

lemma Simulates.tick (h : Simulates cfg s Q T) (ms : ℕ) :
    Matched cfg s Q T { s with now := s.now + ms } := by
  refine ⟨Q, T, Runs.refl.tail (e := .tick ms) trivial rfl, ?_, h.threads, h.others⟩
  exact h.mirrors.idle (Nat.le_add_right _ _) rfl fun _ => Iff.rfl

lemma Simulates.crash (h : Simulates cfg s Q T) {c : Cmd}
    {k : Except Exn c.Ret → Service Response} (hth : s.threads t = some ⟨l, .call c k, true⟩)
    (hdel : (s.next t).bind Cmd.deletes = none) :
    Matched cfg s Q T ({ s with locks := s.locks.releaseAll t }.setThread t
      ⟨{ l with tx := none }, .call c k, false⟩) := by
  obtain ⟨⟨l', p, alive⟩, hT, ⟨rfl, rfl, hbehind⟩⟩ := h.threads t _ hth
  have hcall : ∃ c' k', p = .call c' k' := by
    generalize hp : Prog.call c k = p₀ at hbehind
    cases hbehind with
    | same => exact ⟨c, k, hp.symm⟩
    | get => exact ⟨_, _, rfl⟩
    | del =>
      cases hp
      rw [Sys.next_call hth] at hdel
      cases hdel
  obtain ⟨c', k', rfl⟩ := hcall
  refine ⟨Q, Function.update T t (some ⟨{ l.forget with tx := none }, .call c' k', false⟩),
    Runs.refl.tail (e := .crash t) trivial ?_, h.both rfl ?_ ⟨rfl, rfl, hbehind.congr rfl rfl⟩⟩
  · show (T t).bind _ = _
    rw [hT]
    rfl
  · refine h.mirrors.idle le_rfl rfl fun q => ?_
    have hold : (s.next t).bind Cmd.deletes ≠ some q := by simp [hdel]
    exact Sys.deleting_setThread_iff (s := s) rfl hold fun hnew => by cases hnew

/-! ### Commands that are the same in both runs -/

/-- A thread that issues another command is not about to delete a quote. -/
lemma Sys.deletes_ne_of_call {c : Cmd} {k : Except Exn c.Ret → Service Response}
    (hth : s.threads t = some ⟨l, .call c k, true⟩) (hc : c.deletes = none) (q : QuoteId) :
    (s.next t).bind Cmd.deletes ≠ some q := by
  rw [Sys.next_call hth, Option.bind_some, hc]
  rintro ⟨⟩

/-- The thread in the other run is at the same command. -/
abbrev Level (T : Tid → Option Thread) (t : Tid) (l : Local) (c : Cmd)
    (k : Except Exn c.Ret → Service Response) : Prop :=
  T t = some ⟨l.forget, .call c k, true⟩

/-- A thread that goes on like its shadow is not about to delete a quote. -/
lemma deletes_of_step (hreach : Reachable cfg s) {th : Thread}
    (hstep : s.step cfg e = some (s₁.setThread t th))
    (hshape : (∃ q, th.state.req.Redeems q) → FallsBack th.prog) (q : QuoteId) :
    th.next.bind Cmd.deletes ≠ some q := by
  have := deletes_of_same (hreach.tail trivial hstep) (Sys.setThread_self th) hshape q
  rwa [Sys.next_eq (Sys.setThread_self th)] at this

section Answers

variable {c : Cmd} {k : Except Exn c.Ret → Service Response} {choice : Choice}
  {r : Except Exn c.Ret}

/-- The command fails, or it has nothing to do with quotes. -/
lemma Simulates.idle (h : Simulates cfg s Q T) (hreach : Reachable cfg s)
    (hth : s.threads t = some ⟨l, .call c k, true⟩) (hT : Level T t l c k)
    (hshape : (∃ q, l.req.Redeems q) → FallsBack (.call c k)) (hleaves : c.LeavesQuotes)
    (hset : choice = .ok → c.sets = none)
    (hrespond : s.respond t l.tx c choice = some (s₁, r)) :
    Matched cfg s Q T (s₁.setThread t ⟨l.after s.seq c r, k r, true⟩) := by
  have hgetdel (q : QuoteId) : c ≠ .redis (.getdel q) := by
    rintro rfl
    cases hleaves.1
  obtain ⟨hrespond', hquotes⟩ := Sys.respond_patch (Q := Q) (T := T)
    (fun hchoice => ⟨hleaves, hset hchoice⟩) hrespond
  obtain ⟨hthreads, -, hnow⟩ := (Sys.served_of_eq hrespond).frame
  have hshape' : (∃ q, (l.after s.seq c r).req.Redeems q) → FallsBack (k r) := by
    rw [Local.after_req]
    exact fun hq => (fallsBack_call hleaves).mp (hshape hq) r
  refine ⟨Q, Function.update T t (some ⟨l.forget.after s.seq c r, k r, true⟩),
    Runs.refl.tail (e := .run t choice) ?_
      (Sys.step_respond (s := s.patch Q T) (l := l.forget) hT hrespond'), h.both hthreads ?_
      ⟨Local.after_forget hgetdel, rfl, .same hshape'⟩⟩
  · cases choice with
    | fail =>
      intro q hnext
      rw [Sys.next_call (s := s.patch Q T) hT] at hnext
      exact hgetdel q (Option.some.inj hnext)
    | _ => trivial
  · refine h.mirrors.idle hnow.ge hquotes fun q => Sys.deleting_setThread_iff hthreads ?_ ?_
    · exact Sys.deletes_ne_of_call hth hleaves.2 q
    · exact deletes_of_step hreach (Sys.step_respond hth hrespond) hshape' q

end Answers

/-- Nobody is about to delete the quote that another call stores. -/
lemma Simulates.not_deleting (h : Simulates cfg s Q T) (hreach : Reachable cfg s)
    (hrun : Runs cfg GetdelAvailable Sys.initial (s.patch Q T)) {quote : Quote} {ex : ℕ}
    {k : Except Exn Unit → Service Response}
    (hth : s.threads t = some ⟨l, .call (.redis (.set q quote ex)) k, true⟩)
    (hT : Level T t l (.redis (.set q quote ex)) k) : ¬ s.Deleting q := by
  rintro ⟨t', hdel⟩
  obtain ⟨th', th₂, quote', hth', hT', hstate, hhand, hid⟩ := h.of_deletes hreach hdel
  obtain ⟨rfl, -, -, -, -, hmay | hmay⟩ := (inv_of_reachable hreach).guard hth
  · -- while GETDEL works the quote is in one hand only
    have hhand₁ : (s.patch Q T).custody.hand t = some quote :=
      (congrArg Trail.hand (Sys.trail_eq (s := s.patch Q T) hT)).trans hmay.hand
    have hhand₂ : (s.patch Q T).custody.hand t' = some quote' := by
      refine (congrArg Trail.hand (Sys.trail_eq (s := s.patch Q T) hT')).trans ?_
      rw [hstate]
      exact hhand
    obtain rfl := (inCustody_of_runs hrun).exclusive.single t t' quote quote' hhand₁ hhand₂ hid.symm
    rw [Sys.next_call hth] at hdel
    cases hdel
  · -- the quote is new, so that it is in no hand
    refine (ids_of_reachable hreach).ne_of_issued hth hmay.uuid hmay.issued quote' ?_ hid
    exact (known_of_reachable hreach).hand t' quote'
      ((congrArg Trail.hand (Sys.trail_eq hth')).trans hhand)

/-- The thread in the other run issues a command on quotes. -/
lemma Simulates.answered (h : Simulates cfg s Q T) {c : RedisCmd} {r : Except Exn c.Ret}
    {k : Except Exn c.Ret → Service Response} {th : Thread}
    (hT : T t = some ⟨l, .call (.redis c) k, true⟩)
    (hexec : execRedis { s.redis with quotes := Q } s.now t c =
      some ({ s.redis with quotes := Q' }, r))
    (hmirrors : Mirrors ((s.withQuotes R).setThread t th) Q')
    (hshadows : Shadows th ⟨l.after s.seq (.redis c) r, k r, true⟩) :
    Matched cfg s Q T ((s.withQuotes R).setThread t th) := by
  have hrespond : (s.patch Q T).respond t l.tx (.redis c) .ok = some (s.patch Q' T, r) := by
    show (execRedis { s.redis with quotes := Q } s.now t c).map _ = _
    rw [hexec]
    rfl
  exact ⟨Q', Function.update T t (some ⟨l.after s.seq (.redis c) r, k r, true⟩),
    Runs.refl.tail (e := .run t .ok) trivial (Sys.step_respond (s := s.patch Q T) hT hrespond),
    h.both rfl hmirrors hshadows⟩

/-- The thread in the other run does not move. -/
lemma Simulates.stays (h : Simulates cfg s Q T) (hreach : Reachable cfg s) {th₀ th th' : Thread}
    (hth : s.threads t = some th₀) (hT : T t = some th')
    (hmirrors : Mirrors ((s.withQuotes R).setThread t th) Q) (hshadows : Shadows th th') :
    Matched cfg s Q T ((s.withQuotes R).setThread t th) := by
  have hthreads : (s.withQuotes R).threads = s.threads := rfl
  exact ⟨Q, Function.update T s.seq (some (th₀.state.req.arrived cfg)),
    Runs.refl.tail (e := .spawn th₀.state.req) trivial rfl,
    h.pad hreach hthreads hth hT hmirrors hshadows th₀.state.req⟩

/-- A quote is stored. -/
lemma Simulates.set (h : Simulates cfg s Q T) (hreach : Reachable cfg s)
    (hrun : Runs cfg GetdelAvailable Sys.initial (s.patch Q T)) {quote : Quote} {ex : ℕ}
    {k : Except Exn Unit → Service Response} {r : Except Exn Unit}
    (hth : s.threads t = some ⟨l, .call (.redis (.set q quote ex)) k, true⟩)
    (hT : Level T t l (.redis (.set q quote ex)) k)
    (hshape : (∃ q, l.req.Redeems q) → FallsBack (.call (.redis (.set q quote ex)) k))
    (hrespond : s.respond t l.tx (.redis (.set q quote ex)) .ok = some (s₁, r)) :
    Matched cfg s Q T (s₁.setThread t ⟨l.after s.seq (.redis (.set q quote ex)) r, k r, true⟩) := by
  have hnot := h.not_deleting hreach hrun hth hT
  obtain ⟨rfl, rfl⟩ : s₁ = s.withQuotes (Function.update s.redis.quotes q
      (some (quote, s.now + 1000 * ex))) ∧ r = .ok () := by
    cases hrespond
    exact ⟨rfl, rfl⟩
  have hshape' : (∃ q, l.req.Redeems q) → FallsBack (k (.ok ())) := fun hq => hshape hq _
  refine h.answered hT rfl ?_ ⟨rfl, rfl, .same hshape'⟩
  have hold := Sys.deletes_ne_of_call hth rfl
  have hnew := deletes_of_step hreach (Sys.step_respond hth hrespond) hshape'
  refine h.mirrors.write le_rfl (fun q' => Sys.deleting_setThread_iff rfl (hold q') (hnew q')) rfl
    fun hq => ?_
  exact absurd ((Sys.deleting_setThread_iff rfl (hold q) (hnew q)).mp hq) hnot

/-! ### Commands that take a quote -/

lemma execRedis_getdel (hfound : live (Q q) s.now = live (s.redis.quotes q) s.now) :
    execRedis { s.redis with quotes := Q } s.now t (.getdel q) =
      some ({ s.redis with quotes := Function.update Q q none },
        .ok (live (s.redis.quotes q) s.now)) := by
  rw [execRedis, hfound]

/-- GETDEL works in both runs. -/
lemma Simulates.getdel (h : Simulates cfg s Q T) (hreach : Reachable cfg s)
    (hok : Isolated s (.run t .ok)) {k : Except Exn (Option Quote) → Service Response}
    {r : Except Exn (Option Quote)}
    (hth : s.threads t = some ⟨l, .call (.redis (.getdel q)) k, true⟩)
    (hT : Level T t l (.redis (.getdel q)) k) (hshape : FallsBack (.call (.redis (.getdel q)) k))
    (hrespond : s.respond t l.tx (.redis (.getdel q)) .ok = some (s₁, r)) :
    Matched cfg s Q T (s₁.setThread t ⟨l.after s.seq (.redis (.getdel q)) r, k r, true⟩) := by
  have hfound := h.mirrors.found_eq hreach hok (Sys.next_call hth) rfl
  obtain ⟨rfl, rfl⟩ : s₁ = s.withQuotes (Function.update s.redis.quotes q none) ∧
      r = .ok (live (s.redis.quotes q) s.now) := by
    cases hrespond
    exact ⟨rfl, rfl⟩
  have hshape' : (∃ q, l.req.Redeems q) → FallsBack (k (.ok (live (s.redis.quotes q) s.now))) :=
    fun _ => hshape.1 _
  refine h.answered hT (execRedis_getdel hfound) ?_ ⟨rfl, rfl, .same hshape'⟩
  have hold := Sys.deletes_ne_of_call hth rfl
  have hnew := deletes_of_step hreach (Sys.step_respond hth hrespond) hshape'
  exact h.mirrors.write le_rfl (fun q' => Sys.deleting_setThread_iff rfl (hold q') (hnew q')) rfl
    fun _ => rfl

/-- GETDEL fails in the one run, and is still to come in the other. -/
lemma Simulates.fallBack (h : Simulates cfg s Q T) (hreach : Reachable cfg s)
    {k : Except Exn (Option Quote) → Service Response} {r : Except Exn (Option Quote)}
    (hth : s.threads t = some ⟨l, .call (.redis (.getdel q)) k, true⟩)
    (hT : Level T t l (.redis (.getdel q)) k) (hshape : FallsBack (.call (.redis (.getdel q)) k))
    (hrespond : s.respond t l.tx (.redis (.getdel q)) .fail = some (s₁, r)) :
    Matched cfg s Q T (s₁.setThread t ⟨l.after s.seq (.redis (.getdel q)) r, k r, true⟩) := by
  obtain ⟨rfl, rfl⟩ : s₁ = s.withQuotes s.redis.quotes ∧ r = .error .unavailable := by
    cases hrespond
    exact ⟨rfl, rfl⟩
  refine h.stays hreach hth hT (h.mirrors.idle le_rfl rfl fun q' => ?_) ⟨rfl, rfl, .get hshape⟩
  refine Sys.deleting_setThread_iff (s := s) rfl (Sys.deletes_ne_of_call hth rfl q') ?_
  -- it goes on with GET
  obtain ⟨k', hk, -⟩ := hshape.2 .unavailable
  simp only [hk]
  rintro ⟨⟩

/-- GET in the one run is GETDEL in the other. -/
lemma Simulates.get (h : Simulates cfg s Q T) (hreach : Reachable cfg s)
    (hok : Isolated s (.run t .ok)) {k k' : Except Exn (Option Quote) → Service Response}
    {r : Except Exn (Option Quote)}
    (hth : s.threads t = some ⟨l, .call (.redis (.get q)) k', true⟩)
    (hT : Level T t l (.redis (.getdel q)) k) (hshape : FallsBack (.call (.redis (.getdel q)) k))
    (hnone : k' (.ok none) = k (.ok none))
    (hsome : ∀ quote, ∃ k'', k' (.ok (some quote)) = .call (.redis (.del q)) k'' ∧
      k'' (.ok ()) = k (.ok (some quote)))
    (hrespond : s.respond t l.tx (.redis (.get q)) .ok = some (s₁, r)) :
    Matched cfg s Q T (s₁.setThread t ⟨l.after s.seq (.redis (.get q)) r, k' r, true⟩) := by
  have hfound := h.mirrors.found_eq hreach hok (Sys.next_call hth) rfl
  have hold := Sys.deletes_ne_of_call hth rfl
  obtain ⟨rfl, rfl⟩ : s₁ = s.withQuotes s.redis.quotes ∧
      r = .ok (live (s.redis.quotes q) s.now) := by
    cases hrespond
    exact ⟨rfl, rfl⟩
  refine h.answered hT (execRedis_getdel hfound) ?_ ?_
  · cases hlive : live (s.redis.quotes q) s.now with
    | none =>
      have hnew (q' : QuoteId) := deletes_of_step hreach (Sys.step_respond hth hrespond)
        (by rw [hlive, hnone]; exact fun _ => hshape.1 none) q'
      rw [hlive] at hnew
      refine h.mirrors.change q le_rfl
        (fun q' _ => Sys.deleting_setThread_iff rfl (hold q') (hnew q'))
        (fun q' hne => Function.update_of_ne hne _ _) (fun _ _ => rfl)
        (fun _ time _ => live_deleted Q q time) fun _ time htime => ?_
      exact (live_deleted Q q time).trans (live_eq_none_of_le hlive htime).symm
    | some quote =>
      obtain ⟨k'', hdel, -⟩ := hsome quote
      rw [hdel]
      refine h.mirrors.change q le_rfl (fun q' hne => ?_)
        (fun q' hne => Function.update_of_ne hne _ _) (fun _ _ => rfl)
        (fun _ time _ => live_deleted Q q time) fun hq => ?_
      · refine Sys.deleting_setThread_iff rfl (hold q') ?_
        rintro ⟨⟩
        exact hne rfl
      · exact absurd ((Sys.deleting_setThread (s := s) rfl).mpr (Or.inl rfl)) hq
  · cases hlive : live (s.redis.quotes q) s.now with
    | none =>
      rw [hnone]
      exact ⟨rfl, rfl, .same fun _ => hshape.1 none⟩
    | some quote =>
      obtain ⟨k'', hdel, hgo⟩ := hsome quote
      rw [hdel, ← hgo]
      refine ⟨rfl, rfl, .del (hgo ▸ hshape.1 (some quote)) ⟨quote, rfl, ?_⟩⟩
      exact ((inv_of_reachable hreach).quote_of_live hlive).1

/-- DEL works in the one run, and there is nothing left to do in the other. -/
lemma Simulates.del (h : Simulates cfg s Q T) (hreach : Reachable cfg s)
    {k : Except Exn Unit → Service Response} {r : Except Exn Unit}
    (hth : s.threads t = some ⟨l, .call (.redis (.del q)) k, true⟩)
    (hT : T t = some ⟨l.forget, k (.ok ()), true⟩) (hshape : FallsBack (k (.ok ())))
    (hrespond : s.respond t l.tx (.redis (.del q)) .ok = some (s₁, r)) :
    Matched cfg s Q T (s₁.setThread t ⟨l.after s.seq (.redis (.del q)) r, k r, true⟩) := by
  obtain ⟨rfl, rfl⟩ : s₁ = s.withQuotes (Function.update s.redis.quotes q none) ∧ r = .ok () := by
    cases hrespond
    exact ⟨rfl, rfl⟩
  have hgone := h.mirrors.deleting q ⟨t, by rw [Sys.next_call hth]; rfl⟩
  have hnew := deletes_of_step hreach (Sys.step_respond hth hrespond) fun _ => hshape
  refine h.stays hreach hth hT ?_ ⟨rfl, rfl, .same fun _ => hshape⟩
  refine h.mirrors.change q le_rfl (fun q' hne => ?_) (fun _ _ => rfl)
    (fun q' hne => Function.update_of_ne hne _ _) (fun _ => hgone) fun _ time htime => ?_
  · refine Sys.deleting_setThread_iff (s := s) rfl ?_ (hnew q')
    rw [Sys.next_call hth]
    rintro ⟨⟩
    exact hne rfl
  · exact (hgone time htime).trans (live_deleted s.redis.quotes q time).symm

end Steps

lemma Simulates.run (h : Simulates cfg s Q T) (hreach : Reachable cfg s)
    (hrun : Runs cfg GetdelAvailable Sys.initial (s.patch Q T)) {choice : Choice}
    (hok : Isolated s (.run t choice)) {l : Local} {c : Cmd}
    {k : Except Exn c.Ret → Service Response} {r : Except Exn c.Ret}
    (hth : s.threads t = some ⟨l, .call c k, true⟩)
    (hrespond : s.respond t l.tx c choice = some (s₁, r)) :
    Matched cfg s Q T (s₁.setThread t ⟨l.after s.seq c r, k r, true⟩) := by
  have hguard := (inv_of_reachable hreach).guard hth
  have hnext := Sys.next_call hth
  obtain ⟨⟨l', p, alive⟩, hT, ⟨rfl, rfl, hbehind⟩⟩ := h.threads t _ hth
  generalize hp : Prog.call c k = p₀ at hbehind
  cases hbehind with
  | same hshape =>
    subst hp
    rcases c.leavesQuotes_or with hc | ⟨q, rfl | rfl | rfl⟩
    · cases hset : c.sets with
      | none => exact h.idle hreach hth hT hshape hc (fun _ => hset) hrespond
      | some w =>
        cases choice with
        | ok =>
          unfold Cmd.sets at hset
          split at hset
          · exact h.set hreach hrun hth hT hshape hrespond
          · cases hset
        | _ => exact h.idle hreach hth hT hshape hc Choice.noConfusion hrespond
    · cases choice with
      | ok => exact h.getdel hreach hok hth hT (hshape ⟨q, hguard.1⟩) hrespond
      | fail => exact h.fallBack hreach hth hT (hshape ⟨q, hguard.1⟩) hrespond
      | rates rates => cases hrespond
    · exact (hshape ⟨q, hguard.1⟩).elim
    · exact (hshape ⟨q, hguard.1⟩).elim
  | get hshape =>
    obtain ⟨k', hk, hnone, hsome⟩ := hshape.2 _
    rw [hk] at hp
    cases hp
    cases choice with
    | ok => exact h.get hreach hok hth hT hshape hnone hsome hrespond
    | fail =>
      rw [Isolated, hnext] at hok
      cases hok.1
    | rates rates => cases hrespond
  | del hshape =>
    cases hp
    cases choice with
    | ok => exact h.del hreach hth hT hshape hrespond
    | fail =>
      rw [Isolated, hnext] at hok
      cases hok.2
    | rates rates => cases hrespond

theorem Simulates.step (h : Simulates cfg s Q T) (hreach : Reachable cfg s)
    (hrun : Runs cfg GetdelAvailable Sys.initial (s.patch Q T)) (hok : Isolated s e)
    (hstep : s.step cfg e = some s') : Matched cfg s Q T s' := by
  cases Sys.step_of_eq hstep with
  | spawn req => exact h.spawn hreach req
  | run hth hrespond => exact h.run hreach hrun hok hth hrespond
  | crash hth => exact h.crash hth hok
  | tick ms => exact h.tick ms

/-! ## The outcomes -/

/-- The requests of `s` are answered in `s'` as they are in `s`, over the same database; any others
that there are in `s'` have not begun. -/
structure SameOutcomes (cfg : Config) (s s' : Sys) : Prop where
  db : s'.db = s.db
  answers : ∀ t th, s.threads t = some th → ∃ th', s'.threads t = some th' ∧
    th'.state.req = th.state.req ∧ ∀ a, th.answer = some a → th'.answer = some a
  others : ∀ t th', s'.threads t = some th' → s.threads t = none →
    ∃ req : Request, th' = req.arrived cfg

/-- A thread that has answered is not behind. -/
lemma Shadows.answer {th th' : Thread} (h : Shadows th th') {a : Except Exn Response}
    (ha : th.answer = some a) : th'.answer = some a := by
  obtain ⟨l, p, alive⟩ := th
  obtain ⟨l', p', alive'⟩ := th'
  obtain ⟨-, rfl, hbehind⟩ := h
  cases hbehind with
  | same => exact ha
  | @get q k e hshape =>
    obtain ⟨k', hk, -⟩ := hshape.2 e
    rw [hk] at ha
    cases alive' <;> cases ha
  | del => cases alive' <;> cases ha

lemma Simulates.sameOutcomes (h : Simulates cfg s Q T) : SameOutcomes cfg s (s.patch Q T) := by
  refine ⟨rfl, fun t th hth => ?_, h.others⟩
  obtain ⟨th', hT, hshadows⟩ := h.threads t th hth
  refine ⟨th', hT, ?_, fun a ha => hshadows.answer ha⟩
  rw [hshadows.state]
  rfl

lemma SameOutcomes.consumed (h : SameOutcomes cfg s s') {th : Thread}
    (hth : s.threads t = some th) {found : Option Quote} (hconsumed : th.consumed = some found) :
    ∃ th', s'.threads t = some th' ∧ th'.consumed = some found := by
  obtain ⟨th', hth', -, hanswer⟩ := h.answers t th hth
  refine ⟨th', hth', ?_⟩
  rw [Thread.consumed, hanswer _ (Thread.answer_of_consumed hconsumed)]

/-- While GETDEL works, at most one call gets a quote. -/
lemma consumed_once (h : Runs cfg GetdelAvailable Sys.initial s) {t' : Tid} {th th' : Thread}
    {quote quote' : Quote} (hth : s.threads t = some th) (hth' : s.threads t' = some th')
    (hconsumed : th.consumed = some (some quote)) (hconsumed' : th'.consumed = some (some quote'))
    (hid : quote.id = quote'.id) : t = t' :=
  have hreach := reachable_of_runs h
  (inCustody_of_runs h).exclusive.single t t' quote quote'
    (hand_of_consumed hreach hth hconsumed) (hand_of_consumed hreach hth' hconsumed') hid

/-- If nobody finds a quote between the GET and the DEL of another call, the outcomes are those
of a run in which GETDEL works, and at most one call gets a quote. -/
theorem fallback_equivalent (h : Runs cfg Isolated Sys.initial s) :
    (∃ s', Runs cfg GetdelAvailable Sys.initial s' ∧ SameOutcomes cfg s s') ∧
      ∀ t t' th th' quote quote', s.threads t = some th → s.threads t' = some th' →
        th.consumed = some (some quote) → th'.consumed = some (some quote') →
        quote.id = quote'.id → t = t' := by
  have hsimulated : ∃ s', Runs cfg GetdelAvailable Sys.initial s' ∧
      ∃ Q T, s' = s.patch Q T ∧ Simulates cfg s Q T := by
    refine h.simulate (R := fun s s' => ∃ Q T, s' = s.patch Q T ∧ Simulates cfg s Q T)
      ⟨_, _, rfl, simulates_initial⟩ ?_
    rintro s e s₁ - hrun hrun' ⟨Q, T, rfl, hsimulates⟩ hok hstep
    obtain ⟨Q', T', hmatch, hsimulates'⟩ :=
      hsimulates.step (reachable_of_runs hrun) hrun' hok hstep
    exact ⟨_, hmatch, Q', T', rfl, hsimulates'⟩
  obtain ⟨s', hrun, Q, T, rfl, hsimulates⟩ := hsimulated
  have hsame := hsimulates.sameOutcomes
  refine ⟨⟨_, hrun, hsame⟩, fun t t' th th' quote quote' hth hth' hquote hquote' hid => ?_⟩
  obtain ⟨th₁, hT, hfound⟩ := hsame.consumed hth hquote
  obtain ⟨th₂, hT', hfound'⟩ := hsame.consumed hth' hquote'
  exact consumed_once hrun hT hT' hfound hfound' hid

/-- The owner's call falls back, and gets the quote as it would by GETDEL. -/
theorem fallback_equivalent_alone : ∃ s s' th' quote, Runs {} Isolated Sys.initial s ∧
    Runs {} GetdelAvailable Sys.initial s' ∧ SameOutcomes {} s s' ∧ s'.threads 6 = some th' ∧
    th'.consumed = some (some quote) := by
  have hplay : (runAll (Sys.step {}) Isolated Sys.initial (quoteRun ++
      [.spawn (.consumeQuote 1 3), .run 6 .fail, .run 6 .ok, .run 6 .ok])).any (fun s =>
        (s.threads 6).any fun th => (th.consumed.bind id).isSome) = true := by decide +kernel
  obtain ⟨s, hrun, hs⟩ := exists_of_runAll hplay
  simp only [Option.any_eq_true, Option.isSome_iff_exists, Option.bind_eq_some_iff, id_eq,
    exists_eq_right] at hs
  obtain ⟨th, hth, quote, hconsumed⟩ := hs
  obtain ⟨⟨s', hrun', hsame⟩, -⟩ := fallback_equivalent hrun
  obtain ⟨th', hth', hconsumed'⟩ := hsame.consumed hth hconsumed
  exact ⟨s, s', th', quote, hrun, hrun', hsame, hth', hconsumed'⟩

/-- GETDEL fails for two calls of the owner.  Both find the quote before either has deleted it,
and so both return it; in no run in which GETDEL works are they answered so. -/
theorem quote_returned_twice : ∃ s th th' quote, Runs {} OnlyGetdelFails Sys.initial s ∧
    s.threads 6 = some th ∧ s.threads 7 = some th' ∧ th.consumed = some (some quote) ∧
    th'.consumed = some (some quote) ∧
    ∀ s', Runs {} GetdelAvailable Sys.initial s' → ¬ SameOutcomes {} s s' := by
  have hplay : (runAll (Sys.step {}) OnlyGetdelFails Sys.initial (quoteRun ++
      [.spawn (.consumeQuote 1 3), .spawn (.consumeQuote 1 3), .run 6 .fail, .run 7 .fail,
        .run 6 .ok, .run 7 .ok, .run 6 .ok, .run 7 .ok])).any (fun s =>
        (s.threads 6).any fun th => (s.threads 7).any fun th' =>
          (th.consumed.bind id).any fun quote => th.consumed = some (some quote) ∧
            th'.consumed = some (some quote)) = true := by decide +kernel
  obtain ⟨s, hrun, hs⟩ := exists_of_runAll hplay
  simp only [Option.any_eq_true, decide_eq_true_eq] at hs
  obtain ⟨th, hth, th', hth', quote, -, hconsumed, hconsumed'⟩ := hs
  refine ⟨s, th, th', quote, hrun, hth, hth', hconsumed, hconsumed', fun s' hrun' hsame => ?_⟩
  obtain ⟨th₁, hth₁, hfound₁⟩ := hsame.consumed hth hconsumed
  obtain ⟨th₂, hth₂, hfound₂⟩ := hsame.consumed hth' hconsumed'
  exact absurd (consumed_once hrun' hth₁ hth₂ hfound₁ hfound₂ rfl) (by decide)

end FxExchange
