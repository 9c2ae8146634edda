import FxExchange.Lib.TimedLock
import FxExchange.Model.Fx
import FxExchange.Proofs.Commands
import FxExchange.Proofs.Duplicates

/-
# The wallet lock

The actions that `fundWallet`, `convertFunds` and `executeTrade` run under the wallet lock of
a user.  The lock is granted for `LOCK_TTL_MS` and never extended, so it keeps two of them
apart as long as each comes to its end before that time is over.  Nothing sees to that: an
action that waits for the rates may wait longer, and then the next one starts beside it.
-/

namespace FxExchange

open Transition
open Custody (live live_eq_some_iff)
open Prog (Issues issues_command issues_tryCatch issues_throwIf issues_mono wp_bind wp_tryCatch
  wp_tryFinally wp_command wp_mono wp_of_issues)

variable {cfg : Config} {s s' s₁ : Sys} {t : Tid} {e : Event} {u : UserId} {α β : Type}

/-! ## Actions -/

/-- The command gives the wallet lock back. -/
def Cmd.releases : Cmd → Bool
  | .redis (.release _) => true
  | _ => false

/-- The thread is between the start and the end of the action that it runs under the wallet
lock. -/
def Thread.inAction (th : Thread) : Bool :=
  th.state.trail.inLock && th.next.any fun c => !c.releases

namespace Sys

/-- `t` is in an action of the user. -/
abbrev Acts (s : Sys) (u : UserId) (t : Tid) : Prop :=
  ∃ th ∈ s.threads t, th.state.req.userId = u ∧ th.inAction = true

/-- No two actions of the user are under way. -/
def Exclusive (s : Sys) (u : UserId) : Prop := ∀ t t', s.Acts u t → s.Acts u t' → t = t'

/-- The time after an event. -/
def timeAfter (s : Sys) : Event → ℕ
  | .tick ms => s.now + ms
  | _ => s.now

lemma now_le_timeAfter (s : Sys) (e : Event) : s.now ≤ s.timeAfter e := by
  cases e with
  | tick ms => exact Nat.le_add_right _ _
  | _ => exact le_rfl

/-- The wallet lock of the user. -/
def walletLock (s : Sys) (u : UserId) : TimedLock.State Tid where
  holder := s.redis.locks u
  acting := { t | s.Acts u t }
  now := s.now

end Sys

/-- Each action of the user that is under way is still within the time for which it was
granted the lock, and so it is after the event. -/
def InTime (u : UserId) (s : Sys) (e : Event) : Prop :=
  ∀ t < s.seq, s.Acts u t → ∀ lock ∈ s.redis.locks u, lock.1 = t → s.timeAfter e < lock.2

instance (u : UserId) (s : Sys) (e : Event) : Decidable (InTime u s e) :=
  inferInstanceAs (Decidable (∀ t < s.seq, _))

/-! ## The end of a request -/

/-- Nothing is asked for after the wallet lock has been given back. -/
def closing : Discipline Cmd.Ret Exn Bool where
  guard closed _ := closed = false
  outcome _ c _ closed' := closed' = c.releases

/-- Any end of a program will do. -/
def Anyhow {L : Type} (_ : L) (_ : Except Exn α) : Prop := True

lemma Cmd.releases_of_plain {c : Cmd} (h : c.plain = true) : c.releases = false := by
  cases c with
  | redis c => cases c <;> first | rfl | cases h
  | _ => rfl

/-- A program that leaves the lock alone. -/
lemma closing_of_issues {p : Service α} (hp : p.Issues fun c => c.releases = false) :
    p.wp closing (fun closed _ => closed = false) false :=
  wp_of_issues hp rfl fun _ _ hc hopen => ⟨hopen, fun _ _ hclosed => hclosed.trans hc⟩

lemma closing_bind {p : Service α} {f : α → Service β}
    (hp : p.Issues fun c => c.releases = false) (hf : ∀ a, (f a).wp closing Anyhow false) :
    (p >>= f).wp closing Anyhow false := by
  refine wp_bind.mpr (wp_mono (fun closed r hopen => ?_) (closing_of_issues hp))
  subst hopen
  cases r with
  | ok a => exact hf a
  | error e => trivial

lemma closing_acquire {u : UserId} {action : Service α}
    (haction : action.Issues fun c => c.releases = false) :
    (acquire cfg u action).wp closing Anyhow false := by
  refine closing_bind (issues_tryCatch (issues_command rfl) fun _ => trivial) fun _ => ?_
  refine wp_tryFinally.mpr (wp_mono (fun closed r hopen => ?_) (closing_of_issues haction))
  refine wp_tryCatch.mpr (wp_command.mpr ⟨hopen, fun r' closed' _ => ?_⟩)
  cases r' <;> trivial

lemma closing_fundWallet {currency : String} {amount : JsNumber} {k : String} :
    (fundWallet cfg u currency amount k).wp closing Anyhow false := by
  refine closing_bind issues_requireSupported fun c => ?_
  refine closing_bind issues_requirePositiveInteger fun a => ?_
  refine closing_bind (issues_command rfl) fun existing => ?_
  cases existing with
  | some journal => dsimp only; split <;> trivial
  | none =>
    exact closing_acquire (issues_fundWalletLocked
      fun c (_ : (Request.fundWallet u currency amount k).Uses c) => Cmd.releases_of_plain)

lemma closing_convertFunds {from_ to_ : String} {amount : JsNumber} {k : String}
    {context : ConvertContext} :
    (convertFunds cfg u from_ to_ amount k context).wp closing Anyhow false := by
  refine closing_bind issues_throwIf fun _ => ?_
  refine closing_bind issues_requireSupported fun f => ?_
  refine closing_bind issues_requireSupported fun t => ?_
  refine closing_bind issues_requirePositiveInteger fun a => ?_
  refine closing_bind (issues_command rfl) fun existing => ?_
  cases existing with
  | some journal => dsimp only; split <;> trivial
  | none =>
    exact closing_acquire (issues_convertFundsLocked
      fun c (_ : (Request.convertFunds u from_ to_ amount k context).Uses c) =>
        Cmd.releases_of_plain)

lemma closing_executeTrade {q : QuoteId} {k : String} :
    (executeTrade cfg u q k).wp closing Anyhow false := by
  refine closing_bind (issues_command rfl) fun existing => ?_
  cases existing with
  | some journal => dsimp only; split <;> trivial
  | none =>
    refine closing_bind (issues_consumeQuote ?_ rfl) fun found => ?_
    · rintro c (rfl | rfl | rfl | ⟨quote, ex, rfl⟩) <;> rfl
    · cases found with
      | none => trivial
      | some quote =>
        exact closing_acquire (issues_executeTradeLocked
          fun c (_ : (Request.executeTrade u q k).Uses c) => Cmd.releases_of_plain)

/-- The requests without an idempotency key have nothing to do with the lock. -/
lemma closing_program_of_key {req : Request} (hkey : req.key = none) :
    (req.program cfg).wp closing Anyhow false := by
  have hissues : (req.program cfg).Issues fun c => c.releases = false := by
    refine issues_mono (fun c huses => ?_) (program_issues cfg req)
    cases c with
    | redis c =>
      cases c with
      | release u =>
        obtain ⟨-, hsome⟩ := huses
        rw [hkey] at hsome
        cases hsome
      | _ => rfl
    | _ => rfl
  exact wp_mono (fun _ _ _ => trivial) (closing_of_issues hissues)

/-- What is made of a response does not matter. -/
lemma closing_map {p : Service α} {f : α → Response} (hp : p.wp closing Anyhow false) :
    (p >>= fun a => pure (f a)).wp closing Anyhow false :=
  wp_bind.mpr (wp_mono (fun _ r _ => by cases r <;> trivial) hp)

lemma closing_program (cfg : Config) (req : Request) :
    (req.program cfg).wp closing Anyhow false := by
  cases req with
  | fundWallet u c a k => exact closing_map closing_fundWallet
  | convertFunds u f t a k context => exact closing_map closing_convertFunds
  | executeTrade u q k => exact closing_map closing_executeTrade
  | _ => exact closing_program_of_key rfl

/-- A thread that gives the lock back has come to its end. -/
lemma next_eq_none_of_releases (h : Reachable cfg s) {l : Local} {c : Cmd}
    {k : Except Exn c.Ret → Service Response} (hth : s.threads t = some ⟨l, .call c k, true⟩)
    (hc : c.releases = true) (l' : Local) (r : Except Exn c.Ret) :
    (⟨l', k r, true⟩ : Thread).next = none := by
  obtain ⟨closed, -, hafter⟩ := forall_programs
    (P := fun _ p => ∃ closed, p.wp closing Anyhow closed) h
    (fun req => ⟨false, closing_program cfg req⟩)
    (fun s t choice l c k s₁ r _ _ _ _ hp => hp.imp' _ fun _ hp => hp.2 r _ rfl) hth rfl
  have hp := hafter r true hc.symm
  cases hk : k r with
  | call c' k' =>
    rw [hk] at hp
    cases hp.1
  | _ => rfl

/-! ## The lock -/

/-- What a command does to the wallet lock. -/
lemma Sys.Served.walletLock {tx : Option Tx} {c : Cmd} {r : Except Exn c.Ret}
    (h : s.Served t tx c s₁ r) (u : UserId) :
    (s₁.redis.locks u = s.redis.locks u ∧ ∀ ttl, c = .redis (.acquire u ttl) → ∃ e, r = .error e) ∨
    (∃ ttl, c = .redis (.acquire u ttl) ∧ live (s.redis.locks u) s.now = none ∧
      s₁.redis.locks u = some (t, s.now + ttl)) ∨
    (c = .redis (.release u) ∧ live (s.redis.locks u) s.now = some t ∧
      s₁.redis.locks u = none) := by
  cases h with
  | @redis c redis r hexec =>
    cases c with
    | acquire u' ttl =>
      simp only [execRedis] at hexec
      split at hexec
      · cases hexec
      · rename_i hfree
        cases hexec
        rcases eq_or_ne u' u with rfl | hne
        · exact Or.inr (Or.inl ⟨ttl, rfl, hfree, Function.update_self ..⟩)
        · refine Or.inl ⟨Function.update_of_ne hne.symm .., fun ttl' heq => ?_⟩
          cases heq
          exact absurd rfl hne
    | release u' =>
      simp only [execRedis] at hexec
      split at hexec
      · rename_i hown
        cases hexec
        rcases eq_or_ne u' u with rfl | hne
        · exact Or.inr (Or.inr ⟨rfl, hown, Function.update_self ..⟩)
        · exact Or.inl ⟨Function.update_of_ne hne.symm .., by simp⟩
      · cases hexec
        exact Or.inl ⟨rfl, by simp⟩
    | _ =>
      cases hexec
      exact Or.inl ⟨rfl, by simp⟩
  | failed c e => exact Or.inl ⟨rfl, fun _ _ => ⟨e, rfl⟩⟩
  | _ => exact Or.inl ⟨rfl, by simp⟩

/-- A failing command does not bring a thread under the lock. -/
lemma Local.afterError_inLock {l : Local} {c : Cmd} :
    (l.afterError c).trail.inLock = l.trail.inLock := by
  cases c with
  | redis c => cases c <;> rfl
  | _ => rfl

/-- A thread that is in an action after its command has been so before, or it has just got
the lock. -/
lemma Sys.of_acts_self (h : Reachable cfg s) {l : Local} {c : Cmd}
    {k : Except Exn c.Ret → Service Response} (hth : s.threads t = some ⟨l, .call c k, true⟩)
    {r : Except Exn c.Ret} (hacts : (s₁.setThread t ⟨l.after s.seq c r, k r, true⟩).Acts u t) :
    l.req.userId = u ∧ c.releases = false ∧
      (l.trail.inLock = true ∨ ∃ ttl, c = .redis (.acquire u ttl) ∧ ∀ e, r ≠ .error e) := by
  obtain ⟨th, hth', hu, haction⟩ := hacts
  rw [setThread_self, Option.mem_some_iff] at hth'
  subst hth'
  obtain ⟨hlock, hnext⟩ := Bool.and_eq_true_iff.mp haction
  rw [Local.after_req] at hu
  refine ⟨hu, ?_, ?_⟩
  · by_contra hc
    rw [next_eq_none_of_releases h hth (Bool.eq_true_of_not_eq_false hc)] at hnext
    cases hnext
  · cases r with
    | error e => exact Or.inl (Local.afterError_inLock.symm.trans hlock)
    | ok a =>
      refine (Local.after_inLock hlock).imp_right ?_
      rintro ⟨u', ttl, rfl⟩
      have hguard : u' = l.req.userId := ((inv_of_reachable h).guard hth).1
      exact ⟨ttl, by rw [hguard, hu], by simp⟩

/-- The wallet lock of a user is a lock that expires: so it is granted and released, whatever
else happens. -/
theorem walletLock_step (h : Reachable cfg s) (hstep : s.step cfg e = some s') (u : UserId) :
    TimedLock.Step (s.walletLock u) (s'.walletLock u) := by
  have hinv := inv_of_reachable h
  cases Sys.step_of_eq hstep with
  | spawn req =>
    refine .pass le_rfl ?_
    rintro t ⟨th, hth, hu, haction⟩
    rcases Sys.of_setThread hth with ⟨-, rfl⟩ | ⟨-, hold⟩
    · cases haction
    · exact ⟨th, hold, hu, haction⟩
  | tick ms => exact .pass (Nat.le_add_right _ _) subset_rfl
  | crash hth =>
    refine .pass le_rfl ?_
    rintro t ⟨th, hth', hu, haction⟩
    rcases Sys.of_setThread hth' with ⟨-, rfl⟩ | ⟨-, hold⟩
    · rw [Thread.inAction, Bool.and_eq_true_iff] at haction
      cases haction.2
    · exact ⟨th, hold, hu, haction⟩
  | @run t choice l c k s₁ r hth hrespond =>
    have hserved := Sys.served_of_eq hrespond
    obtain ⟨hthreads, -, hnow⟩ := hserved.frame
    have hguard := hinv.guard hth
    -- the other threads are where they were
    have hother {t' : Tid} (hne : t' ≠ t)
        (hacts : (s₁.setThread t ⟨l.after s.seq c r, k r, true⟩).Acts u t') : s.Acts u t' := by
      obtain ⟨th, hth', hrest⟩ := hacts
      rw [Sys.setThread_of_ne hne, hthreads] at hth'
      exact ⟨th, hth', hrest⟩
    have hin (hu : l.req.userId = u) (hc : c.releases = false) (hlock : l.trail.inLock = true) :
        s.Acts u t := ⟨_, hth, hu, by simp [Thread.inAction, Thread.next, hlock, hc]⟩
    show TimedLock.Step _ ⟨s₁.redis.locks u, _, s₁.now⟩
    rw [hnow]
    rcases hserved.walletLock u with ⟨hlocks, hfail⟩ | ⟨ttl, rfl, hfree, hlocks⟩ |
      ⟨rfl, hown, hlocks⟩
    · rw [hlocks]
      refine .pass le_rfl fun t' hacts => ?_
      rcases eq_or_ne t' t with rfl | hne
      · obtain ⟨hu, hc, hlock | ⟨ttl, rfl, hr⟩⟩ := Sys.of_acts_self h hth hacts
        · exact hin hu hc hlock
        · obtain ⟨e, rfl⟩ := hfail ttl rfl
          exact absurd rfl (hr e)
      · exact hother hne hacts
    · rw [hlocks]
      refine .grant t ttl hfree fun t' hacts => ?_
      rcases eq_or_ne t' t with rfl | hne
      · exact Set.mem_insert ..
      · exact Set.mem_insert_of_mem _ (hother hne hacts)
    · rw [hlocks]
      refine .release t hown fun t' hacts => ?_
      rcases eq_or_ne t' t with rfl | hne
      · obtain ⟨-, hc, -⟩ := Sys.of_acts_self h hth hacts
        cases hc
      · exact ⟨hother hne hacts, hne⟩

/-- In every run in which the actions of a user come to their end before their time under the
lock is over, one of them is under way at a time. -/
theorem actions_exclusive (h : Runs cfg (InTime u) Sys.initial s) : s.Exclusive u := by
  have hguarded : (s.walletLock u).Guarded := by
    refine h.invariant (I := fun s => (s.walletLock u).Guarded) ?_
      fun s e s' hrun hguarded hok hstep => ?_
    · rintro t ⟨th, hth, -⟩
      cases hth
    · have hreach := reachable_of_runs hrun
      have hin : (s.walletLock u).InTime (s.timeAfter e) := fun t hacts deadline hlock => by
        obtain ⟨th, hth, -⟩ := id hacts
        exact hok t ((inv_of_reachable hreach).lt_seq hth) hacts _ hlock rfl
      exact hguarded.step (hin.mono (s.now_le_timeAfter e)) (walletLock_step hreach hstep u)
  exact fun t t' hacts hacts' => hguarded.subsingleton hacts hacts'

/-- A funding takes nearly all of its time, and is done before the next one gets the lock. -/
def punctualRun : List Event :=
  let req (k : String) := Request.fundWallet 1 "USD" (.integer 500) k
  .spawn (req "fund") :: serve 1 2 ++ .tick 9999 :: serve 1 16 ++
    .tick 1 :: .spawn (req "again") :: serve 20 2

theorem actions_exclusive_punctual : ∃ s, Runs {} (InTime 1) Sys.initial s ∧ s.Acts 1 20 ∧
    s.Exclusive 1 := by
  have hplay : (runAll (Sys.step {}) (InTime 1) Sys.initial punctualRun).any
      (fun s => s.Acts 1 20) = true := by decide +kernel
  obtain ⟨s, hrun, hs⟩ := exists_of_runAll hplay
  exact ⟨s, hrun, of_decide_eq_true hs, actions_exclusive hrun⟩

/-! ## Actions that take too long -/

/-- Nothing fails, and no time passes. -/
def Instant (s : Sys) : Event → Prop
  | .tick _ => False
  | e => NoFailure s e

instance (s : Sys) : DecidablePred (Instant s)
  | .tick _ => isFalse id
  | .spawn _ => isTrue trivial
  | .crash _ => isFalse id
  | .run _ .fail => isFalse id
  | .run _ .ok => isTrue trivial
  | .run _ (.rates _) => isTrue trivial

/-- There is an idempotency key that no journal has. -/
lemma exists_unused_key (db : Database) (u : UserId) :
    ∃ k, db.findByIdempotencyKey u k = none := by
  obtain ⟨k, hk⟩ := Infinite.exists_notMem_finset
    (db.journals.map fun j => j.idempotencyKey).toFinset
  refine ⟨k, List.find?_eq_none.mpr fun j hj => ?_⟩
  simp only [decide_eq_true_eq]
  rintro ⟨-, rfl⟩
  exact hk (List.mem_toFinset.mpr (List.mem_map_of_mem hj))

/-- How a funding gets to its action, if its key is new. -/
lemma fundWallet_start (cfg : Config) (u : UserId) (k : String) :
    ∃ k₁ k₂ k₃, (Request.fundWallet u "USD" (.integer 1) k).program cfg =
        .call (.pool (.findByIdempotencyKey u k)) k₁ ∧
      k₁ (.ok none) = .call (.redis (.acquire u cfg.lockTtl)) k₂ ∧
      k₂ (.ok ()) = .call (.pool (.findByIdempotencyKey u k)) k₃ := by
  have hcurrency : supportedCurrency "USD" = some .usd := supportedCurrency_code .usd
  have hpos : ¬ (1 : ℤ) ≤ 0 := by decide
  simp only [Request.program, fundWallet, requireSupported, hcurrency, requirePositiveInteger,
    if_neg hpos]
  exact ⟨_, _, _, rfl, rfl, rfl⟩

/-- As soon as the lock has expired under an action, a funding of the same user gets it: then
two actions are under way. -/
theorem overlap_of_expired (h : Reachable cfg s) (hacts : s.Acts u t)
    (hexpired : live (s.redis.locks u) s.now = none) :
    ∃ s', Runs cfg Instant s s' ∧ ¬ s'.Exclusive u := by
  obtain ⟨th, hth, hrest⟩ := hacts
  have hne : t ≠ s.seq := ((inv_of_reachable h).lt_seq hth).ne
  obtain ⟨k, hk⟩ := exists_unused_key s.db u
  obtain ⟨k₁, k₂, k₃, hprogram, hk₁, hk₂⟩ := fundWallet_start cfg u k
  set req : Request := .fundWallet u "USD" (.integer 1) k
  -- it arrives
  set s₁ := s.setThread s.seq ⟨{ req }, .call (.pool (.findByIdempotencyKey u k)) k₁, true⟩
    with hs₁
  have hspawn : s.step cfg (.spawn req) = some s₁ := by
    rw [hs₁, ← hprogram]
    rfl
  -- it finds no journal
  have hfind : s₁.exec s.seq none (.pool (.findByIdempotencyKey u k)) = some (s₁, .ok none) := by
    rw [← hk]
    rfl
  have hstep₁ : s₁.step cfg (.run s.seq .ok) = _ := Sys.step_run (Sys.setThread_self _) hfind
  rw [hk₁] at hstep₁
  set l₁ := Local.after { req } s₁.seq (.pool (.findByIdempotencyKey u k)) (.ok none)
  set s₂ := s₁.setThread s.seq ⟨l₁, .call (.redis (.acquire u cfg.lockTtl)) k₂, true⟩
  -- it gets the lock
  have hacquire : s₂.exec s.seq l₁.tx (.redis (.acquire u cfg.lockTtl)) =
      some ({ s₂ with redis := { s.redis with
        locks := Function.update s.redis.locks u (some (s.seq, s.now + cfg.lockTtl)) } },
        .ok ()) := by
    show (execRedis s.redis s.now s.seq (.acquire u cfg.lockTtl)).map _ = _
    rw [execRedis, hexpired]
    rfl
  have hstep₂ : s₂.step cfg (.run s.seq .ok) = _ := Sys.step_run (Sys.setThread_self _) hacquire
  rw [hk₂] at hstep₂
  have hinstant (s' : Sys) : Instant s' (.run s.seq .ok) := trivial
  have harrives : Instant s (.spawn req) := trivial
  refine ⟨_, ((Runs.refl.tail harrives hspawn).tail (hinstant _) hstep₁).tail (hinstant _) hstep₂,
    fun hexclusive => hne (hexclusive t s.seq ⟨th, ?_, hrest⟩ ⟨_, Sys.setThread_self _, rfl, rfl⟩)⟩
  rw [Sys.setThread_of_ne hne]
  show s₂.threads t = some th
  rw [Sys.setThread_of_ne hne, Sys.setThread_of_ne hne]
  exact hth

/-- Nothing fails, and the only time that passes is a part of what a single request for the
rates may take. -/
def AwaitsRates (axiosRetry : AxiosRetry) (fx : FxConfig) (cfg : Config) (s : Sys) : Prop :=
  ∃ t s₀ s₁ ms total, Runs cfg Instant Sys.initial s₀ ∧ s₀.next t = some .getRates ∧
    fx.Takes axiosRetry 0 total ∧ ms ≤ total ∧ s₀.step cfg (.tick ms) = some s₁ ∧
    Runs cfg Instant s₁ s

/-- The command asks for the rates. -/
def Cmd.asksRates : Cmd → Bool
  | .getRates => true
  | _ => false

/-- A conversion waits for the rates, and the second attempt of the FX provider takes as long
as the lock is granted for. -/
theorem lock_outlived_by_rates : ¬ ∃ axiosRetry : AxiosRetry, ∀ (fx : FxConfig) (cfg : Config)
    (u : UserId) (s : Sys), fx.Valid → AwaitsRates axiosRetry fx cfg s → s.Exclusive u := by
  rintro ⟨axiosRetry, hclaim⟩
  have hplay : (runAll (Sys.step {}) Instant Sys.initial
      (.spawn (.convertFunds 1 "USD" "EUR" (.integer 100) "convert" .convert) :: serve 1 2)).any
        (fun s₀ => (s₀.next 1).any Cmd.asksRates ∧ s₀.Acts 1 1 ∧
          live (s₀.redis.locks 1) (s₀.now + 10000) = none) = true := by decide +kernel
  obtain ⟨s₀, hrun₀, hs₀⟩ := exists_of_runAll hplay
  simp only [Bool.decide_and, Bool.and_eq_true, decide_eq_true_eq, Option.any_eq_true] at hs₀
  obtain ⟨⟨c, hnext, hc⟩, hacts, hexpired⟩ := hs₀
  obtain rfl : c = .getRates := by
    cases c with
    | getRates => rfl
    | _ => cases hc
  have htick : s₀.step {} (.tick 10000) = some { s₀ with now := s₀.now + 10000 } := rfl
  have hreach : Reachable {} { s₀ with now := s₀.now + 10000 } :=
    (reachable_of_runs hrun₀).tail trivial htick
  obtain ⟨s, hrun, hoverlap⟩ := overlap_of_expired hreach hacts hexpired
  obtain ⟨total, htakes, hle⟩ : ∃ total, FxConfig.Takes {} axiosRetry 0 total ∧
      FxConfig.timeout {} (0 + 1) ≤ total := FxConfig.exists_takes (by decide)
  have hvalid : FxConfig.Valid {} := ⟨by decide, by decide, by decide⟩
  exact hoverlap (hclaim {} {} 1 s hvalid
    ⟨1, s₀, _, 10000, total, hrun₀, hnext, htakes, hle, htick, hrun⟩)

end FxExchange
