import FxExchange.Model.Platform
import FxExchange.Proofs.RateCalls
import FxExchange.Proofs.Site
import FxExchange.Proofs.Terms

/-
# The platform

Seen from the site, a call of `getRates` is one command.  What it throws goes through the request
to its client without anything else being different.
-/

namespace FxExchange

open FxService Service Transition
open Prog (Issues Transparent ThrowsOn issues_bind issues_command issues_tryCatch issues_tryFinally
  issues_throwIf throwsOn_tryCatch transparent_bind transparent_command transparent_of_issues
  transparent_tryFinally)

variable {env : PlatformEnv} {cfg : Config} {p p' : Platform} {s s' s₁ : Sys} {t : Tid}
  {u : UserId} {α : Type}

/-! ## What requests do with a failure of `getRates` -/

/-- Any command but that for the rates. -/
def Quiet (c : Cmd) : Prop := c ≠ .getRates

lemma quiet_consumeQuote {q : QuoteId} : (consumeQuote q u).Issues Quiet :=
  issues_consumeQuote (fun _ _ => Cmd.noConfusion) Cmd.noConfusion

lemma quiet_findOrCreateWallet : (findOrCreateWallet u).Issues Quiet :=
  issues_findOrCreateWallet Cmd.noConfusion Cmd.noConfusion

lemma quiet_fundWallet {currency k : String} {amount : JsNumber} :
    (fundWallet cfg u currency amount k).Issues Quiet := by
  refine issues_bind issues_requireSupported fun c => ?_
  refine issues_bind issues_requirePositiveInteger fun a => ?_
  refine issues_bind (issues_command Cmd.noConfusion) fun existing => ?_
  cases existing with
  | some journal => dsimp only; split <;> trivial
  | none =>
    refine issues_acquire Cmd.noConfusion Cmd.noConfusion ?_
    refine issues_bind (issues_command Cmd.noConfusion) fun replay => ?_
    split
    · trivial
    · refine issues_bind quiet_findOrCreateWallet fun _ => ?_
      refine issues_bind (issues_command Cmd.noConfusion) fun _ => ?_
      refine issues_inTransaction ?_ Cmd.noConfusion fun _ => trivial
      exact issues_fundWalletTx (fun _ => Cmd.noConfusion) Cmd.noConfusion Cmd.noConfusion

lemma quiet_executeTrade {q : QuoteId} {k : String} :
    (executeTrade cfg u q k).Issues Quiet := by
  refine issues_bind (issues_command Cmd.noConfusion) fun existing => ?_
  cases existing with
  | some journal => dsimp only; split <;> trivial
  | none =>
    refine issues_bind quiet_consumeQuote fun found => ?_
    cases found with
    | none => trivial
    | some quote =>
      refine issues_acquire Cmd.noConfusion Cmd.noConfusion ?_
      refine issues_bind quiet_findOrCreateWallet fun _ => ?_
      refine issues_bind (issues_command Cmd.noConfusion) fun _ => ?_
      refine issues_inTransaction ?_ Cmd.noConfusion fun _ => ?_
      · exact issues_executeTradeTx (fun _ => Cmd.noConfusion) Cmd.noConfusion Cmd.noConfusion
          Cmd.noConfusion
      · exact issues_tryCatch (issues_bind (issues_command Cmd.noConfusion) fun _ => trivial)
          fun _ => trivial

lemma quiet_getWallet : (getWallet u).Issues Quiet := by
  refine issues_bind (issues_tryCatch (issues_command Cmd.noConfusion) fun _ => trivial)
    fun cached => ?_
  cases cached with
  | some wallet => trivial
  | none =>
    refine issues_bind (issues_command Cmd.noConfusion) fun wallet => ?_
    have hstore (w : WalletResponse) : (Prog.tryCatch (issue (.redis (.setWallet u w 3600)))
        fun _ => pure ()).Issues Quiet :=
      issues_tryCatch (issues_command Cmd.noConfusion) fun _ => trivial
    cases wallet with
    | some wallet =>
      exact issues_bind trivial fun result => issues_bind (hstore _) fun _ => trivial
    | none =>
      refine issues_bind (issues_command Cmd.noConfusion) fun _ =>
        issues_bind trivial fun result => ?_
      exact issues_bind (hstore _) fun _ => trivial

/-- The lock is let go of, and the exception is thrown on. -/
lemma transparent_acquire {action : Service α} (h : action.Transparent Quiet) :
    (acquire cfg u action).Transparent Quiet := by
  have hrelease : (redlockRelease u).Issues Quiet := issues_command Cmd.noConfusion
  refine transparent_bind (transparent_of_issues (issues_tryCatch
    (issues_command Cmd.noConfusion) fun _ => trivial)) fun _ => ?_
  exact transparent_tryFinally h (issues_tryCatch hrelease fun _ => trivial)
    (throwsOn_tryCatch hrelease .throw)

lemma transparent_convertFunds {from_ to_ k : String} {amount : JsNumber}
    {context : ConvertContext} :
    (convertFunds cfg u from_ to_ amount k context).Transparent Quiet := by
  refine transparent_bind (transparent_of_issues issues_throwIf) fun _ => ?_
  refine transparent_bind (transparent_of_issues issues_requireSupported) fun f => ?_
  refine transparent_bind (transparent_of_issues issues_requireSupported) fun t => ?_
  refine transparent_bind (transparent_of_issues issues_requirePositiveInteger) fun a => ?_
  refine transparent_bind transparent_command fun existing => ?_
  cases existing with
  | some journal => dsimp only; split <;> trivial
  | none =>
    refine transparent_acquire (transparent_bind transparent_command fun rates => ?_)
    refine transparent_of_issues (issues_bind issues_rateOf fun _ => ?_)
    refine issues_bind issues_rateOf fun _ => issues_bind issues_throwIf fun _ => ?_
    refine issues_bind quiet_findOrCreateWallet fun _ => ?_
    refine issues_bind (issues_command Cmd.noConfusion) fun _ => ?_
    refine issues_inTransaction ?_ Cmd.noConfusion fun _ => trivial
    exact issues_convertFundsTx (fun _ => Cmd.noConfusion) Cmd.noConfusion Cmd.noConfusion

lemma transparent_createQuote {from_ to_ : String} {amount : ℤ} :
    (createQuote cfg u from_ to_ amount).Transparent Quiet := by
  refine transparent_bind (transparent_of_issues issues_throwIf) fun _ => ?_
  refine transparent_bind (transparent_of_issues issues_requireSupported) fun f => ?_
  refine transparent_bind (transparent_of_issues issues_requireSupported) fun t => ?_
  refine transparent_bind (transparent_of_issues issues_throwIf) fun _ => ?_
  refine transparent_bind transparent_command fun rates => ?_
  refine transparent_bind (transparent_of_issues issues_rateOf) fun _ => ?_
  refine transparent_bind (transparent_of_issues issues_rateOf) fun _ => ?_
  refine transparent_bind (transparent_of_issues issues_throwIf) fun _ => ?_
  refine transparent_bind transparent_command fun _ => ?_
  refine transparent_bind transparent_command fun _ => ?_
  exact transparent_bind transparent_command fun _ => trivial

/-- No request catches what `getRates` throws. -/
theorem transparent_program (cfg : Config) (req : Request) :
    (req.program cfg).Transparent Quiet := by
  cases req with
  | fundWallet u c a k =>
    exact transparent_bind (transparent_of_issues quiet_fundWallet) fun _ => trivial
  | convertFunds u f t a k context =>
    exact transparent_bind transparent_convertFunds fun _ => trivial
  | createQuote u f t a => exact transparent_bind transparent_createQuote fun _ => trivial
  | consumeQuote u q =>
    exact transparent_bind (transparent_of_issues quiet_consumeQuote) fun _ => trivial
  | executeTrade u q k =>
    exact transparent_bind (transparent_of_issues quiet_executeTrade) fun _ => trivial
  | getWallet u =>
    exact transparent_bind (transparent_of_issues quiet_getWallet) fun _ => trivial

/-- A request that `getRates` has failed throws on what it is given. -/
lemma throwsOn_of_reachable (h : Reachable cfg s) {l : Local}
    {k : Except Exn VersionedRates → Service Response}
    (hth : s.threads t = some ⟨l, .call .getRates k, true⟩) :
    ThrowsOn Quiet fun e => k (.error e) := by
  have htransparent := forall_programs (P := fun _ p => p.Transparent Quiet) h
    (fun req => transparent_program cfg req)
    (fun s t choice l c k s₁ r _ _ _ _ hp => hp.2 r) hth rfl
  exact htransparent.1 fun hquiet => hquiet rfl

/-- The request calls `getRates`. -/
def Request.asksRates : Request → Bool
  | .convertFunds _ _ _ _ _ _ => true
  | .createQuote _ _ _ _ => true
  | _ => false

/-- Only conversions and quotes ask for rates. -/
lemma asksRates_of_reachable (h : Reachable cfg s) {l : Local}
    {k : Except Exn VersionedRates → Service Response}
    (hth : s.threads t = some ⟨l, .call .getRates k, true⟩) : l.req.asksRates = true := by
  have hquiet := forall_programs (P := fun l p => l.req.asksRates = false → p.Issues Quiet) h
    (fun req hreq => by
      cases req with
      | fundWallet u c a k => exact issues_bind quiet_fundWallet fun _ => trivial
      | consumeQuote u q => exact issues_bind quiet_consumeQuote fun _ => trivial
      | executeTrade u q k => exact issues_bind quiet_executeTrade fun _ => trivial
      | getWallet u => exact issues_bind quiet_getWallet fun _ => trivial
      | _ => cases hreq)
    (fun s t choice l c k s₁ r _ _ _ _ hp hreq => (hp (Local.after_req ▸ hreq)).2 r) hth rfl
  cases hreq : l.req.asksRates with
  | true => rfl
  | false => exact absurd rfl (hquiet hreq).1

/-! ## Other exceptions -/

/-- Threads that differ, if at all, in the exception that they throw on. -/
inductive Masked (P : Request → Exn → Prop) : Option Thread → Option Thread → Prop
  | same (th : Option Thread) : Masked P th th
  | thrown {l : Local} {q : Exn → Service Response} {alive : Bool} {e : Exn}
      (hq : ThrowsOn Quiet q) (he : P l.req e) :
    Masked P (some ⟨l, q e, alive⟩) (some ⟨l, q .unavailable, alive⟩)

variable {P P' : Tid → Request → Exn → Prop}

lemma Masked.mono {P P' : Request → Exn → Prop} (hP : ∀ req e, P req e → P' req e)
    {th th' : Option Thread} (h : Masked P th th') : Masked P' th th' := by
  cases h with
  | same => exact .same _
  | thrown hq he => exact .thrown hq (hP _ _ he)

/-- The threads are in front of the same command, and whatever it is answered they go on alike. -/
lemma Masked.call {P : Request → Exn → Prop} {l : Local} {c : Cmd}
    {k : Except Exn c.Ret → Service Response} {th' : Option Thread}
    (h : Masked P (some ⟨l, .call c k, true⟩) th') :
    ∃ k', th' = some ⟨l, .call c k', true⟩ ∧ (¬ Quiet c → k' = k) ∧
      ∀ l', l'.req = l.req →
        (∀ alive, Masked P (some ⟨l', .call c k, alive⟩) (some ⟨l', .call c k', alive⟩)) ∧
        ∀ r alive, Masked P (some ⟨l', k r, alive⟩) (some ⟨l', k' r, alive⟩) := by
  generalize hth : some (⟨l, .call c k, true⟩ : Thread) = th at h
  cases h with
  | same => exact ⟨k, hth.symm, fun _ => rfl, fun _ _ => ⟨fun _ => .same _, fun _ _ => .same _⟩⟩
  | @thrown l₀ q alive e hq he =>
    obtain ⟨rfl, hprog, rfl⟩ := Thread.mk.inj (Option.some.inj hth)
    cases hq with
    | throw => cases hprog
    | @call c₀ k₀ hc hk =>
      cases hprog
      refine ⟨fun r => k₀ r .unavailable, rfl, fun hquiet => absurd hc hquiet, fun l' hreq => ?_⟩
      exact ⟨fun _ => .thrown (.call hc hk) (hreq ▸ he), fun r _ => .thrown (hk r) (hreq ▸ he)⟩

/-- States that differ, if at all, in the exceptions that some threads throw on. -/
structure Masks (P : Tid → Request → Exn → Prop) (s s' : Sys) : Prop where
  rest : s' = { s with threads := s'.threads }
  threads : ∀ t, Masked (P t) (s.threads t) (s'.threads t)

lemma Masks.mono (hP : ∀ t req e, P t req e → P' t req e) (h : Masks P s s') : Masks P' s s' :=
  ⟨h.rest, fun t => (h.threads t).mono (hP t)⟩

lemma Masks.setThread (h : Masks P s s') {th th' : Thread}
    (hth : Masked (P t) (some th) (some th')) :
    Masks P (s.setThread t th) (s'.setThread t th') := by
  constructor
  · rw [h.rest]
    rfl
  · intro t'
    rcases eq_or_ne t' t with rfl | hne
    · rw [Sys.setThread_self, Sys.setThread_self]
      exact hth
    · rw [Sys.setThread_of_ne hne, Sys.setThread_of_ne hne]
      exact h.threads t'

/-- A thread of the one is, but for its program, one of the other. -/
lemma Masks.exists_thread (h : Masks P s s') {th' : Thread} (hth' : s'.threads t = some th') :
    ∃ th, s.threads t = some th ∧ th.state = th'.state := by
  have hmasked := hth' ▸ h.threads t
  generalize s.threads t = o at hmasked
  generalize ho' : some th' = o' at hmasked
  cases hmasked with
  | same => exact ⟨th', ho'.symm, rfl⟩
  | thrown hq he =>
    obtain rfl := Option.some.inj ho'
    exact ⟨_, rfl, rfl⟩

/-- No command looks at the threads. -/
lemma Sys.respond_withThreads (threads : Tid → Option Thread) {tx : Option Tx} {c : Cmd}
    {choice : Choice} : ({ s with threads } : Sys).respond t tx c choice =
      (s.respond t tx c choice).map fun x => ({ x.1 with threads }, x.2) := by
  cases choice with
  | ok =>
    show exec _ t tx c = (s.exec t tx c).map _
    cases c with
    | tx c =>
      cases tx with
      | none => rfl
      | some tx =>
        simp only [exec]
        split
        · rfl
        · rw [Option.map_map]
          rfl
    | commit =>
      cases tx with
      | none => rfl
      | some tx =>
        simp only [exec]
        split <;> rfl
    | redis c =>
      simp only [exec, Option.map_map]
      rfl
    | _ => rfl
  | fail => cases c <;> rfl
  | rates r => cases c <;> rfl

/-- A step of the one is a step of the other. -/
lemma Masks.step (h : Masks P s s') {e : Event} (hstep : s.step cfg e = some s₁) :
    ∃ s₁', s'.step cfg e = some s₁' ∧ Masks P s₁ s₁' := by
  cases Sys.step_of_eq hstep with
  | spawn req =>
    have hseq : s'.seq = s.seq := by rw [h.rest]
    refine ⟨_, rfl, ?_⟩
    rw [hseq]
    exact h.setThread (.same _)
  | @run t choice l c k s₂ r hth hrespond =>
    obtain ⟨k', hth', -, hgo⟩ := (hth ▸ h.threads t).call
    have hrespond' : s'.respond t l.tx c choice =
        some ({ s₂ with threads := s'.threads }, r) := by
      rw [h.rest, Sys.respond_withThreads, hrespond]
      rfl
    have hseq : s'.seq = s.seq := by rw [h.rest]
    have hmasks : Masks P s₂ { s₂ with threads := s'.threads } := by
      refine ⟨rfl, ?_⟩
      rw [(Sys.served_of_eq hrespond).frame.1]
      exact h.threads
    refine ⟨_, Sys.step_respond hth' hrespond', hmasks.setThread ?_⟩
    rw [hseq]
    exact (hgo _ Local.after_req).2 r true
  | @crash t l c k hth =>
    obtain ⟨k', hth', -, hgo⟩ := (hth ▸ h.threads t).call
    have hmasks : Masks P { s with locks := s.locks.releaseAll t }
        { s' with locks := s'.locks.releaseAll t } := by
      refine ⟨?_, h.threads⟩
      rw [h.rest]
    refine ⟨({ s' with locks := s'.locks.releaseAll t }).setThread t
      ⟨{ l with tx := none }, .call c k', false⟩, ?_, hmasks.setThread ?_⟩
    swap
    · exact (hgo { l with tx := none } rfl).1 false
    simp only [Sys.step, hth', Option.bind_some]
    rfl
  | tick ms =>
    refine ⟨_, rfl, ?_, h.threads⟩
    rw [h.rest]

/-- What `getRates` throws in the one, is a failed command in the other. -/
lemma Masks.throwRates (h : Masks P s s') (hreach : Reachable cfg s') {e : Exn}
    (he : ∀ req, req.asksRates = true → P t req e)
    (hstep : (s.threads t).bind (s.throwRates t e) = some s₁) :
    ∃ s₁', s'.step cfg (.run t .fail) = some s₁' ∧ Masks P s₁ s₁' := by
  obtain ⟨th, hth, hthrow⟩ := Option.bind_eq_some_iff.mp hstep
  unfold Sys.throwRates at hthrow
  split at hthrow
  · rename_i l k
    obtain rfl := Option.some.inj hthrow
    obtain ⟨k', hth', hk, -⟩ := (hth ▸ h.threads t).call
    obtain rfl := hk fun hquiet => hquiet rfl
    have hseq : s'.seq = s.seq := by rw [h.rest]
    refine ⟨_, Sys.step_respond (r := .error .unavailable) hth' rfl, h.setThread ?_⟩
    exact .thrown (throwsOn_of_reachable hreach hth') (he _ (asksRates_of_reachable hreach hth'))
  · cases hthrow

/-! ## Steps -/

/-- A step of the site is one with other exceptions in it. -/
lemma Masks.siteStep {s s₁ : Site} {sys : Sys} (h : Masks P s.sys sys) {e : SiteEvent}
    (hstep : s.step env.http cfg e = some s₁) :
    ∃ sys₁, Site.step env.http cfg { s with sys } e = some { s₁ with sys := sys₁ } ∧
      Masks P s₁.sys sys₁ := by
  cases e with
  | http r =>
    simp only [Site.step] at hstep ⊢
    split at hstep
    · obtain rfl := Option.some.inj hstep
      exact ⟨sys, rfl, h⟩
    · obtain ⟨sys₁, hspawn, rfl⟩ := Option.map_eq_some_iff.mp hstep
      obtain ⟨sys₂, hspawn', hmasks⟩ := h.step hspawn
      have hseq : sys.seq = s.sys.seq := by rw [h.rest]
      refine ⟨sys₂, ?_, hmasks⟩
      rw [hspawn', hseq]
      rfl
    · obtain rfl := Option.some.inj hstep
      exact ⟨sys, rfl, h⟩
    · obtain rfl := Option.some.inj hstep
      exact ⟨sys, rfl, h⟩
  | auth e =>
    cases e with
    | tick ms => cases hstep
    | _ =>
      simp only [Site.step] at hstep
      obtain ⟨auth, hauth, rfl⟩ := Option.map_eq_some_iff.mp hstep
      exact ⟨sys, by simp only [Site.step, hauth, Option.map_some], h⟩
  | run t choice =>
    obtain ⟨sys₁, hrun, rfl⟩ := Option.map_eq_some_iff.mp hstep
    obtain ⟨sys₂, hrun', hmasks⟩ := h.step hrun
    exact ⟨sys₂, by simp only [Site.step, hrun', Option.map_some], hmasks⟩
  | crash t =>
    obtain ⟨sys₁, hcrash, rfl⟩ := Option.map_eq_some_iff.mp hstep
    obtain ⟨sys₂, hcrash', hmasks⟩ := h.step hcrash
    exact ⟨sys₂, by simp only [Site.step, hcrash', Option.map_some], hmasks⟩
  | tick ms =>
    simp only [Site.step] at hstep
    obtain ⟨auth, hauth, hstep⟩ := Option.bind_eq_some_iff.mp hstep
    obtain ⟨sys₁, htick, rfl⟩ := Option.map_eq_some_iff.mp hstep
    obtain ⟨sys₂, htick', hmasks⟩ := h.step htick
    exact ⟨sys₂, by simp only [Site.step, hauth, htick', Option.map_some, Option.bind_some], hmasks⟩

namespace Platform

/-- What can become of the platform: the site moves, requests begin to wait and time passes, or a
request is handed what it has waited for. -/
inductive Moves (env : PlatformEnv) (cfg : Config) (p : Platform) : Platform → Prop
  | site {e : SiteEvent} {site : Site} {rates : RatesState}
      (hsite : p.site.step env.http cfg e = some site)
      (hasks : ∀ t choice, e = .run t choice → p.asksRates t = false)
      (hrates : RatesState.Runs env.rates p.rates rates) : Moves env cfg p { p with site, rates }
  | calls {rates : RatesState} {calls : Tid → List ℕ} {waiting : Tid → Bool}
      (hrates : RatesState.Runs env.rates p.rates rates) (hcalls : ∀ t, p.calls t ⊆ calls t) :
    Moves env cfg p { p with rates, calls, waiting }
  | taken {t : Tid} {n : ℕ} {r : VersionedRates} {site : Site} (hn : n ∈ p.calls t)
      (hanswer : p.rates.answer n = some (.ok r))
      (hsite : p.site.step env.http cfg (.run t (.rates r)) = some site) :
    Moves env cfg p { p.take t with site }
  | thrown {t : Tid} {n : ℕ} {e : Exn} {sys : Sys} (hn : n ∈ p.calls t)
      (hanswer : p.rates.answer n = some (.error e))
      (hthrow : (p.site.sys.threads t).bind (p.site.sys.throwRates t e) = some sys) :
    Moves env cfg p { p.take t with site := { p.site with sys } }

lemma received_eq_some {a : Except Exn VersionedRates} (h : p.received t = some a) :
    ∃ n ∈ p.calls t, p.rates.answer n = some a := by
  unfold received at h
  split at h
  · obtain ⟨n, hn, ha⟩ := Option.bind_eq_some_iff.mp h
    exact ⟨n, List.mem_of_mem_head? hn, ha⟩
  · cases h

lemma moves_of_eq {e : PlatformEvent} (h : p.step env cfg e = some p') : Moves env cfg p p' := by
  cases e with
  | http r =>
    obtain ⟨site, hsite, h⟩ := Option.bind_eq_some_iff.mp h
    split at h
    · obtain ⟨rates, hrates, rfl⟩ := Option.map_eq_some_iff.mp h
      exact .site hsite (fun _ _ he => by cases he) (Runs.refl.tail trivial hrates)
    · obtain rfl := Option.some.inj h
      exact .site hsite (fun _ _ he => by cases he) .refl
  | auth e =>
    obtain ⟨site, hsite, rfl⟩ := Option.map_eq_some_iff.mp h
    exact .site hsite (fun _ _ he => by cases he) .refl
  | run t choice =>
    simp only [step] at h
    split at h
    · cases h
    · rename_i hasks
      obtain ⟨site, hsite, rfl⟩ := Option.map_eq_some_iff.mp h
      refine .site hsite (fun _ _ he => ?_) .refl
      obtain ⟨rfl, rfl⟩ := SiteEvent.run.inj he
      exact Bool.eq_false_of_not_eq_true hasks
  | ask t =>
    simp only [step] at h
    split at h
    · obtain ⟨rates, hrates, rfl⟩ := Option.map_eq_some_iff.mp h
      refine .calls (Runs.refl.tail trivial hrates) fun t' => ?_
      show p.calls t' ⊆ Function.update p.calls t (p.rates.seq :: p.calls t) t'
      rcases eq_or_ne t' t with rfl | hne
      · rw [Function.update_self]
        exact List.subset_cons_self _ _
      · rw [Function.update_of_ne hne]
        exact List.Subset.refl _
    · cases h
  | rates e =>
    have hcalls {rates : RatesState}
        (hrates : (ratesServer env.rates).step p.rates e = some rates) :
        Moves env cfg p { p with rates } :=
      .calls (Runs.refl.tail trivial hrates) fun _ => List.Subset.refl _
    cases e with
    | spawn q => cases h
    | tick ms => cases h
    | _ =>
      obtain ⟨rates, hrates, rfl⟩ := Option.map_eq_some_iff.mp h
      exact hcalls hrates
  | take t =>
    simp only [step] at h
    split at h
    · cases h
    · rename_i r hreceived
      obtain ⟨n, hn, hanswer⟩ := received_eq_some hreceived
      obtain ⟨site, hsite, rfl⟩ := Option.map_eq_some_iff.mp h
      exact .taken hn hanswer hsite
    · rename_i e hreceived
      obtain ⟨n, hn, hanswer⟩ := received_eq_some hreceived
      obtain ⟨sys, hthrow, rfl⟩ := Option.map_eq_some_iff.mp h
      exact .thrown hn hanswer hthrow
  | crash t =>
    obtain ⟨site, hsite, rfl⟩ := Option.map_eq_some_iff.mp h
    exact .site hsite (fun _ _ he => by cases he) .refl
  | tick ms =>
    simp only [step] at h
    obtain ⟨site, hsite, h⟩ := Option.bind_eq_some_iff.mp h
    obtain ⟨rates, hrates, rfl⟩ := Option.map_eq_some_iff.mp h
    exact .site hsite (fun _ _ he => by cases he) (Runs.refl.tail trivial hrates)

/-- The calls of `getRates` run like any others. -/
lemma rates_of_runs (h : Platform.Runs env cfg .initial p) :
    RatesState.Runs env.rates .initial p.rates := by
  refine h.invariant (I := fun p => RatesState.Runs env.rates .initial p.rates) .refl
    fun p e p' _ hrates _ hstep => ?_
  cases moves_of_eq hstep with
  | site _ _ hmore => exact hrates.trans hmore
  | calls hmore => exact hrates.trans hmore
  | _ => exact hrates

/-- A call of `getRates` that the request has made has come to this. -/
def Handed (p : Platform) (t : Tid) (a : Except Exn VersionedRates) : Prop :=
  ∃ n ∈ p.calls t, p.rates.answer n = some a

lemma Handed.mono {a : Except Exn VersionedRates} (h : p.Handed t a)
    (hbefore : RatesState.Runs env.rates .initial p.rates)
    (hrates : RatesState.Runs env.rates p.rates p'.rates) (hcalls : p.calls t ⊆ p'.calls t) :
    p'.Handed t a := by
  obtain ⟨n, hn, ha⟩ := h
  obtain ⟨th, hth, hanswer⟩ := Option.bind_eq_some_iff.mp ha
  have hth' := Interleaving.Server.thread_of_answer (runs_fresh hbefore) hrates hth hanswer
  exact ⟨n, hcalls hn, by rw [Interleaving.Pool.answer_eq hth', hanswer]⟩

/-- What has been handed to a request stays so. -/
lemma Moves.handed (h : Moves env cfg p p') (hbefore : RatesState.Runs env.rates .initial p.rates)
    {a : Except Exn VersionedRates} (ha : p.Handed t a) : p'.Handed t a := by
  cases h with
  | site _ _ hrates => exact ha.mono hbefore hrates (List.Subset.refl _)
  | calls hrates hcalls => exact ha.mono hbefore hrates (hcalls t)
  | _ => exact ha

/-- A request has been thrown this by a call of `getRates`. -/
def Thrown (p : Platform) (t : Tid) (req : Request) (e : Exn) : Prop :=
  p.Handed t (.error e) ∧ req.asksRates = true

/-- A run of the platform is one of the site in which what `getRates` throws is a command that
fails. -/
theorem masks_of_runs (h : Platform.Runs env cfg .initial p) :
    ∃ sys, Site.Runs env.http cfg anyStep .initial { p.site with sys } ∧
      Masks p.Thrown p.site.sys sys := by
  refine h.invariant (I := fun p => ∃ sys, Site.Runs env.http cfg anyStep .initial
    { p.site with sys } ∧ Masks p.Thrown p.site.sys sys) ?_ fun p e p' hrun hI _ hstep => ?_
  · exact ⟨.initial, .refl, rfl, fun _ => .same _⟩
  obtain ⟨sys, hsite, hmasks⟩ := hI
  have hmoves := moves_of_eq hstep
  have hmono : Masks p'.Thrown p.site.sys sys := hmasks.mono fun t req e ha =>
    ⟨hmoves.handed (rates_of_runs hrun) ha.1, ha.2⟩
  cases hmoves with
  | site hmoved =>
    obtain ⟨sys', hsite', hmasks'⟩ := hmono.siteStep hmoved
    exact ⟨sys', hsite.tail trivial hsite', hmasks'⟩
  | calls => exact ⟨sys, hsite, hmono⟩
  | taken hn hanswer hmoved =>
    obtain ⟨sys', hsite', hmasks'⟩ := hmono.siteStep hmoved
    exact ⟨sys', hsite.tail trivial hsite', hmasks'⟩
  | @thrown t n e sys₁ hn hanswer hthrow =>
    have hreach : Reachable cfg sys := (Site.parts_of_runs hsite).2
    obtain ⟨sys', hfail, hmasks'⟩ := hmono.throwRates hreach
      (fun _ hreq => ⟨⟨n, hn, hanswer⟩, hreq⟩) hthrow
    refine ⟨sys', hsite.tail (e := .run t .fail) trivial ?_, hmasks'⟩
    simp only [Site.step, hfail, Option.map_some]

end Platform

/-! ## Which rates a request has -/

/-- Rates that a request has after a step, it has had before, or they are the answer to it. -/
lemma rates_step {e : Event} {th' : Thread} {r : VersionedRates} (hstep : s.step cfg e = some s')
    (hth' : s'.threads t = some th') (hr : th'.state.trail.rates = some r) :
    (∃ th, s.threads t = some th ∧ th.state.trail.rates = some r) ∨
      (e = .run t (.rates r) ∧ (s.next t).any Cmd.forRates = true) := by
  rcases Sys.thread_step hstep hth' with ⟨req, hstate⟩ | ⟨th, hth, -, htrail, -⟩ |
    ⟨choice, l, c, k, s₁, a, rfl, hth, hrespond, hstate⟩
  · rw [hstate] at hr
    cases hr
  · exact .inl ⟨th, hth, htrail ▸ hr⟩
  · rw [hstate] at hr
    cases c with
    | getRates =>
      cases choice with
      | ok => cases hrespond
      | fail =>
        obtain ⟨-, rfl⟩ := Prod.mk.inj (Option.some.inj hrespond)
        exact .inl ⟨_, hth, hr⟩
      | rates r' =>
        obtain ⟨-, rfl⟩ := Prod.mk.inj (Option.some.inj hrespond)
        obtain rfl := Option.some.inj hr
        refine .inr ⟨rfl, ?_⟩
        rw [Sys.next_call hth]
        rfl
    | _ =>
      rw [Local.after_rates (by simp)] at hr
      exact .inl ⟨_, hth, hr⟩

namespace Platform

/-- The rates that a request has are what a call of it has returned. -/
theorem handed_of_runs (h : Platform.Runs env cfg .initial p) {th : Thread} {r : VersionedRates}
    (hth : p.site.sys.threads t = some th) (hr : th.state.trail.rates = some r) :
    p.Handed t (.ok r) := by
  revert t th
  refine h.invariant (I := fun p => ∀ {t th}, p.site.sys.threads t = some th →
    th.state.trail.rates = some r → p.Handed t (.ok r)) ?_
    fun p e p' hrun hI _ hstep t th hth hr => ?_
  · intro t th hth
    cases hth
  have hmoves := moves_of_eq hstep
  have hkept (t : Tid) (ha : p.Handed t (.ok r)) : p'.Handed t (.ok r) :=
    hmoves.handed (rates_of_runs hrun) ha
  cases hmoves with
  | @site e site rates hsite hasks _ =>
    refine hkept t ?_
    have hmoved {e' : Event} (hsys : p.site.sys.step cfg e' = some site.sys)
        (he' : ∀ t r, e' = .run t (.rates r) → e = .run t (.rates r)) : p.Handed t (.ok r) := by
      rcases rates_step hsys hth hr with ⟨th₀, hth₀, hr₀⟩ | ⟨rfl, hnext⟩
      · exact hI hth₀ hr₀
      · have hquiet := hasks t _ (he' t r rfl)
        rw [asksRates, hnext] at hquiet
        cases hquiet
    cases Site.step_of_eq hsite with
    | served _ hspawn => exact hmoved hspawn (by simp)
    | run hsys => exact hmoved hsys (fun _ _ he => by cases he; rfl)
    | crash hsys => exact hmoved hsys (by simp)
    | tick _ hsys => exact hmoved hsys (by simp)
    | _ => exact hI hth hr
  | calls => exact hkept t (hI hth hr)
  | @taken t' n r' site hn hanswer hsite =>
    obtain ⟨sys, hsys, rfl⟩ := Option.map_eq_some_iff.mp hsite
    rcases rates_step hsys hth hr with ⟨th₀, hth₀, hr₀⟩ | ⟨heq, -⟩
    · exact hkept t (hI hth₀ hr₀)
    · obtain ⟨rfl, hr'⟩ := Event.run.inj heq
      obtain rfl := Choice.rates.inj hr'
      exact ⟨n, hn, hanswer⟩
  | @thrown t' n e sys hn hanswer hthrow =>
    refine hkept t ?_
    obtain ⟨th₀, hth₀, hthrow⟩ := Option.bind_eq_some_iff.mp hthrow
    unfold Sys.throwRates at hthrow
    split at hthrow
    · obtain rfl := Option.some.inj hthrow
      rcases Sys.of_setThread hth with ⟨rfl, rfl⟩ | ⟨-, hold⟩
      · exact hI hth₀ hr
      · exact hI hold hr
    · cases hthrow

end Platform

end FxExchange
