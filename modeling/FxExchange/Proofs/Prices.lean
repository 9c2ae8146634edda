import FxExchange.Proofs.Bank
import FxExchange.Proofs.Platform

/-
# Prices

Whatever is exchanged is priced at rates that the provider has given.  Clients whose request is
failed by the rates are told so.
-/

namespace FxExchange

open FxService Service Transition
open Prog (ThrowsOn wp_bind wp_command)

variable {env : PlatformEnv} {cfg : Config} {p : Platform} {s s' : Sys} {t : Tid} {l : Local}
  {j : JournalEntry} {quote : Quote}

/-! ## The rates of a quote -/

/-- A request for a quote asks for its rates before it issues one, and prices it at them. -/
def issuing (cfg : Config) : Discipline Cmd.Ret Exn Local where
  guard l c := match c with
    | .getRates => l.trail.issued = none
    | .redis (.set _ quote _) => l.req.terms cfg l.trail.rates = some quote.terms
    | _ => True
  outcome l c r l' := ∃ seq, l' = l.after seq c r

lemma wp_program_issuing (cfg : Config) {req : Request} (hreq : req.isQuote = true) :
    (req.program cfg).wp (issuing cfg) (fun _ _ => True) { req } := by
  cases req with
  | createQuote u from_ to_ a =>
    refine wp_bind.mpr (wp_throwIf_bind (fun _ => trivial) fun _ => ?_)
    refine wp_requireSupported (fun _ _ => trivial) fun f hf => ?_
    refine wp_requireSupported (fun _ _ => trivial) fun t ht => ?_
    refine wp_throwIf_bind (fun _ => trivial) fun _ => ?_
    refine wp_bind.mpr (wp_command.mpr ⟨rfl, ?_⟩)
    rintro (e | rates) l ⟨seq, rfl⟩
    · trivial
    refine wp_rateOf (fun _ _ => trivial) fun table x htable hx => ?_
    refine wp_rateOf (fun _ _ => trivial) fun table' y htable' hy => ?_
    obtain rfl := Option.some.inj (htable.symm.trans htable')
    refine wp_throwIf_bind (fun _ => trivial) fun _ => ?_
    refine wp_bind.mpr (wp_command.mpr ⟨trivial, ?_⟩)
    rintro (e | id) l ⟨seq₁, rfl⟩
    · trivial
    refine wp_bind.mpr (wp_command.mpr ⟨trivial, ?_⟩)
    rintro (e | time) l ⟨seq₂, rfl⟩
    · trivial
    refine wp_bind.mpr (wp_command.mpr ⟨?_, ?_⟩)
    · show Request.terms cfg _ _ = some (Quote.terms _)
      simp [Request.terms, Local.after, Local.afterOk, hf, ht, htable, hx, hy, Quote.terms]
    · rintro (e | done) l - <;> trivial
  | _ => cases hreq

/-- A quote that has been issued is on the terms of the rates of its request. -/
lemma terms_of_issued (h : Reachable cfg s) {th : Thread} (hth : s.threads t = some th)
    (hissued : th.state.trail.issued = some quote) :
    th.state.req.terms cfg th.state.trail.rates = some quote.terms := by
  revert t th quote
  refine h.invariant (I := fun s => ∀ {t th quote}, s.threads t = some th →
    th.state.trail.issued = some quote →
    th.state.req.terms cfg th.state.trail.rates = some quote.terms) ?_
    fun s e s' hreach hI _ hstep t th quote hth hissued => ?_
  · intro t th quote hth
    cases hth
  have hquote := isQuote_of_issued (hreach.tail trivial hstep) hth hissued
  rcases Sys.thread_step hstep hth with ⟨req, hstate⟩ | ⟨th₀, hth₀, heq, htrail, -⟩ |
    ⟨choice, l, c, k, s₁, r, -, hth₀, hrespond, hstate⟩
  · rw [hstate] at hissued
    cases hissued
  · rw [heq, htrail]
    exact hI hth₀ (htrail ▸ hissued)
  · rw [hstate] at hissued hquote ⊢
    rw [Local.after_req] at hquote ⊢
    have hwp := forall_programs (P := fun l p => l.req.isQuote = true →
        p.wp (issuing cfg) (fun _ _ => True) l) hreach
      (fun req hreq => wp_program_issuing cfg hreq)
      (fun s t choice l c k s₁ r _ _ _ _ hp hreq =>
        (hp (Local.after_req ▸ hreq)).2 r _ ⟨s.seq, rfl⟩) hth₀ rfl hquote
    cases c with
    | getRates =>
      have hnone : l.trail.issued = none := hwp.1
      have hold : l.trail.issued = some quote := by cases r <;> exact hissued
      rw [hnone] at hold
      cases hold
    | redis c =>
      cases c with
      | set q quote' ex =>
        have hterms : l.req.terms cfg l.trail.rates = some quote'.terms := hwp.1
        cases r with
        | error e => exact hI hth₀ hissued
        | ok a =>
          change (if l.trail.hand.isSome then l.trail.issued else some quote') = some quote
            at hissued
          split at hissued
          · exact hI hth₀ hissued
          · obtain rfl := Option.some.inj hissued
            exact hterms
      | _ => cases r <;> exact hI hth₀ hissued
    | pool c => cases c <;> cases r <;> exact hI hth₀ hissued
    | _ => cases r <;> exact hI hth₀ hissued

/-! ## The rates of a journal -/

/-- What `a` of one currency comes to in another one at these rates: in a conversion, or in a quote
for a trade. -/
inductive PricedAt (cfg : Config) (rates : VersionedRates) (f t : Currency) (a : ℤ) : ℤ → Prop
  | conversion {out : ℤ} (h : rates.exactConversion f t a = some out) :
    PricedAt cfg rates f t a out
  | trade {table : Currency → RateValue} {x y : ℚ} (htable : rates.rates = some table)
      (hx : parseRate (table f) = .ok x) (hy : parseRate (table t) = .ok y) :
    PricedAt cfg rates f t a
      (convertSubunits a f.code t.code (applySpread (crossRate x y) cfg.spreadBps).bid)

/-- The terms of a quote are a price. -/
lemma pricedAt_of_terms {req : Request} {rates : Option VersionedRates} {terms : Terms}
    (h : req.terms cfg rates = some terms) : ∃ r, rates = some r ∧
      PricedAt cfg r terms.fromCurrency terms.toCurrency terms.amountIn terms.amountOut := by
  cases req with
  | createQuote u from_ to_ a =>
    obtain ⟨f, -, h⟩ := Option.bind_eq_some_iff.mp h
    obtain ⟨t, -, h⟩ := Option.bind_eq_some_iff.mp h
    obtain ⟨table, htable, h⟩ := Option.bind_eq_some_iff.mp h
    obtain ⟨r, hr, htable⟩ := Option.bind_eq_some_iff.mp htable
    split at h
    · rename_i x y hx hy
      obtain rfl := Option.some.inj h
      exact ⟨r, hr, .trade htable hx hy⟩
    · cases h
  | _ => cases h

/-- The journal exchanges what it does at the rates of one request of its user. -/
structure Exchanges (cfg : Config) (s : Sys) (j : JournalEntry) (t : Tid) (r : VersionedRates) :
    Prop where
  thread : ∃ th, s.threads t = some th ∧ th.state.req.userId = j.userId ∧
    th.state.trail.rates = some r
  transfers : ∃ f c a out, j.instruction.transfers = exchange j.userId f c a out ∧
    PricedAt cfg r f c a out

/-- All that is booked and no funding is an exchange. -/
lemma exchanges_of_reachable (h : Reachable cfg s) (hj : j ∈ s.db.journals)
    (hpurpose : j.purpose ≠ .funding) : ∃ t r, Exchanges cfg s j t r := by
  have hhist := history_of_reachable h
  rw [hhist.journals] at hj
  obtain ⟨⟨t, tx⟩, hcommit, hmem⟩ := List.mem_flatMap.mp hj
  obtain ⟨th, j', hth, hbooked, hbooks⟩ := hhist.booked _ hcommit
  rw [hbooks.journals] at hmem
  obtain rfl := List.mem_singleton.mp hmem
  obtain ⟨s₀, s₁, ⟨hreach, ⟨choice, hstep⟩, -⟩, -, hputs⟩ :=
    exists_putsIn h hth hcommit hbooks.journals
  have hinstruction := instruction_of_books h hth hbooked hbooks fun e he =>
    hputs.bounds hreach (hreach.tail trivial hstep) hbooks.sound he
  have hcarries := hbooks.carries
  have huser := hbooks.userId
  have htransfers : th.state.req.transfers th.state.trail.hand th.state.trail.rates =
      some j.instruction.transfers := by
    simp only [Local.instruction, hbooks.key, Option.bind_some] at hinstruction
    obtain ⟨transfers, htransfers, heq⟩ := Option.map_eq_some_iff.mp hinstruction
    rw [htransfers, ← heq]
  cases hreq : th.state.req with
  | fundWallet u currency amount key =>
    rw [hreq] at hcarries
    obtain ⟨c, a, -, -, hfunding, -⟩ := hcarries
    exact absurd hfunding hpurpose
  | convertFunds u from_ to_ amount key context =>
    rw [hreq] at hcarries htransfers huser
    obtain ⟨f, c, a, out, hf, hc, -, rfl, -⟩ := hcarries
    simp only [Request.transfers, hf, hc, Option.bind_some] at htransfers
    obtain ⟨out, hout, heq⟩ := Option.map_eq_some_iff.mp htransfers
    obtain ⟨r, hr, hout⟩ := Option.bind_eq_some_iff.mp hout
    refine ⟨t, r, ⟨th, hth, ?_, hr⟩, f, c, a, out, ?_, .conversion hout⟩
    · rw [hreq, huser]
    · rw [← heq, huser]
      rfl
  | executeTrade u q key =>
    rw [hreq] at hcarries htransfers huser
    obtain ⟨quote, hhand, -, rfl, -⟩ := hcarries
    -- the quote was issued to this user, on the terms of the rates that were had then
    have hissued : quote ∈ s.custody.issued :=
      (known_of_reachable h).hand t quote ((congrArg Trail.hand (Sys.trail_eq hth)).trans hhand)
    obtain ⟨t', hissued⟩ := hissued
    obtain ⟨th', hth', hissued⟩ : ∃ th', s.threads t' = some th' ∧
        th'.state.trail.issued = some quote := by
      cases hth' : s.threads t' with
      | none =>
        rw [Sys.trail, hth'] at hissued
        cases hissued
      | some th' =>
        rw [Sys.trail_eq hth'] at hissued
        exact ⟨th', rfl, hissued⟩
    have hterms := terms_of_issued h hth' hissued
    obtain ⟨r, hr, hpriced⟩ := pricedAt_of_terms hterms
    have hsame := (ids_of_reachable h).owner t' th' quote hth' hissued
    refine ⟨t', r, ⟨th', hth', ?_, hr⟩, _, _, _, _, ?_, hpriced⟩
    · rw [← hsame, huser]
      rfl
    · rw [huser]
      simp only [Request.transfers, hhand, Option.map_some] at htransfers
      exact (Option.some.inj htransfers).symm
  | _ =>
    rw [hreq] at hcarries
    exact hcarries.elim

/-- In every run of the platform, whatever is exchanged for a user is priced at rates that a call of
`getRates` has returned to a request of this user; the rates are traced to an answer of the
provider. -/
theorem priced_by_provider (h : Platform.Runs env cfg .initial p)
    (hj : j ∈ p.site.sys.db.journals) (hpurpose : j.purpose ≠ .funding) :
    ∃ t r, Exchanges cfg p.site.sys j t r ∧ ∃ n ∈ p.calls t, ∃ call,
      p.rates.threads n = some call ∧ call.answer = some (.ok r) ∧
      Traced env.rates p.rates call.state r := by
  obtain ⟨sys, hsite, hmasks⟩ := Platform.masks_of_runs h
  have hreach : Reachable cfg sys := (Site.parts_of_runs hsite).2
  have hdb : sys.db = p.site.sys.db := by rw [hmasks.rest]
  obtain ⟨t, r, ⟨th, hth, huser, hr⟩, htransfers⟩ :=
    exchanges_of_reachable hreach (hdb ▸ hj) hpurpose
  obtain ⟨th₀, hth₀, hstate⟩ := hmasks.exists_thread hth
  rw [← hstate] at huser hr
  obtain ⟨n, hn, hanswer⟩ := Platform.handed_of_runs h hth₀ hr
  obtain ⟨call, hcall, hanswer⟩ := Option.bind_eq_some_iff.mp hanswer
  exact ⟨t, r, ⟨⟨th₀, hth₀, huser, hr⟩, htransfers⟩, n, hn, call, hcall, hanswer,
    traced_of_answer (Platform.rates_of_runs h) hcall hanswer⟩

/-! ### A first conversion -/

/-- Everything that the platform is given, so that it can be read. -/
def plainPlatform : PlatformEnv := ⟨plainHttp, counted⟩

/-- The first user exchanges dollars for euros. -/
def convertingRequest : HttpRequest where
  authorization := some ("Bearer " ++ plainSign 0 1 "user@example.com")
  call := .convert (some "convert")
    { fromCurrency := "USD", toCurrency := "EUR", amount := .finite 100 }

/-- A request calls `getRates`, which issues so many commands, and goes on with the outcome. -/
def withRates (t : Tid) (commands : ℕ) (x : Weather) : List PlatformEvent :=
  .ask t :: List.replicate commands (.rates (.run 0 x)) ++ [.take t]

/-- A user signs in, funds the wallet and converts some of it, at rates fetched for this. -/
def convertedPlatform : List PlatformEvent :=
  signedIn.map .auth ++ .http fundingRequest :: List.replicate 18 (.run 1 .ok) ++
    .http convertingRequest :: List.replicate 2 (.run 20 .ok) ++ withRates 20 5 fair ++
    List.replicate 16 (.run 20 .ok)

theorem priced_by_provider_converted : ∃ p j t r, Platform.Runs plainPlatform {} .initial p ∧
    j ∈ p.site.sys.db.journals ∧ j.purpose = .exchange ∧ Exchanges {} p.site.sys j t r := by
  have hplay : (runAll (Platform.step plainPlatform {}) anyStep .initial convertedPlatform).any
      (fun p => p.site.sys.db.journals.any fun j => j.purpose = .exchange) = true := by
    decide +kernel
  obtain ⟨p, hrun, hp⟩ := exists_of_runAll hplay
  obtain ⟨j, hj, hpurpose⟩ := List.any_eq_true.mp hp
  have hexchange : j.purpose = .exchange := of_decide_eq_true hpurpose
  obtain ⟨t, r, hexchanges, -⟩ := priced_by_provider hrun hj (by rw [hexchange]; decide)
  exact ⟨p, j, t, r, hrun, hj, hexchange, hexchanges⟩

/-! ## What the client is told -/

/-- A thread that throws on what it was given has failed with that. -/
lemma eq_of_throwsOn {q : Exn → Service Response} {alive : Bool} {e x : Exn}
    (hq : ThrowsOn Quiet q) (hx : (⟨l, q e, alive⟩ : Thread).failure = some x) :
    x = e ∧ alive = true ∧ ∀ e', q e' = .throw e' := by
  have hanswer := Thread.answer_of_failure hx
  cases hq with
  | throw =>
    cases alive with
    | true => exact ⟨(Except.error.inj (Option.some.inj hanswer)).symm, rfl, fun _ => rfl⟩
    | false => cases hanswer
  | call hc hk => cases alive <;> cases hanswer

/-- An operation that has come over the API never fails for its arguments.  Its client is told one
of a few things, or, for a conversion only, that there are no rates: this is what a call of
`getRates` for it has answered, after its own attempt was foiled. -/
theorem told_of_failure (h : Platform.Runs env cfg .initial p) {th : Thread}
    (hth : p.site.sys.threads t = some th) (hkey : th.state.req.key.isSome) {x : Exn}
    (hx : th.failure = some x) :
    th.state.req.check = pure () ∧
    (Told th.state.req (AllExceptionsFilter.respond (.exn x)) ∨
      x = noRates ∧ th.state.req.isConversion = true ∧ ∃ n ∈ p.calls t, ∃ call,
        p.rates.threads n = some call ∧ call.answer = some (.error x) ∧
          Foiled env.rates call.state) := by
  obtain ⟨sys, hsite, hmasks⟩ := Platform.masks_of_runs h
  have hmasked := hth ▸ hmasks.threads t
  generalize ho : some th = o at hmasked
  generalize ho' : sys.threads t = o' at hmasked
  cases hmasked with
  | same =>
    obtain ⟨hcheck, htold⟩ := told_of_runs hsite (ho'.trans ho.symm) hkey hx
    exact ⟨hcheck, .inl htold⟩
  | @thrown l q alive e hq he =>
    obtain rfl := Option.some.inj ho
    obtain ⟨rfl, rfl, hthrow⟩ := eq_of_throwsOn hq hx
    obtain ⟨hcheck, htold⟩ := told_of_runs hsite ho' hkey (x := .unavailable)
      (by rw [Thread.failure, Thread.answer, hthrow])
    refine ⟨hcheck, ?_⟩
    obtain ⟨⟨n, hn, hanswer⟩, hasks⟩ := he
    obtain ⟨call, hcall, hanswer⟩ := Option.bind_eq_some_iff.mp hanswer
    have hobeys := FxService.obeys_of_runs (Platform.rates_of_runs h) n call hcall
    have hreturns : Returns env.rates False call.state (.error x) :=
      Interleaving.Thread.post_of_answer hobeys hanswer
    rcases hreturns with ⟨rfl, -⟩ | ⟨-, rfl, hfoiled⟩
    · exact .inl htold
    · refine .inr ⟨rfl, ?_, n, hn, call, hcall, hanswer, hfoiled⟩
      -- a request for a quote has no key
      cases hreq : l.req with
      | convertFunds u f t a k context => rfl
      | createQuote u f t a =>
        rw [hreq] at hkey
        cases hkey
      | _ =>
        rw [hreq] at hasks
        cases hasks

/-- Nothing is known of rates yet, and the provider is not available. -/
def ratelessPlatform : List PlatformEvent :=
  signedIn.map .auth ++ .http convertingRequest :: List.replicate 2 (.run 1 .ok) ++
    withRates 1 3 { answer := .error .unavailable } ++ [.run 1 .ok]

theorem told_of_failure_rateless : ∃ p th n call, Platform.Runs plainPlatform {} .initial p ∧
    p.site.sys.threads 1 = some th ∧ th.failure = some noRates ∧ n ∈ p.calls 1 ∧
    p.rates.threads n = some call ∧ Foiled counted call.state := by
  have hplay : (runAll (Platform.step plainPlatform {}) anyStep .initial ratelessPlatform).any
      (fun p => (p.site.sys.threads 1).any fun th => th.state.req.key.isSome ∧
        th.failure = some noRates) = true := by decide +kernel
  obtain ⟨p, hrun, hp⟩ := exists_of_runAll hplay
  obtain ⟨th, hth, hfailed⟩ := (Option.any_eq_true ..).mp hp
  obtain ⟨hkey, hfailure⟩ := of_decide_eq_true hfailed
  obtain ⟨-, htold | ⟨-, -, n, hn, call, hcall, -, hfoiled⟩⟩ :=
    told_of_failure hrun hth hkey hfailure
  · generalize hbody : AllExceptionsFilter.respond (.exn noRates) = body at htold
    cases htold <;>
      simp [noRates, AllExceptionsFilter.respond, AllExceptionsFilter.messageOf] at hbody
  · exact ⟨p, th, n, call, hrun, hth, hfailure, hn, hcall, hfoiled⟩

end FxExchange
