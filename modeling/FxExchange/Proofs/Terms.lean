import FxExchange.Proofs.Commands
import FxExchange.Proofs.Programs

/-
# The terms of a quote

What a quote binds its owner and the house to is settled by the request that has asked for it
and the rates that this request was given; only `createQuote` issues quotes.
-/

namespace FxExchange

open Service
open Prog (wp_bind wp_mono wp_command)

variable {cfg : Config} {s s' s₁ : Sys} {t : Tid} {l : Local} {req : Request}

/-- What a quote binds its owner and the house to. -/
structure Terms where
  fromCurrency : Currency
  toCurrency : Currency
  amountIn : ℤ
  amountOut : ℤ
  deriving DecidableEq, Repr

/-- What a quote binds to. -/
def Quote.terms (q : Quote) : Terms :=
  ⟨q.fromCurrency, q.toCurrency, q.amountInSubunits, q.amountOutSubunits⟩

/-- What a request for a quote comes to at some rates. -/
def Request.terms (cfg : Config) (rates : Option VersionedRates) : Request → Option Terms
  | .createQuote _ from_ to_ a =>
    (supportedCurrency from_).bind fun f => (supportedCurrency to_).bind fun t =>
      (rates.bind VersionedRates.rates).bind fun table =>
        match parseRate (table f), parseRate (table t) with
        | .ok x, .ok y =>
          some ⟨f, t, a, convertSubunits a f.code t.code
            (applySpread (crossRate x y) cfg.spreadBps).bid⟩
        | _, _ => none
  | _ => none

/-- The request is for a quote. -/
def Request.isQuote : Request → Bool
  | .createQuote _ _ _ _ => true
  | _ => false

/-- A request remembers what it has come across. -/
def remembering : Discipline Cmd.Ret Exn Local where
  guard _ _ := True
  outcome l c r l' := ∃ seq, l' = l.after seq c r

/-- The quote that a request is answered with is the one that it has issued, on its terms. -/
def Quoted (cfg : Config) (l : Local) : Except Exn Response → Prop
  | .ok (.quote q) => l.trail.issued = some q ∧ l.req.terms cfg l.trail.rates = some q.terms
  | .ok _ => False
  | .error _ => True

lemma wp_program_quoted (cfg : Config) (hreq : req.isQuote = true) :
    (req.program cfg).wp remembering (Quoted cfg) { req } := by
  cases req with
  | createQuote u from_ to_ a =>
    refine wp_bind.mpr (wp_throwIf_bind (fun _ => trivial) fun _ => ?_)
    refine wp_requireSupported (fun _ _ => trivial) fun f hf => ?_
    refine wp_requireSupported (fun _ _ => trivial) fun t ht => ?_
    refine wp_throwIf_bind (fun _ => trivial) fun _ => ?_
    refine wp_bind.mpr (wp_command.mpr ⟨trivial, ?_⟩)
    rintro (e | rates) l ⟨seq, rfl⟩
    · trivial
    refine wp_rateOf (fun _ _ => trivial) fun table x htable hx => ?_
    refine wp_rateOf (fun _ _ => trivial) fun table' y htable' hy => ?_
    obtain rfl := Option.some.inj (htable.symm.trans htable')
    refine wp_throwIf_bind (fun _ => trivial) fun _ => ?_
    refine wp_bind.mpr (wp_command.mpr ⟨trivial, ?_⟩)
    rintro (e | id) l ⟨seq₁, rfl⟩
    · trivial
    refine wp_bind.mpr (wp_command.mpr ⟨trivial, ?_⟩)
    rintro (e | time) l ⟨seq₂, rfl⟩
    · trivial
    refine wp_bind.mpr (wp_command.mpr ⟨trivial, ?_⟩)
    rintro (e | done) l ⟨seq₃, rfl⟩
    · trivial
    refine ⟨rfl, ?_⟩
    simp [Request.terms, Local.after, Local.afterOk, hf, ht, htable, hx, hy, Quote.terms]
  | _ => cases hreq

/-- What a program makes sure of by what it remembers holds when it has answered. -/
lemma of_answer_remembering {P : Request → Prop} {Q : Local → Except Exn Response → Prop}
    (hwp : ∀ req, P req → (req.program cfg).wp remembering Q { req }) (h : Reachable cfg s)
    {th : Thread} (hth : s.threads t = some th) (hreq : P th.state.req)
    {a : Except Exn Response} (ha : th.answer = some a) : Q th.state a := by
  have halive : th.alive = true := by
    unfold Thread.answer at ha
    split at ha
    · assumption
    · assumption
    · cases ha
  have hwp' := forall_programs (P := fun l p => P l.req → p.wp remembering Q l) h hwp
    (fun s t choice l c k s₁ r _ _ _ _ hp hreq => (hp (Local.after_req ▸ hreq)).2 r _ ⟨s.seq, rfl⟩)
    hth halive hreq
  exact Thread.of_answer hwp' ha

/-- The answer to a request for a quote is the quote that it has issued. -/
lemma quoted_of_answer (h : Reachable cfg s) {th : Thread} (hth : s.threads t = some th)
    (hreq : th.state.req.isQuote = true) {a : Except Exn Response} (ha : th.answer = some a) :
    Quoted cfg th.state a :=
  of_answer_remembering (P := fun req => req.isQuote = true)
    (fun _ => wp_program_quoted cfg) h hth hreq ha

lemma Local.after_uuid {seq : ℕ} {c : Cmd} {r : Except Exn c.Ret} (hc : c ≠ .uuid)
    (hnone : l.trail.uuid = none) : (l.after seq c r).trail.uuid = none := by
  cases c with
  | uuid => exact absurd rfl hc
  | redis c =>
    cases c with
    | set q quote ex =>
      cases r with
      | ok a => simp [Local.after, Local.afterOk, hnone]
      | error e => exact hnone
    | _ => cases r <;> exact hnone
  | pool c => cases c <;> cases r <;> exact hnone
  | _ => cases r <;> exact hnone

/-- A quote is issued under an id that was drawn before. -/
lemma Local.after_issued {seq : ℕ} {c : Cmd} {r : Except Exn c.Ret} (hguard : guard cfg l c)
    (huuid : l.trail.uuid = none) (hnone : l.trail.issued = none) :
    (l.after seq c r).trail.issued = none := by
  cases c with
  | redis c =>
    cases c with
    | set q quote ex =>
      obtain ⟨-, -, -, -, -, hmay | hmay⟩ := hguard
      · cases r with
        | ok a => simp [Local.after, Local.afterOk, hmay.hand, hnone]
        | error e => exact hnone
      · have := hmay.uuid
        rw [huuid] at this
        cases this
    | _ => cases r <;> exact hnone
  | pool c => cases c <;> cases r <;> exact hnone
  | _ => cases r <;> exact hnone

/-- Only `createQuote` draws ids. -/
lemma ne_uuid_of_reachable (h : Reachable cfg s) {c : Cmd}
    {k : Except Exn c.Ret → Service Response} (hth : s.threads t = some ⟨l, .call c k, true⟩)
    (hreq : l.req.isQuote = false) : c ≠ .uuid := by
  have hissues := forall_programs (P := fun l p => l.req.isQuote = false →
      p.Issues fun c => c ≠ .uuid) h
    (fun req hreq => program_issues_of cfg (fun u f t a heq => by rw [heq] at hreq; cases hreq)
      fun _ _ hc => hc)
    (fun s t choice l c k s₁ r _ _ _ _ hp hreq => (hp (Local.after_req ▸ hreq)).2 r) hth rfl hreq
  exact hissues.1

/-- Only `createQuote` issues quotes. -/
lemma isQuote_of_issued (h : Reachable cfg s) {th : Thread} (hth : s.threads t = some th)
    {quote : Quote} (hissued : th.state.trail.issued = some quote) :
    th.state.req.isQuote = true := by
  have hnone : ∀ {t th}, s.threads t = some th → th.state.req.isQuote = false →
      th.state.trail.uuid = none ∧ th.state.trail.issued = none := by
    refine h.invariant (I := fun s => ∀ {t th}, s.threads t = some th →
      th.state.req.isQuote = false → th.state.trail.uuid = none ∧ th.state.trail.issued = none)
      (by simp [Sys.initial]) fun s e s' hreach hI _ hstep t th hth hreq => ?_
    rcases Sys.thread_step hstep hth with ⟨req, hstate⟩ | ⟨th₀, hth₀, heq, htrail, -⟩ |
      ⟨choice, l, c, k, s₁, r, -, hth₀, hrespond, hstate⟩
    · rw [hstate]
      exact ⟨rfl, rfl⟩
    · rw [htrail]
      exact hI hth₀ (heq ▸ hreq)
    · rw [hstate] at hreq ⊢
      rw [Local.after_req] at hreq
      obtain ⟨huuid, hnone⟩ := hI hth₀ hreq
      exact ⟨Local.after_uuid (ne_uuid_of_reachable hreach hth₀ hreq) huuid,
        Local.after_issued ((inv_of_reachable hreach).guard hth₀) huuid hnone⟩
  cases hreq : th.state.req.isQuote with
  | true => rfl
  | false =>
    rw [(hnone hth hreq).2] at hissued
    cases hissued

/-- The quote that the request has answered. -/
def Thread.quote (th : Thread) : Option Quote :=
  match th.answer with
  | some (.ok (.quote q)) => some q
  | _ => none

lemma Thread.answer_of_quote {th : Thread} {q : Quote} (h : th.quote = some q) :
    th.answer = some (.ok (.quote q)) := by
  unfold quote at h
  split at h
  · rename_i q' hanswer
    rw [hanswer, Option.some.inj h]
  · cases h

/-- A request that has issued a quote, and succeeds, answers it. -/
lemma quote_of_issued (h : Reachable cfg s) {th : Thread} (hth : s.threads t = some th)
    {q : Quote} (hissued : th.state.trail.issued = some q) {r : Response}
    (ha : th.answer = some (.ok r)) : th.quote = some q := by
  have hquoted := quoted_of_answer h hth (isQuote_of_issued h hth hissued) ha
  cases r with
  | quote q' =>
    obtain rfl := Option.some.inj (hquoted.1.symm.trans hissued)
    rw [Thread.quote, ha]
  | _ => exact hquoted.elim

/-- A quote that is answered has been issued, on the terms of the request. -/
lemma issued_of_quote (h : Reachable cfg s) {th : Thread} (hth : s.threads t = some th)
    (hreq : th.state.req.isQuote = true) {q : Quote} (hquote : th.quote = some q) :
    th.state.trail.issued = some q ∧
      th.state.req.terms cfg th.state.trail.rates = some q.terms :=
  quoted_of_answer h hth hreq (Thread.answer_of_quote hquote)

end FxExchange
