import FxExchange.Proofs.Quotes

/-
# Redemption

What an owner gets of its quote.  While GETDEL works, a quote that has not expired is lost
to its owner for as long as the call of another user has it in hand, and only then.  And a
quote is read before it expires if every call that stores it does so in no time and for a
whole number of seconds.
-/

namespace FxExchange

open Transition Custody

variable {cfg : Config} {s s' s₁ : Sys} {t : Tid} {e : Event} {quote : Quote} {q : QuoteId}

/-! ## Runs in which GETDEL works -/

/-- GETDEL does not fail. -/
def GetdelAvailable (s : Sys) : Event → Prop
  | .run t .fail => ∀ q, s.next t ≠ some (.redis (.getdel q))
  | _ => True

lemma Sys.next_eq {th : Thread} (hth : s.threads t = some th) : s.next t = th.next := by
  rw [next, hth, Option.bind_some]

lemma Sys.next_call {l : Local} {c : Cmd} {k : Except Exn c.Ret → Service Response}
    (hth : s.threads t = some ⟨l, .call c k, true⟩) : s.next t = some c := next_eq hth

/-- A quote is stored for its lifetime at least. -/
abbrev lifetimeRules (copies : Prop) : Rules QuoteId Quote :=
  quoteRules (fun quote deadline => quote.expiresAt ≤ deadline) copies

/-- A time to live that reaches to the expiry does so from now on. -/
lemma Ids.expiresAt_le (h : Ids s) {th : Thread} (hth : s.threads t = some th) {ex : ℕ}
    (hreach : Reaches th.state quote ex) : quote.expiresAt ≤ s.now + 1000 * ex := by
  have hclock := h.clock t
  rw [Sys.trail_eq hth] at hclock
  exact hreach.le.trans (Nat.add_le_add_right hclock _)

/-- Every quote that is around has been issued. -/
lemma known_of_reachable (h : Reachable cfg s) : Known (lifetimeRules True) s.custody := by
  have hinitial : Known (lifetimeRules True) Sys.initial.custody := by
    constructor <;> simp [Sys.custody, Sys.initial, Redis.empty, Sys.trail, Sys.Issued]
  refine h.invariant (I := fun s => Known (lifetimeRules True) s.custody) hinitial
    fun s e s' hrun hknown _ hstep => ?_
  have hids := ids_of_reachable hrun
  exact hknown.step ((inv_of_reachable hrun).custodyStep hids
    (fun t th quote ex _ hth _ hreach => hids.expiresAt_le hth hreach) (fun _ _ => trivial) hstep)

/-- While GETDEL works, quotes are in one place and do not get lost. -/
structure InCustody (s : Sys) : Prop where
  fellBack : ∀ t, (s.trail t).fellBack = false
  known : Known (lifetimeRules False) s.custody
  exclusive : Exclusive (lifetimeRules False) s.custody
  located : Located (lifetimeRules False) Quote.expiresAt s.custody

lemma inCustody_initial : InCustody Sys.initial := by
  refine ⟨fun _ => rfl, ?_, ?_, ?_⟩
  · constructor <;> simp [Sys.custody, Sys.initial, Redis.empty, Sys.trail, Sys.Issued]
  · constructor <;> simp [Sys.custody, Sys.initial, Sys.trail]
  · simp [Located, Sys.custody, Sys.initial, Sys.trail, Sys.Issued]

/-- Only a failing GETDEL makes a call fall back. -/
lemma QuoteStep.fellBack_eq {l l' : Local} {c : Cmd} {choice : Choice}
    (h : QuoteStep cfg s l c choice l' s₁) (hfellBack : l.trail.fellBack = false)
    (hc : choice = .fail → ∀ q, c ≠ .redis (.getdel q)) : l'.trail.fellBack = false := by
  cases h with
  | same hquotes hsame hclock heq => exact heq.trans hfellBack
  | now hquotes hsame hclock heq => exact heq.trans hfellBack
  | fallBack q hc' hchoice => exact absurd hc' (hc hchoice q)
  | _ => simp_all

lemma InCustody.step (h : InCustody s) (hinv : Inv cfg s) (hids : Ids s)
    (hok : GetdelAvailable s e) (hstep : s.step cfg e = some s') : InCustody s' := by
  have hcustody : Custody.Step (lifetimeRules False) s.custody s'.custody := by
    refine hinv.custodyStep hids (fun t th quote ex _ hth _ hreach =>
      hids.expiresAt_le hth hreach) (fun t ht => ?_) hstep
    rw [h.fellBack t] at ht
    cases ht
  refine ⟨?_, h.known.step hcustody, h.exclusive.step h.known id hcustody,
    h.located.step h.known id (fun _ _ => id) hcustody⟩
  intro t
  rcases hinv.trail_step hstep t with htrail | ⟨choice, l, c, k, s₁, r, rfl, hth, hrespond, htrail⟩
  · rw [htrail]
    exact h.fellBack t
  · have hold : l.trail.fellBack = false := (Sys.trail_eq hth) ▸ h.fellBack t
    rw [htrail]
    refine (hinv.quoteStep hth hrespond).fellBack_eq hold ?_
    rintro rfl q rfl
    exact hok q (Sys.next_call hth)

theorem inCustody_of_runs (h : Runs cfg GetdelAvailable Sys.initial s) : InCustody s :=
  h.invariant inCustody_initial fun _ _ _ hrun hcustody hok hstep =>
    have hreach := reachable_of_runs hrun
    hcustody.step (inv_of_reachable hreach) (ids_of_reachable hreach) hok hstep

/-! ## What an owner gets -/

/-- What `consumeQuote` does with the answer to its GETDEL. -/
lemma consumeQuote_eq (q : QuoteId) (u : UserId) :
    ∃ k, consumeQuote q u = .call (.redis (.getdel q)) k ∧ k (.ok none) = .pure none ∧
      ∀ quote, quote.userId = u → k (.ok (some quote)) = .pure (some quote) := by
  refine ⟨_, rfl, rfl, fun quote hu => ?_⟩
  show (if quote.userId ≠ u then _ else pure (some quote) : Service (Option Quote)) = _
  rw [if_neg (not_not.mpr hu)]
  rfl

/-- An owner that asks for a quote of its own before it expires, and that has not got it
before, gets it if and only if no call of another user has it in hand: none has taken it
from Redis without having put it back. -/
theorem owner_gets_quote_iff (h : Runs cfg GetdelAvailable Sys.initial s)
    (hissued : s.Issued quote) (hnow : s.now < quote.expiresAt)
    (hunredeemed : ∀ t th, s.threads t = some th → th.state.req.userId = quote.userId →
      th.state.trail.hand ≠ some quote)
    {l : Local} {f : Option Quote → Service Response}
    (hth : s.threads t = some ⟨l, (consumeQuote quote.id quote.userId).bind f, true⟩) :
    ∃ s' l' found, s.step cfg (.run t .ok) = some s' ∧
      s'.threads t = some ⟨l', f found, true⟩ ∧
      (found = some quote ↔ ∀ t' th', s.threads t' = some th' →
        th'.state.req.userId ≠ quote.userId → th'.state.trail.hand ≠ some quote) := by
  obtain ⟨-, hknown, hexclusive, hlocated⟩ := inCustody_of_runs h
  obtain ⟨k, hk, hknone, hksome⟩ := consumeQuote_eq quote.id quote.userId
  rw [hk] at hth
  -- what is under the key is the quote or nothing
  have hfound {quote' : Quote}
      (hlive : live (s.redis.quotes quote.id) s.now = some quote') : quote' = quote := by
    obtain ⟨deadline, hentry, -⟩ := live_eq_some_iff.mp hlive
    obtain ⟨hid, hissued', -⟩ := hknown.store quote.id quote' deadline hentry
    exact hknown.keys quote' hissued' quote hissued hid
  have hprog : ((k (.ok (live (s.redis.quotes quote.id) s.now))).bind f) =
      f (live (s.redis.quotes quote.id) s.now) := by
    cases hlive : live (s.redis.quotes quote.id) s.now with
    | none => rw [hknone]; rfl
    | some quote' =>
      obtain rfl := hfound hlive
      rw [hksome quote' rfl]
      rfl
  refine ⟨_, l.after s.seq (.redis (.getdel quote.id)) (.ok (live (s.redis.quotes quote.id) s.now)),
    live (s.redis.quotes quote.id) s.now, Sys.step_run hth rfl, ?_, fun hgot => ?_, fun hfree => ?_⟩
  · rw [Sys.setThread_self, hprog]
  · -- it was in Redis, and so in no hand
    rintro t' th' hth' - hhand
    obtain ⟨deadline, hentry, -⟩ := live_eq_some_iff.mp hgot
    have hnone : s.redis.quotes quote.id = none :=
      hexclusive.apart t' quote ((congrArg Trail.hand (Sys.trail_eq hth')).trans hhand)
    rw [hentry] at hnone
    cases hnone
  · -- it is in nobody's hand, and so in Redis
    rcases hlocated quote hissued hnow with ⟨deadline, hentry⟩ | ⟨t', ht'⟩
    · exact live_eq_some_iff.mpr ⟨deadline, hentry, hnow.trans_le
        (hknown.store _ quote deadline hentry).2.2⟩
    · cases hth' : s.threads t' with
      | none =>
        have hempty : s.custody.hand t' = none := by
          simp [Sys.custody, Sys.trail, hth']
        rw [hempty] at ht'
        cases ht'
      | some th' =>
        have hhand : th'.state.trail.hand = some quote :=
          (congrArg Trail.hand (Sys.trail_eq hth')).symm.trans ht'
        by_cases howner : th'.state.req.userId = quote.userId
        · exact absurd hhand (hunredeemed t' th' hth' howner)
        · exact absurd hhand (hfree t' th' hth' howner)

/-- User 1 gets the quote 3. -/
def quoteRun : List Event :=
  [.spawn (.createQuote 1 "USD" "EUR" 1000), .run 1 (.rates parRates)] ++ serve 1 3

lemma GetdelAvailable.of_noFailure (h : NoFailure s e) : GetdelAvailable s e := by
  unfold GetdelAvailable
  split
  · exact absurd h id
  · trivial

/-- The owner redeems its quote while nobody else has it in hand. -/
theorem owner_gets_quote : ∃ s s' quote th, Runs {} GetdelAvailable Sys.initial s ∧
    s.step {} (.run 6 .ok) = some s' ∧ s'.threads 6 = some th ∧
    th.consumed = some (some quote) := by
  have hplay : (runAll (Sys.step {}) NoFailure Sys.initial quoteRun).any (fun s => s.seq = 6 ∧
      (s.trail 1).issued.any fun quote => quote.userId = 1 ∧ s.now < quote.expiresAt ∧
        ∀ t < s.seq, (s.trail t).hand ≠ some quote) = true := by decide +kernel
  obtain ⟨s, hrun, hs⟩ := exists_of_runAll hplay
  simp only [Bool.decide_and, Bool.and_eq_true, decide_eq_true_eq, Option.any_eq_true] at hs
  obtain ⟨hseq, quote, hissued, hu, hnow, hhands⟩ := hs
  have hinv := inv_of_reachable (reachable_of_runs hrun)
  -- the owner calls `consumeQuote`
  set req : Request := .consumeQuote quote.userId quote.id
  have hrun' : Runs {} GetdelAvailable Sys.initial
      (s.setThread 6 { state := { req }, prog := req.program {} }) := by
    rw [← hseq]
    exact (hrun.mono fun _ _ => GetdelAvailable.of_noFailure).tail (e := .spawn req) trivial rfl
  have hfree : ∀ t th, (s.setThread 6 { state := { req }, prog := req.program {} }).threads t =
      some th → th.state.trail.hand ≠ some quote := by
    intro t th hth
    rcases eq_or_ne t 6 with rfl | hne
    · rw [Sys.setThread_self] at hth
      cases hth
      simp
    · rw [Sys.setThread_of_ne hne] at hth
      rw [← Sys.trail_eq hth]
      exact hhands t (hinv.lt_seq hth)
  obtain ⟨s', l', found, hstep, hth', hgot⟩ := owner_gets_quote_iff hrun'
    ((Sys.issued_setThread rfl).mpr (Or.inr ⟨1, by decide, hissued⟩)) hnow
    (fun t th hth _ => hfree t th hth) (Sys.setThread_self _)
  refine ⟨_, s', quote, _, hrun', hstep, hth', ?_⟩
  rw [hgot.mpr fun t th hth _ => hfree t th hth]
  rfl

/-- Another user's call has taken the quote and not put it back when the owner asks. -/
theorem owner_denied_between_commands : ∃ s quote th, Runs {} NoFailure Sys.initial s ∧
    s.Issued quote ∧ s.now < quote.expiresAt ∧ s.threads 8 = some th ∧
    th.state.req = .consumeQuote quote.userId quote.id ∧ th.consumed = some none ∧
    ∀ t th, s.threads t = some th → th.state.req.userId = quote.userId →
      th.state.trail.hand ≠ some quote := by
  have hplay : (runAll (Sys.step {}) NoFailure Sys.initial (quoteRun ++
      [.spawn (.consumeQuote 2 3), .run 6 .ok, .spawn (.consumeQuote 1 3), .run 8 .ok])).any
      (fun s => (s.trail 1).issued.any fun quote => s.now < quote.expiresAt ∧
        (s.threads 8).any (fun th => th.state.req = .consumeQuote quote.userId quote.id ∧
          th.consumed = some none) ∧
        ∀ t < s.seq, (s.threads t).all fun th => th.state.req.userId = quote.userId →
          th.state.trail.hand ≠ some quote) = true := by decide +kernel
  obtain ⟨s, hrun, hs⟩ := exists_of_runAll hplay
  simp only [Bool.decide_and, Bool.and_eq_true, decide_eq_true_eq, Option.any_eq_true,
    Option.all_eq_true] at hs
  obtain ⟨quote, hissued, hnow, ⟨th, hth, hreq, hconsumed⟩, hhands⟩ := hs
  refine ⟨s, quote, th, hrun, ⟨1, hissued⟩, hnow, hth, hreq, hconsumed, fun t th hth => ?_⟩
  exact hhands t ((inv_of_reachable (reachable_of_runs hrun)).lt_seq hth) th hth

/-! ## How long a quote binds -/

/-- The key of a command that reads a quote. -/
def Cmd.reads : Cmd → Option QuoteId
  | .redis (.getdel q) => some q
  | .redis (.get q) => some q
  | _ => none

/-- The key and the quote of a SET. -/
def Cmd.sets : Cmd → Option (QuoteId × Quote)
  | .redis (.set q quote _) => some (q, quote)
  | _ => none

/-- Whoever stores the quote `q` does so at the time that it has read from the clock, when a
whole number of seconds is left until the quote expires. -/
def SetInTime (q : QuoteId) (s : Sys) : Event → Prop
  | .run t .ok => ∀ w ∈ (s.next t).bind Cmd.sets, w.1 = q →
      (s.trail t).clock = s.now ∧ (1000 : ℤ) ∣ w.2.expiresAt - s.now
  | _ => True

instance (q : QuoteId) (s : Sys) : DecidablePred (SetInTime q s)
  | .run t .ok => inferInstanceAs (Decidable (∀ w ∈ (s.next t).bind Cmd.sets, w.1 = q →
      (s.trail t).clock = s.now ∧ (1000 : ℤ) ∣ w.2.expiresAt - s.now))
  | .run _ .fail => isTrue trivial
  | .run _ (.rates _) => isTrue trivial
  | .spawn _ => isTrue trivial
  | .crash _ => isTrue trivial
  | .tick _ => isTrue trivial

/-- The quote `q` is not stored for longer than its lifetime. -/
abbrev inTimeRules (q : QuoteId) : Rules QuoteId Quote :=
  quoteRules (fun quote deadline => quote.id = q → deadline ≤ quote.expiresAt) True

/-- A time to live that is counted from the current time in whole seconds is exact. -/
lemma Reaches.deadline_eq {l : Local} {ex time : ℕ} (h : Reaches l quote ex)
    (hclock : l.trail.clock = time) (hwhole : (1000 : ℤ) ∣ quote.expiresAt - time) :
    time + 1000 * ex = quote.expiresAt := by
  obtain ⟨hle, hlt⟩ := h
  obtain ⟨m, hm⟩ := hwhole
  omega

lemma inTime_of_runs (h : Runs cfg (SetInTime q) Sys.initial s) :
    Known (inTimeRules q) s.custody := by
  have hinitial : Known (inTimeRules q) Sys.initial.custody := by
    constructor <;> simp [Sys.custody, Sys.initial, Redis.empty, Sys.trail, Sys.Issued]
  refine h.invariant (I := fun s => Known (inTimeRules q) s.custody) hinitial
    fun s e s' hrun hknown hok hstep => ?_
  have hreach := reachable_of_runs hrun
  refine hknown.step ((inv_of_reachable hreach).custodyStep (ids_of_reachable hreach)
    (fun t th quote ex he hth hnext hreaches hid => ?_) (fun _ _ => trivial) hstep)
  subst he
  obtain ⟨hclock, hwhole⟩ := hok (quote.id, quote) (by rw [Sys.next_eq hth, hnext]; rfl) hid
  rw [Sys.trail_eq hth] at hclock
  exact (hreaches.deadline_eq hclock hwhole).le

/-- What a command brings into the hand was read from Redis before its deadline. -/
lemma QuoteStep.hand {l l' : Local} {c : Cmd} {choice : Choice}
    (h : QuoteStep cfg s l c choice l' s₁) (hquote : l'.trail.hand = some quote) :
    l.trail.hand = some quote ∨ choice = .ok ∧ ∃ q, c.reads = some q ∧
      live (s.redis.quotes q) s.now = some quote := by
  cases h with
  | same hquotes hsame => exact Or.inl (hsame.hand ▸ hquote)
  | now hquotes hsame => exact Or.inl (hsame.hand ▸ hquote)
  | take q hc hchoice hnone hquotes hl' =>
    exact Or.inr ⟨hchoice, q, by rw [hc]; rfl, by rwa [hl'] at hquote⟩
  | peek q hc hchoice hfellBack hnone hquotes hl' =>
    exact Or.inr ⟨hchoice, q, by rw [hc]; rfl, by rwa [hl'] at hquote⟩
  | _ => exact Or.inl (by simp_all)

/-- A read that gets the quote takes place before it expires. -/
lemma lt_of_hand (h : Runs cfg (SetInTime q) Sys.initial s) (hid : quote.id = q)
    (hstep : s.step cfg e = some s') (hold : (s.trail t).hand ≠ some quote)
    (hhand : (s'.trail t).hand = some quote) :
    e = .run t .ok ∧ (s.next t).bind Cmd.reads = some q ∧ s.now < quote.expiresAt := by
  have hinv := inv_of_reachable (reachable_of_runs h)
  rcases hinv.trail_step hstep t with htrail | ⟨choice, l, c, k, s₁, r, rfl, hth, hrespond, htrail⟩
  · exact absurd (htrail ▸ hhand) hold
  rw [htrail] at hhand
  rcases (hinv.quoteStep hth hrespond).hand hhand with hl | ⟨rfl, q', hc, hlive⟩
  · exact absurd ((congrArg Trail.hand (Sys.trail_eq hth)).trans hl) hold
  obtain ⟨deadline, hentry, hlt⟩ := live_eq_some_iff.mp hlive
  obtain ⟨rfl, -, hbound⟩ := (inTime_of_runs h).store q' quote deadline hentry
  refine ⟨rfl, ?_, hlt.trans_le (hbound hid)⟩
  rw [Sys.next_call hth, Option.bind_some, hc]
  exact congrArg some hid

/-- What a call has in hand it has read from Redis. -/
lemma exists_read (h : Runs cfg (SetInTime q) Sys.initial s) (hid : quote.id = q)
    (hhand : (s.trail t).hand = some quote) : ∃ s₀ s₁, Runs cfg (SetInTime q) Sys.initial s₀ ∧
      s₀.step cfg (.run t .ok) = some s₁ ∧ Runs cfg (SetInTime q) s₁ s ∧
      (s₀.next t).bind Cmd.reads = some q ∧ (s₁.trail t).hand = some quote ∧
      s₀.now < quote.expiresAt := by
  induction h with
  | refl => cases hhand
  | @tail s s' e hrun hok hstep ih =>
    by_cases hheld : (s.trail t).hand = some quote
    · obtain ⟨s₀, s₁, hrun₀, hstep₀, hrun₁, hread⟩ := ih hheld
      exact ⟨s₀, s₁, hrun₀, hstep₀, hrun₁.tail hok hstep, hread⟩
    · -- the quote comes into the hand by this step
      obtain ⟨rfl, hreads, hlt⟩ := lt_of_hand hrun hid hstep hheld hhand
      exact ⟨s, s', hrun, hstep, Transition.Runs.refl, hreads, hhand, hlt⟩

lemma hand_of_consumed (h : Reachable cfg s) {th : Thread} (hth : s.threads t = some th)
    (hconsumed : th.consumed = some (some quote)) : (s.trail t).hand = some quote := by
  have hbacked := (inv_of_reachable h).answer hth (Thread.answer_of_consumed hconsumed)
  rw [Sys.trail_eq hth, (hbacked.2.2.2 quote rfl).1]

/-- A call that is about to read a quote has none in hand. -/
lemma hand_of_reads {l : Local} {c : Cmd} (hguard : guard cfg l c) (hc : c.reads = some q) :
    l.trail.hand = none := by
  unfold Cmd.reads at hc
  split at hc
  · exact hguard.2.1
  · exact hguard.2.1
  · cases hc

/-- While whoever stores the quote does so in time, no read of Redis at or after its expiry
gets it, and what `consumeQuote` has returned was got by a read before. -/
theorem quote_binds_until_expiry (h : Runs cfg (SetInTime q) Sys.initial s) :
    (∀ t s' quote, (s.next t).bind Cmd.reads = some q → s.step cfg (.run t .ok) = some s' →
      (s'.trail t).hand = some quote → quote.id = q → s.now < quote.expiresAt) ∧
    ∀ t th quote, s.threads t = some th → th.consumed = some (some quote) → quote.id = q →
      ∃ s₀ s₁, Runs cfg (SetInTime q) Sys.initial s₀ ∧ s₀.step cfg (.run t .ok) = some s₁ ∧
        Runs cfg (SetInTime q) s₁ s ∧ (s₀.next t).bind Cmd.reads = some q ∧
        (s₁.trail t).hand = some quote ∧ s₀.now < quote.expiresAt := by
  have hreach := reachable_of_runs h
  refine ⟨fun t s' quote hreads hstep hhand hid => ?_, fun t th quote hth hconsumed hid =>
    exists_read h hid (hand_of_consumed hreach hth hconsumed)⟩
  refine (lt_of_hand h hid hstep (fun hold => ?_) hhand).2.2
  cases Sys.step_of_eq hstep with
  | @run _ _ l c k s₁ r hth hrespond =>
    rw [Sys.next_call hth, Option.bind_some] at hreads
    have hnone := hand_of_reads ((inv_of_reachable hreach).guard hth) hreads
    rw [Sys.trail_eq hth, show l.trail.hand = none from hnone] at hold
    cases hold

/-- The quote is stored in the millisecond in which its expiry was computed, and redeemed
within its lifetime. -/
theorem owner_reads_before_expiry : ∃ s₀ s₁, ∃ quote : Quote,
    Runs {} (SetInTime 3) Sys.initial s₀ ∧
    s₀.step {} (.run 6 .ok) = some s₁ ∧ (s₀.next 6).bind Cmd.reads = some quote.id ∧
    s₀.now < quote.expiresAt := by
  have hplay : (runAll (Sys.step {}) (SetInTime 3) Sys.initial (quoteRun ++
      [.tick 9999, .spawn (.consumeQuote 1 3), .run 6 .ok])).any (fun s =>
        (s.threads 6).any fun th => (th.consumed.bind id).any fun quote => quote.id = 3) =
      true := by decide +kernel
  obtain ⟨s, hrun, hs⟩ := exists_of_runAll hplay
  simp only [Option.any_eq_true, decide_eq_true_eq, Option.bind_eq_some_iff, id_eq,
    exists_eq_right] at hs
  obtain ⟨th, hth, quote, hconsumed, hid⟩ := hs
  obtain ⟨s₀, s₁, hrun₀, hstep, -, hreads, -, hlt⟩ :=
    (quote_binds_until_expiry hrun).2 6 th quote hth hconsumed hid
  exact ⟨s₀, s₁, quote, hrun₀, hstep, hid ▸ hreads, hlt⟩

/-- Half a second passes between the clock that the expiry is counted from and the time at
which the quote is stored; so it is read, and returned, when it has expired. -/
theorem owner_reads_after_expiry : ∃ s s' quote th, Runs {} NoFailure Sys.initial s ∧
    s.Issued quote ∧ quote.expiresAt ≤ s.now ∧ (s.next 6).bind Cmd.reads = some quote.id ∧
    s.step {} (.run 6 .ok) = some s' ∧ s'.threads 6 = some th ∧
    th.consumed = some (some quote) := by
  have hplay : (runAll (Sys.step {}) NoFailure Sys.initial
      [.spawn (.createQuote 1 "USD" "EUR" 1000), .run 1 (.rates parRates), .run 1 .ok, .run 1 .ok,
       .tick 500, .run 1 .ok, .tick 9500, .spawn (.consumeQuote 1 3)]).any (fun s =>
        (s.trail 1).issued.any fun quote => quote.expiresAt ≤ s.now ∧
          (s.next 6).bind Cmd.reads = some quote.id ∧
          (s.step {} (.run 6 .ok)).any fun s' => (s'.threads 6).any fun th =>
            th.consumed = some (some quote)) = true := by decide +kernel
  obtain ⟨s, hrun, hs⟩ := exists_of_runAll hplay
  simp only [Bool.decide_and, Bool.and_eq_true, decide_eq_true_eq, Option.any_eq_true] at hs
  obtain ⟨quote, hissued, hexpired, hreads, s', hstep, th, hth, hconsumed⟩ := hs
  exact ⟨s, s', quote, th, hrun, ⟨1, hissued⟩, hexpired, hreads, hstep, hth, hconsumed⟩

end FxExchange
