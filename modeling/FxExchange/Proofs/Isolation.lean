import FxExchange.Proofs.Pages
import FxExchange.Proofs.Readings
import FxExchange.Proofs.Terms

/-
# Isolation

Two runs in which a user makes the same requests, one after the other, while everybody else
does as they please.  What the user is shown of the movements, and of their own balances, is
the same in both; only the legs of the house come with balances that all users share.
-/

namespace FxExchange

open Transition

variable {cfg : Config} {s s' : Sys} {t : Tid} {u : UserId} {th th' : Thread}
  {j j' : JournalEntry}

/-! ## The same requests -/

/-- The threads serve the same request of the user in the two runs. -/
def Pair (u : UserId) (s s' : Sys) (th th' : Thread) : Prop :=
  ∃ i : ℕ, (s.calls u)[i]? = some th ∧ (s'.calls u)[i]? = some th'

/-- Where the user was given the quote `q` in the one run, it was `q'` in the other. -/
def SameQuote (u : UserId) (s s' : Sys) (q q' : QuoteId) : Prop :=
  ∀ th th' quote, Pair u s s' th th' → th.quote = some quote → quote.id = q →
    ∃ quote', th'.quote = some quote' ∧ quote'.id = q'

/-- The requests are the same, but for the id of the quote that they redeem. -/
def Request.Matches (same : QuoteId → QuoteId → Prop) : Request → Request → Prop
  | .consumeQuote u q, req' => ∃ q', req' = .consumeQuote u q' ∧ same q q'
  | .executeTrade u q k, req' => ∃ q', req' = .executeTrade u q' k ∧ same q q'
  | req, req' => req' = req

/-- The request was answered with success. -/
def Thread.Succeeds (th : Thread) : Prop := ∃ r, th.answer = some (.ok r)

/-- In both runs the user makes the same requests, gets the same rates for them, and all of
them succeed. -/
structure SameRequests (u : UserId) (s s' : Sys) : Prop where
  length : (s.calls u).length = (s'.calls u).length
  requests : ∀ th th', Pair u s s' th th' →
    th.state.req.Matches (SameQuote u s s') th'.state.req
  rates : ∀ th th', Pair u s s' th th' → ∀ x ∈ th.state.trail.rates,
    ∀ x' ∈ th'.state.trail.rates, x = x'
  succeeds : ∀ th ∈ s.calls u, th.Succeeds
  succeeds' : ∀ th ∈ s'.calls u, th.Succeeds

lemma Pair.mem (h : Pair u s s' th th') : th ∈ s.calls u ∧ th' ∈ s'.calls u := by
  obtain ⟨i, hi, hi'⟩ := h
  exact ⟨List.mem_of_getElem? hi, List.mem_of_getElem? hi'⟩

/-- Every request has its counterpart. -/
lemma SameRequests.exists_pair (h : SameRequests u s s') (hth : th ∈ s.calls u) :
    ∃ th', Pair u s s' th th' := by
  obtain ⟨i, hi, rfl⟩ := List.getElem_of_mem hth
  have hi' : i < (s'.calls u).length := h.length ▸ hi
  exact ⟨(s'.calls u)[i], i, List.getElem?_eq_getElem hi, List.getElem?_eq_getElem hi'⟩

lemma Request.Matches.key {same : QuoteId → QuoteId → Prop} {req req' : Request}
    (h : req.Matches same req') : req'.key = req.key := by
  cases req with
  | consumeQuote u q =>
    obtain ⟨q', rfl, -⟩ := h
    rfl
  | executeTrade u q k =>
    obtain ⟨q', rfl, -⟩ := h
    rfl
  | _ => exact congrArg Request.key h

/-! ## Who has booked -/

/-- An operation that has succeeded has answered a journal. -/
lemma exists_operation (h : Reachable cfg s) (hth : s.threads t = some th)
    (hkey : th.state.req.key ≠ none) (hsucceeds : th.Succeeds) : ∃ r, th.operation = some r := by
  obtain ⟨r, hr⟩ := hsucceeds
  have hanswer := (inv_of_reachable h).answer hth hr
  cases r with
  | operation r => exact ⟨r, by rw [Thread.operation, hr]⟩
  | consumed found => exact absurd hanswer.2.2.1 hkey
  | _ => exact absurd hanswer.2.2 hkey

/-- Of the requests of a sequential user with one key the first has booked. -/
lemma Session.booked_iff (h : Session u s) (hreach : Reachable cfg s)
    (hsucceeds : ∀ th ∈ s.calls u, th.Succeeds) {pre post : List Thread}
    (hcalls : s.calls u = pre ++ th :: post) : th.state.trail.booked ≠ none ↔
      th.state.req.key ≠ none ∧ ∀ th₀ ∈ pre, th₀.state.req.key ≠ th.state.req.key := by
  have hinv := inv_of_reachable hreach
  have hhist := history_of_reachable hreach
  have hmem {th₀ : Thread} (hth₀ : th₀ ∈ pre) : th₀ ∈ s.calls u := by
    rw [hcalls]
    exact List.mem_append_left _ hth₀
  have hself : th ∈ s.calls u := by simp [hcalls]
  obtain ⟨t, hth, hu⟩ := (Sys.mem_calls hinv).mp hself
  constructor
  · intro hbooked
    obtain ⟨tx, htx⟩ := Option.ne_none_iff_exists'.mp hbooked
    obtain ⟨th₁, j, hth₁, -, hbooks⟩ := hhist.booked _ (hhist.closed t th tx hth htx).2
    obtain rfl := Option.some.inj (hth.symm.trans hth₁)
    have hkey : th.state.req.key ≠ none := by simp [hbooks.key]
    refine ⟨hkey, fun th₀ hth₀ heq => ?_⟩
    obtain ⟨t₀, ht₀, -⟩ := (Sys.mem_calls hinv).mp (hmem hth₀)
    obtain ⟨r, hr⟩ := exists_operation hreach ht₀ (heq ▸ hkey) (hsucceeds th₀ (hmem hth₀))
    exact (h.each pre th post hcalls).fresh hbooked th₀ hth₀ r hr heq
  · rintro ⟨hkey, hfirst⟩ hnone
    obtain ⟨r, hr⟩ := exists_operation hreach hth hkey (hsucceeds th hself)
    obtain ⟨hj, hju, hjk⟩ := journal_of_answer hreach hth (Thread.answer_of_operation hr)
    -- some other request of the user has booked the journal
    obtain ⟨t₁, th₁, tx, hth₁, -, hbooked, hbooks⟩ := hhist.books_of_mem hj
    have hk₁ : th₁.state.req.key = th.state.req.key := hbooks.key.trans hjk.symm
    have hmem₁ : th₁ ∈ pre ++ th :: post := by
      rw [← hcalls, Sys.mem_calls hinv]
      exact ⟨t₁, hth₁, by rw [← hbooks.userId, hju, hu]⟩
    rcases List.mem_append.mp hmem₁ with hpre | hpost
    · exact hfirst th₁ hpre hk₁
    rcases List.mem_cons.mp hpost with rfl | hpost
    · rw [hnone] at hbooked
      cases hbooked
    · -- it was made later, when the key was taken
      obtain ⟨mid, post', rfl⟩ := List.append_of_mem hpost
      refine (h.each (pre ++ th :: mid) th₁ post' (by simp [hcalls])).fresh (by simp [hbooked]) th
        (by simp) r hr hk₁.symm

/-- What a request has booked, by its sides. -/
lemma exists_books (h : Reachable cfg s) (hth : s.threads t = some th)
    (hbooked : th.state.trail.booked ≠ none) : ∃ tx j, th.journals = [j] ∧
      Books th.state.req th.state.trail.hand tx j ∧
      th.state.req.exactSides th.state.trail.hand th.state.trail.rates =
        some (j.legs.map LedgerEntryInput.side) := by
  obtain ⟨tx, htx⟩ := Option.ne_none_iff_exists'.mp hbooked
  have hhist := history_of_reachable h
  have hcommit := (hhist.closed t th tx hth htx).2
  obtain ⟨th₁, j, hth₁, -, hbooks⟩ := hhist.booked _ hcommit
  obtain rfl := Option.some.inj (hth.symm.trans hth₁)
  obtain ⟨s₀, s₁, ⟨hreach, ⟨choice, hstep⟩, -⟩, -, hputs⟩ :=
    exists_putsIn h hth hcommit hbooks.journals
  refine ⟨tx, j, ?_, hbooks, exactSides_of_books h hth htx hbooks fun e he =>
    hputs.bounds hreach (hreach.tail trivial hstep) hbooks.sound he⟩
  rw [Thread.journals, htx]
  exact hbooks.journals

/-! ## What is booked -/

/-- A side as it is shown to a user with these balances. -/
def Side.shown (p : Purse) (sd : Side) : ShownLeg where
  type := sd.type
  currency := sd.currency
  amount := sd.amount
  balances :=
    if sd.walletId = .house then none
    else some ((p sd.currency).getD 0, match sd.type with
      | .credit => (p sd.currency).getD 0 + sd.amount
      | .debit => (p sd.currency).getD 0 - sd.amount)

lemma LedgerEntryInput.Sound.shown_eq {e : LedgerEntryInput} (h : e.Sound) {p : Purse}
    (hbefore : e.walletId ≠ .house → e.balanceBefore = (p e.currency).getD 0) :
    e.shown = e.side.shown p := by
  have hafter := h.after_eq
  obtain ⟨w, u, type, c, a, b, b'⟩ := e
  by_cases hhouse : w = .house
  · simp [LedgerEntryInput.shown, Side.shown, side, hhouse]
  · obtain rfl : b = (p c).getD 0 := hbefore hhouse
    cases type with
    | credit =>
      obtain rfl : b' = (p c).getD 0 + a := hafter
      rfl
    | debit =>
      obtain rfl : b' = (p c).getD 0 + -a := hafter
      simp [LedgerEntryInput.shown, Side.shown, side, hhouse, sub_eq_add_neg]

/-- The journal of a request is shown alike, whoever else has been about. -/
lemma JournalEntry.shown_eq {p : Purse} (hpurpose : j.purpose = j'.purpose)
    (hstatus : j.status = j'.status) (hkey : j.idempotencyKey = j'.idempotencyKey)
    (hsides : j.legs.map LedgerEntryInput.side = j'.legs.map LedgerEntryInput.side)
    (hsound : ∀ e ∈ j.legs, e.Sound) (hsound' : ∀ e ∈ j'.legs, e.Sound)
    (hbefore : ∀ e ∈ j.legs, e.walletId ≠ .house → e.balanceBefore = (p e.currency).getD 0)
    (hbefore' : ∀ e ∈ j'.legs, e.walletId ≠ .house → e.balanceBefore = (p e.currency).getD 0) :
    j.shown = j'.shown := by
  have hlegs {j : JournalEntry} (hsound : ∀ e ∈ j.legs, e.Sound)
      (hbefore : ∀ e ∈ j.legs, e.walletId ≠ .house → e.balanceBefore = (p e.currency).getD 0) :
      j.legs.map LedgerEntryInput.shown =
        (j.legs.map LedgerEntryInput.side).map (Side.shown p) := by
    rw [List.map_map]
    exact List.map_congr_left fun e he => (hsound e he).shown_eq (hbefore e he)
  rw [shown, shown, ShownJournal.mk.injEq]
  exact ⟨hpurpose, hstatus, hkey, by rw [hlegs hsound hbefore, hlegs hsound' hbefore', hsides]⟩

/-- What a request is for does not depend on ids. -/
lemma Request.Matches.purpose {same : QuoteId → QuoteId → Prop} {req req' : Request}
    (h : req.Matches same req') {hand hand' : Option Quote} (hj : Carries req hand j)
    (hj' : Carries req' hand' j') : j.purpose = j'.purpose := by
  cases req with
  | fundWallet u c a k =>
    obtain rfl : req' = _ := h
    obtain ⟨_, _, -, -, hpurpose, -⟩ := hj
    obtain ⟨_, _, -, -, hpurpose', -⟩ := hj'
    rw [hpurpose, hpurpose']
  | convertFunds u f t a k context =>
    obtain rfl : req' = _ := h
    obtain ⟨_, _, _, _, -, -, -, -, hpurpose, -⟩ := hj
    obtain ⟨_, _, _, _, -, -, -, -, hpurpose', -⟩ := hj'
    rw [hpurpose, hpurpose']
  | executeTrade u q k =>
    obtain ⟨q', rfl, -⟩ := h
    obtain ⟨_, -, -, -, hpurpose, -⟩ := hj
    obtain ⟨_, -, -, -, hpurpose', -⟩ := hj'
    rw [hpurpose, hpurpose']
  | _ => exact hj.elim

/-! ## Quotes -/

/-- The terms of a request for a quote depend on its rates only. -/
lemma terms_eq {req : Request} {rates rates' : Option VersionedRates} {x x' : Terms}
    (hrates : ∀ r ∈ rates, ∀ r' ∈ rates', r = r') (hx : req.terms cfg rates = some x)
    (hx' : req.terms cfg rates' = some x') : x = x' := by
  have hsome {rates : Option VersionedRates} {x : Terms} (h : req.terms cfg rates = some x) :
      ∃ r, rates = some r := by
    cases rates with
    | some r => exact ⟨r, rfl⟩
    | none => cases req <;> simp [Request.terms] at h
  obtain ⟨r, rfl⟩ := hsome hx
  obtain ⟨r', rfl⟩ := hsome hx'
  rw [hrates r rfl r' rfl] at hx
  exact Option.some.inj (hx.symm.trans hx')

/-- A quote that a request of the user has in hand was given to the user. -/
lemma exists_quote (h : Reachable cfg s) (hsucceeds : ∀ th ∈ s.calls u, th.Succeeds)
    (hth : s.threads t = some th) {q : Quote} (hhand : th.state.trail.hand = some q)
    (hq : q.userId = u) : ∃ t₀ th₀, s.threads t₀ = some th₀ ∧ th₀ ∈ s.calls u ∧
      th₀.state.trail.issued = some q ∧ th₀.quote = some q := by
  have hissued : s.Issued q := (known_of_reachable h).hand t q (by
    show (s.trail t).hand = _
    rw [Sys.trail_eq hth, hhand])
  obtain ⟨t₀, ht₀⟩ := hissued
  cases hth₀ : s.threads t₀ with
  | none =>
    rw [Sys.trail, hth₀] at ht₀
    cases ht₀
  | some th₀ =>
    rw [Sys.trail_eq hth₀] at ht₀
    have hmem : th₀ ∈ s.calls u := by
      rw [Sys.mem_calls (inv_of_reachable h)]
      exact ⟨t₀, hth₀, by rw [← (ids_of_reachable h).owner t₀ th₀ q hth₀ ht₀, hq]⟩
    obtain ⟨r, hr⟩ := hsucceeds th₀ hmem
    exact ⟨t₀, th₀, hth₀, hmem, ht₀, quote_of_issued h hth₀ ht₀ hr⟩

/-- The quotes that the user redeems in the two runs are on the same terms. -/
lemma SameRequests.terms_eq (h : SameRequests u s s') (hreach : Reachable cfg s)
    (hreach' : Reachable cfg s') {t' : Tid} (hth : s.threads t = some th)
    (hth' : s'.threads t' = some th') {q q' : Quote} (hhand : th.state.trail.hand = some q)
    (hhand' : th'.state.trail.hand = some q') (hq : q.userId = u) (hq' : q'.userId = u)
    (hsame : SameQuote u s s' q.id q'.id) : q.terms = q'.terms := by
  obtain ⟨t₀, th₀, hth₀, hmem, hissued, hquote⟩ :=
    exists_quote hreach h.succeeds hth hhand hq
  obtain ⟨t₁, th₁, hth₁, -, hissued₁, -⟩ := exists_quote hreach' h.succeeds' hth' hhand' hq'
  obtain ⟨th₀', hpair⟩ := h.exists_pair hmem
  obtain ⟨quote', hquote', hid⟩ := hsame th₀ th₀' q hpair hquote rfl
  have hreq := isQuote_of_issued hreach hth₀ hissued
  have hmatch : th₀'.state.req = th₀.state.req := by
    have hmatches := h.requests th₀ th₀' hpair
    generalize th₀.state.req = req at hreq hmatches ⊢
    cases req with
    | createQuote u f t a => exact hmatches
    | _ => cases hreq
  obtain ⟨t₀', hth₀', -⟩ := (Sys.mem_calls (inv_of_reachable hreach')).mp hpair.mem.2
  obtain ⟨hissued', hterms'⟩ := issued_of_quote hreach' hth₀' (hmatch ▸ hreq) hquote'
  -- no two quotes have one id
  obtain rfl := (ids_of_reachable hreach').distinct.unique t₀' t₁ th₀' th₁ q'.id hth₀' hth₁
    (Or.inr ⟨quote', hissued', hid⟩) (Or.inr ⟨q', hissued₁, rfl⟩)
  obtain rfl := Option.some.inj (hth₀'.symm.trans hth₁)
  obtain rfl := Option.some.inj (hissued'.symm.trans hissued₁)
  have hterms := (issued_of_quote hreach hth₀ hreq hquote).2
  rw [hmatch] at hterms'
  exact FxExchange.terms_eq (h.rates th₀ th₀' hpair) hterms hterms'

/-- The sides of matching requests, at the same rates and by quotes on the same terms. -/
lemma Request.Matches.sides_eq {same : QuoteId → QuoteId → Prop} {req req' : Request}
    (h : req.Matches same req') {hand hand' : Option Quote} {rates rates' : Option VersionedRates}
    (hrates : ∀ r ∈ rates, ∀ r' ∈ rates', r = r')
    (hhand : ∀ u q k, req = .executeTrade u q k → ∀ q ∈ hand, ∀ q' ∈ hand', q.terms = q'.terms)
    {sides sides' : List Side} (hsides : req.exactSides hand rates = some sides)
    (hsides' : req'.exactSides hand' rates' = some sides') : sides = sides' := by
  cases req with
  | fundWallet u c a k =>
    obtain rfl : req' = _ := h
    cases a with
    | integer a => exact Option.some.inj (hsides.symm.trans hsides')
    | notInteger => cases hsides
  | convertFunds u f t a k context =>
    obtain rfl : req' = _ := h
    cases a with
    | notInteger => cases hsides
    | integer a =>
      cases rates with
      | none => simp [exactSides] at hsides
      | some r =>
        cases rates' with
        | none => simp [exactSides] at hsides'
        | some r' =>
          rw [hrates r rfl r' rfl] at hsides
          exact Option.some.inj (hsides.symm.trans hsides')
  | executeTrade u q k =>
    obtain ⟨q', rfl, -⟩ := h
    obtain ⟨quote, hquote, rfl⟩ := Option.map_eq_some_iff.mp hsides
    obtain ⟨quote', hquote', rfl⟩ := Option.map_eq_some_iff.mp hsides'
    have hterms := hhand u q k rfl quote hquote quote' hquote'
    simp only [Quote.terms, Terms.mk.injEq] at hterms
    obtain ⟨hf, ht, hin, hout⟩ := hterms
    rw [hf, ht, hin, hout]
  | _ => cases hsides

/-- Corresponding requests have the same sides. -/
lemma SameRequests.sides_eq (h : SameRequests u s s') (hreach : Reachable cfg s)
    (hreach' : Reachable cfg s') (hpair : Pair u s s' th th') {tx tx' : Tx}
    (hbooks : Books th.state.req th.state.trail.hand tx j)
    (hbooks' : Books th'.state.req th'.state.trail.hand tx' j') {sides sides' : List Side}
    (hsides : th.state.req.exactSides th.state.trail.hand th.state.trail.rates = some sides)
    (hsides' : th'.state.req.exactSides th'.state.trail.hand th'.state.trail.rates =
      some sides') : sides = sides' := by
  obtain ⟨t, hth, hu⟩ := (Sys.mem_calls (inv_of_reachable hreach)).mp hpair.mem.1
  obtain ⟨t', hth', -⟩ := (Sys.mem_calls (inv_of_reachable hreach')).mp hpair.mem.2
  have hmatch := h.requests th th' hpair
  refine hmatch.sides_eq (h.rates th th' hpair) (fun v q k hreq quote hhand quote' hhand' => ?_)
    hsides hsides'
  have hcarries := hbooks.carries
  have hcarries' := hbooks'.carries
  rw [hreq] at hmatch hcarries hu
  obtain ⟨q', hreq', hsame⟩ := hmatch
  rw [hreq'] at hcarries'
  obtain ⟨quote₁, hhand₁, rfl, howner, -⟩ := hcarries
  obtain ⟨quote₁', hhand₁', rfl, howner', -⟩ := hcarries'
  obtain rfl := Option.some.inj (hhand.symm.trans hhand₁)
  obtain rfl := Option.some.inj (hhand'.symm.trans hhand₁')
  exact h.terms_eq hreach hreach' hth hth' hhand hhand' (howner.trans hu) (howner'.trans hu) hsame

/-! ## What is shown -/

lemma eq_take_cons_drop {α : Type} {xs : List α} {i : ℕ} {x : α} (h : xs[i]? = some x) :
    xs = xs.take i ++ x :: xs.drop (i + 1) := by
  obtain ⟨hi, rfl⟩ := List.getElem?_eq_some_iff.mp h
  rw [← List.drop_eq_getElem_cons hi, List.take_append_drop]

lemma SameRequests.keys (h : SameRequests u s s') :
    (s.calls u).map (fun th => th.state.req.key) = (s'.calls u).map fun th => th.state.req.key := by
  refine List.ext_getElem (by simp [h.length]) fun i hi hi' => ?_
  rw [List.length_map] at hi hi'
  rw [List.getElem_map, List.getElem_map]
  exact (h.requests _ _ ⟨i, List.getElem?_eq_getElem hi, List.getElem?_eq_getElem hi'⟩).key.symm

/-- A journal starts from the balances by the requests before. -/
lemma Session.before (h : Session u s) (hreach : Reachable cfg s) {n : ℕ}
    (hth : (s.calls u)[n]? = some th) (hj : th.journals = [j]) {e : LedgerEntryInput}
    (he : e ∈ j.legs) (hown : e.walletId ≠ .house) :
    e.balanceBefore =
      (purseOf (((s.calls u).take n).flatMap Thread.journals) e.currency).getD 0 := by
  have hjournals : s.journalsOf u = ((s.calls u).take n).flatMap Thread.journals ++
      j :: ((s.calls u).drop (n + 1)).flatMap Thread.journals := by
    rw [h.journals]
    conv_lhs => rw [eq_take_cons_drop hth]
    rw [List.flatMap_append, List.flatMap_cons, hj]
    rfl
  exact (chained_of_reachable hreach u).before _ _ _ hjournals e he hown

/-- Corresponding requests have booked alike, if the ones before them have. -/
lemma SameRequests.shown_next (h : SameRequests u s s') (hreach : Reachable cfg s)
    (hreach' : Reachable cfg s') (hs : Session u s) (hs' : Session u s') {n : ℕ}
    (hth : (s.calls u)[n]? = some th) (hth' : (s'.calls u)[n]? = some th')
    (hbefore : (((s.calls u).take n).flatMap Thread.journals).map JournalEntry.shown =
      (((s'.calls u).take n).flatMap Thread.journals).map JournalEntry.shown) :
    th.journals.map JournalEntry.shown = th'.journals.map JournalEntry.shown := by
  have hpair : Pair u s s' th th' := ⟨n, hth, hth'⟩
  have hmatch := h.requests th th' hpair
  have hkeys : ((s.calls u).take n).map (fun th => th.state.req.key) =
      ((s'.calls u).take n).map fun th => th.state.req.key := by
    rw [List.map_take, List.map_take, h.keys]
  -- either both have booked, or none
  have hiff : th.state.trail.booked ≠ none ↔ th'.state.trail.booked ≠ none := by
    have hfirst {ths : List Thread} (k : Option String) :
        (∀ th₀ ∈ ths, th₀.state.req.key ≠ k) ↔ k ∉ ths.map fun th => th.state.req.key := by
      simp
    rw [hs.booked_iff hreach h.succeeds (eq_take_cons_drop hth),
      hs'.booked_iff hreach' h.succeeds' (eq_take_cons_drop hth'), hmatch.key, hfirst, hfirst,
      hkeys]
  by_cases hbooked : th.state.trail.booked = none
  · have hbooked' : th'.state.trail.booked = none := by
      by_contra hne
      exact hiff.mpr hne hbooked
    simp [Thread.journals, hbooked, hbooked']
  obtain ⟨t, hthread, -⟩ := (Sys.mem_calls (inv_of_reachable hreach)).mp hpair.mem.1
  obtain ⟨t', hthread', -⟩ := (Sys.mem_calls (inv_of_reachable hreach')).mp hpair.mem.2
  obtain ⟨tx, j, hj, hbooks, hsides⟩ := exists_books hreach hthread hbooked
  obtain ⟨tx', j', hj', hbooks', hsides'⟩ := exists_books hreach' hthread' (hiff.mp hbooked)
  have hkey : j.idempotencyKey = j'.idempotencyKey := by
    have hkeys := hmatch.key
    rw [hbooks.key, hbooks'.key] at hkeys
    exact (Option.some.inj hkeys).symm
  rw [hj, hj', List.map_singleton, List.map_singleton, JournalEntry.shown_eq
    (hmatch.purpose hbooks.carries hbooks'.carries) (hbooks.status.trans hbooks'.status.symm) hkey
    (h.sides_eq hreach hreach' hpair hbooks hbooks' hsides hsides') hbooks.sound hbooks'.sound
    (fun e he hown => hs.before hreach hth hj he hown) fun e he hown => ?_]
  rw [purseOf, hbefore]
  exact hs'.before hreach' hth' hj' he hown

/-- The journals of the requests before the `n`-th one are shown alike. -/
lemma SameRequests.shown_take (h : SameRequests u s s') (hreach : Reachable cfg s)
    (hreach' : Reachable cfg s') (hs : Session u s) (hs' : Session u s') (n : ℕ) :
    (((s.calls u).take n).flatMap Thread.journals).map JournalEntry.shown =
      (((s'.calls u).take n).flatMap Thread.journals).map JournalEntry.shown := by
  induction n with
  | zero => rfl
  | succ n ih =>
    rw [List.take_add_one, List.take_add_one, List.flatMap_append, List.flatMap_append,
      List.map_append, List.map_append, ih]
    congr 1
    cases hth : (s.calls u)[n]? with
    | none =>
      have hth' : (s'.calls u)[n]? = none := by
        rw [List.getElem?_eq_none_iff, ← h.length]
        exact List.getElem?_eq_none_iff.mp hth
      rw [hth']
    | some th =>
      obtain ⟨hn, -⟩ := List.getElem?_eq_some_iff.mp hth
      rw [h.length] at hn
      have hth' := List.getElem?_eq_getElem hn
      rw [hth', Option.toList_some, Option.toList_some, List.flatMap_singleton,
        List.flatMap_singleton]
      exact h.shown_next hreach hreach' hs hs' hth hth' ih

/-- The journals of the user are shown alike. -/
lemma SameRequests.shown_eq (h : SameRequests u s s') (hreach : Reachable cfg s)
    (hreach' : Reachable cfg s') (hs : Session u s) (hs' : Session u s') :
    (s.journalsOf u).map JournalEntry.shown = (s'.journalsOf u).map JournalEntry.shown := by
  have hall := h.shown_take hreach hreach' hs hs' (s.calls u).length
  rw [List.take_length, List.take_of_length_le h.length.ge] at hall
  rw [hs.journals, hs'.journals, hall]

/-- The answers of corresponding operations are shown alike. -/
lemma SameRequests.operation (h : SameRequests u s s') (hreach : Reachable cfg s)
    (hreach' : Reachable cfg s') (hs : Session u s) (hs' : Session u s')
    (hpair : Pair u s s' th th') {r r' : OperationResponse} (hr : th.operation = some r)
    (hr' : th'.operation = some r') : r.journal.shown = r'.journal.shown := by
  obtain ⟨t, hth, hu⟩ := (Sys.mem_calls (inv_of_reachable hreach)).mp hpair.mem.1
  obtain ⟨t', hth', hu'⟩ := (Sys.mem_calls (inv_of_reachable hreach')).mp hpair.mem.2
  obtain ⟨hj, hju, hjk⟩ := journal_of_answer hreach hth (Thread.answer_of_operation hr)
  obtain ⟨hj', hju', hjk'⟩ := journal_of_answer hreach' hth' (Thread.answer_of_operation hr')
  have hmem : r.journal.shown ∈ (s'.journalsOf u).map JournalEntry.shown := by
    rw [← h.shown_eq hreach hreach' hs hs']
    exact List.mem_map_of_mem (List.mem_filter.mpr ⟨hj, by simp [hju, hu]⟩)
  obtain ⟨j, hmemj, hshown⟩ := List.mem_map.mp hmem
  obtain ⟨hmemj, huj⟩ := List.mem_filter.mp hmemj
  -- the key has one journal only
  have hkey : j.userKey = r'.journal.userKey := by
    refine Prod.ext ((of_decide_eq_true huj).trans (hu'.symm.trans hju'.symm)) ?_
    have hk : j.idempotencyKey = r.journal.idempotencyKey :=
      congrArg ShownJournal.idempotencyKey hshown
    have hkeys := (h.requests th th' hpair).key
    rw [hjk, hjk'] at hkeys
    exact hk.trans (Option.some.inj hkeys).symm
  have hnodup := (inv_of_reachable hreach').ledger.sheet.unique
  rw [← hshown, List.inj_on_of_nodup_map hnodup hmemj hj' hkey]

/-- The wallet that corresponding readings answer is the same. -/
lemma SameRequests.wallet (h : SameRequests u s s') (hreach : Reachable cfg s)
    (hreach' : Reachable cfg s') (hs : Session u s) (hs' : Session u s') (hreads : Reads u s)
    (hreads' : Reads u s') (hpair : Pair u s s' th th') (hreq : th.state.req = .getWallet u)
    {w w' : WalletResponse} (hw : th.wallet = some w) (hw' : th'.wallet = some w') :
    w.balances = w'.balances := by
  have hreq' : th'.state.req = .getWallet u := by
    have hmatch := h.requests th th' hpair
    rw [hreq] at hmatch
    exact hmatch
  obtain ⟨i, hth, hth'⟩ := hpair
  rw [hreads.wallets _ _ _ (eq_take_cons_drop hth) hreq w hw,
    hreads'.wallets _ _ _ (eq_take_cons_drop hth') hreq' w' hw', purseOf, purseOf,
    h.shown_take hreach hreach' hs hs' i]

/-! ## The history -/

/-- What a query selects is among what is shown. -/
lemma selects_eq (q : TransactionsQuery) (h : j.shown = j'.shown) : q.selects j = q.selects j' := by
  have hentries (j : JournalEntry) : q.selects j = decide
      (((given q.currency = none ∧ q.type = none) ∨ ∃ e ∈ j.shown.legs,
        (∀ c ∈ given q.currency, e.currency.code = toUpperCase c) ∧ ∀ t ∈ q.type, e.type = t) ∧
        ∀ p ∈ q.purpose, j.shown.purpose = p) := by
    unfold TransactionsQuery.selects
    rw [decide_eq_decide]
    simp [JournalEntry.shown, JournalEntry.legs, LedgerEntryInput.shown]
  rw [hentries, hentries, h]

/-- The journals that match, of two lists that are shown alike: they are shown alike too, and
their order is the same if that of the lists is. -/
lemma filter_shown_eq {js js' : List JournalEntry} (q : TransactionsQuery)
    (h : js.map JournalEntry.shown = js'.map JournalEntry.shown) :
    (js.filter q.selects).map JournalEntry.shown =
        (js'.filter q.selects).map JournalEntry.shown ∧
      ((∀ a ∈ js.zip js', ∀ b ∈ js.zip js', a.1.Newer b.1 ↔ a.2.Newer b.2) →
        ((js.filter q.selects).insertionSort JournalEntry.Newer).map JournalEntry.shown =
          ((js'.filter q.selects).insertionSort JournalEntry.Newer).map JournalEntry.shown) := by
  have hlength : js.length = js'.length := by simpa using congrArg List.length h
  have hshown : ∀ p ∈ js.zip js', p.1.shown = p.2.shown := by
    intro p hp
    obtain ⟨i, hi, rfl⟩ := List.getElem_of_mem hp
    rw [List.length_zip, lt_min_iff] at hi
    have hget := congrArg (fun xs => xs[i]?) h
    simpa [List.getElem?_map, List.getElem?_eq_getElem hi.1, List.getElem?_eq_getElem hi.2]
      using hget
  -- both are projections of the pairs
  have hfst : js.filter q.selects = ((js.zip js').filter fun p => q.selects p.1).map Prod.fst := by
    conv_lhs => rw [← List.map_fst_zip hlength.le]
    rw [List.filter_map]
    rfl
  have hsnd : js'.filter q.selects = ((js.zip js').filter fun p => q.selects p.1).map Prod.snd := by
    conv_lhs => rw [← List.map_snd_zip hlength.ge]
    rw [List.filter_map]
    refine congrArg _ (List.filter_congr fun p hp => ?_)
    exact (selects_eq q (hshown p hp)).symm
  rw [hfst, hsnd]
  have hsub {p : JournalEntry × JournalEntry}
      (hp : p ∈ (js.zip js').filter fun p => q.selects p.1) : p ∈ js.zip js' :=
    (List.mem_filter.mp hp).1
  refine ⟨?_, fun halike => ?_⟩
  · rw [List.map_map, List.map_map]
    exact List.map_congr_left fun p hp => hshown p (hsub hp)
  · rw [← List.map_insertionSort (fun a b => a.1.Newer b.1) _ Prod.fst _ fun _ _ _ _ => Iff.rfl,
      ← List.map_insertionSort (fun a b => a.1.Newer b.1) _ Prod.snd _ fun a ha b hb =>
        halike a (hsub ha) b (hsub hb), List.map_map, List.map_map]
    refine List.map_congr_left fun p hp => hshown p (hsub ?_)
    exact (List.mem_insertionSort _).mp hp

/-- The two walks through the history show the user the same journals, and in the same order
where the times and the ids of the journals are. -/
def SameHistory (F : Formats) (u : UserId) (js js' : List JournalEntry) : Prop :=
  ∀ (q : TransactionsQuery) (views views' : List View), Growing F views → Growing F views' →
    1 ≤ q.limit → (∀ v ∈ views, v.keys.filter (fun j => j.userId = u) = js) →
    (∀ v ∈ views', v.keys.filter (fun j => j.userId = u) = js') →
    js.length < views.length → js'.length < views'.length →
    ∃ pages pages', walkTransactions F u q views none = .ok (pages, true) ∧
      walkTransactions F u q views' none = .ok (pages', true) ∧
      ((pages.flatMap TransactionsPage.items).map JournalEntry.shown).Perm
        ((pages'.flatMap TransactionsPage.items).map JournalEntry.shown) ∧
      ((∀ a ∈ js.zip js', ∀ b ∈ js.zip js', a.1.Newer b.1 ↔ a.2.Newer b.2) →
        (pages.flatMap TransactionsPage.items).map JournalEntry.shown =
          (pages'.flatMap TransactionsPage.items).map JournalEntry.shown)

lemma sameHistory_of_shown (F : Formats) {js js' : List JournalEntry}
    (h : js.map JournalEntry.shown = js'.map JournalEntry.shown) : SameHistory F u js js' := by
  intro q views views' hgrow hgrow' hlimit hkeys hkeys' hlength hlength'
  obtain ⟨pages, hpages, hitems⟩ := exists_walk hgrow hlimit hkeys hlength
  obtain ⟨pages', hpages', hitems'⟩ := exists_walk hgrow' hlimit hkeys' hlength'
  obtain ⟨hsame, hordered⟩ := filter_shown_eq q h
  refine ⟨pages, pages', hpages, hpages', ?_, fun halike => ?_⟩
  · rw [hitems, hitems']
    refine ((List.perm_insertionSort _ _).map _).trans ?_
    rw [hsame]
    exact (List.perm_insertionSort _ _).symm.map _
  · rw [hitems, hitems', hordered halike]

/-- Users cannot observe each other but for the balances of the house. -/
theorem users_isolated (h : Runs cfg (Sequential u) Sys.initial s)
    (h' : Runs cfg (Sequential u) Sys.initial s') (hsame : SameRequests u s s') :
    (∀ th th' r r', Pair u s s' th th' → th.operation = some r → th'.operation = some r' →
      r.journal.shown = r'.journal.shown) ∧
    (Runs cfg (fun s e => Sequential u s e ∧ KeepsDrops u s e) Sys.initial s →
      Runs cfg (fun s e => Sequential u s e ∧ KeepsDrops u s e) Sys.initial s' →
      ∀ th th' w w', Pair u s s' th th' → th.state.req = .getWallet u → th.wallet = some w →
        th'.wallet = some w' → w.balances = w'.balances) ∧
    ∀ F, SameHistory F u (s.journalsOf u) (s'.journalsOf u) := by
  have hreach := reachable_of_runs h
  have hreach' := reachable_of_runs h'
  have hs := session_of_runs h
  have hs' := session_of_runs h'
  refine ⟨fun th th' r r' hpair => hsame.operation hreach hreach' hs hs' hpair,
    fun hkeeps hkeeps' th th' w w' hpair hreq hw hw' => hsame.wallet hreach hreach' hs hs'
      (reads_of_runs hkeeps) (reads_of_runs hkeeps') hpair hreq hw hw',
    fun F => sameHistory_of_shown F (hsame.shown_eq hreach hreach' hs hs')⟩

/-- All of these requests of the user have succeeded, without asking for rates. -/
def Sys.Serves (s : Sys) (u : UserId) (reqs : List Request) : Prop :=
  (s.calls u).map (fun th => th.state.req) = reqs ∧
    ∀ th ∈ s.calls u, th.state.trail.rates.isNone = true ∧
      (th.operation.isSome = true ∨ th.wallet.isSome = true)

instance (s : Sys) (u : UserId) (reqs : List Request) : Decidable (s.Serves u reqs) :=
  inferInstanceAs (Decidable (_ ∧ _))

lemma sameRequests_of_serves {reqs : List Request} (h : s.Serves u reqs) (h' : s'.Serves u reqs)
    (hreqs : ∀ req ∈ reqs, ∀ q, ¬ req.Redeems q) : SameRequests u s s' := by
  have hsucceeds {s : Sys} (h : s.Serves u reqs) (th : Thread) (hth : th ∈ s.calls u) :
      th.Succeeds := by
    rcases (h.2 th hth).2 with hr | hw
    · obtain ⟨r, hr⟩ := Option.isSome_iff_exists.mp hr
      exact ⟨_, Thread.answer_of_operation hr⟩
    · obtain ⟨w, hw⟩ := Option.isSome_iff_exists.mp hw
      exact ⟨_, Thread.answer_of_wallet hw⟩
  have hlength {s : Sys} (h : s.Serves u reqs) : (s.calls u).length = reqs.length := by
    simpa using congrArg List.length h.1
  refine ⟨(hlength h).trans (hlength h').symm, fun th th' hpair => ?_, fun th th' hpair x hx => ?_,
    hsucceeds h, hsucceeds h'⟩
  · have hmem : th.state.req ∈ reqs := by
      rw [← h.1]
      exact List.mem_map_of_mem hpair.mem.1
    have heq : th'.state.req = th.state.req := by
      obtain ⟨i, hi, hi'⟩ := hpair
      have hget := congrArg (fun xs => xs[i]?) (h'.1.trans h.1.symm)
      simpa [hi, hi'] using hget
    have hnone := hreqs _ hmem
    generalize th.state.req = req at heq hnone ⊢
    cases req with
    | consumeQuote u q => exact absurd rfl (hnone q)
    | executeTrade u q k => exact absurd rfl (hnone q)
    | _ => exact heq
  · rw [Option.isNone_iff_eq_none.mp (h.2 th hpair.mem.1).1] at hx
    cases hx

/-- User 1 is funded and reads the wallet. -/
def aloneRun : List Event := fundRun ++ .spawn (.getWallet 1) :: serve 20 3

/-- The same after a funding of user 2. -/
def secondRun : List Event :=
  .spawn (.fundWallet 2 "USD" (.integer 700) "fund") :: serve 1 18 ++
    .spawn (.fundWallet 1 "USD" (.integer 500) "fund") :: serve 20 18 ++
    .spawn (.getWallet 1) :: serve 39 3

/-- The requests of user 1 in both runs. -/
def fundAndRead : List Request := [.fundWallet 1 "USD" (.integer 500) "fund", .getWallet 1]

/-- User 1 is shown the same in both runs. -/
theorem users_isolated_funded : ∃ s s' th th' r r' th₁ th₁' w w', Pair 1 s s' th th' ∧
    th.operation = some r ∧ th'.operation = some r' ∧ r.journal.shown = r'.journal.shown ∧
    Pair 1 s s' th₁ th₁' ∧ th₁.wallet = some w ∧ th₁'.wallet = some w' ∧
    w.balances = w'.balances := by
  have hplay : (runAll (Sys.step {}) (fun s e => Sequential 1 s e ∧ KeepsDrops 1 s e) Sys.initial
      aloneRun).any (fun s => s.Serves 1 fundAndRead ∧
        (((s.calls 1)[0]?).any fun th => th.operation.isSome) ∧
        ((s.calls 1)[1]?).any fun th => th.state.req = .getWallet 1 ∧ th.wallet.isSome) = true := by
    decide +kernel
  have hplay' : (runAll (Sys.step {}) (fun s e => Sequential 1 s e ∧ KeepsDrops 1 s e) Sys.initial
      secondRun).any (fun s => s.Serves 1 fundAndRead ∧
        (((s.calls 1)[0]?).any fun th => th.operation.isSome) ∧
        ((s.calls 1)[1]?).any fun th => th.wallet.isSome) = true := by
    decide +kernel
  obtain ⟨s, hrun, hs⟩ := exists_of_runAll hplay
  obtain ⟨s', hrun', hs'⟩ := exists_of_runAll hplay'
  simp only [Bool.decide_and, Bool.and_eq_true, decide_eq_true_eq, Option.any_eq_true] at hs hs'
  obtain ⟨hserves, ⟨th, hth, hr⟩, th₁, hth₁, hreq, hw⟩ := hs
  obtain ⟨hserves', ⟨th', hth', hr'⟩, th₁', hth₁', hw'⟩ := hs'
  obtain ⟨r, hr⟩ := Option.isSome_iff_exists.mp hr
  obtain ⟨r', hr'⟩ := Option.isSome_iff_exists.mp hr'
  obtain ⟨w, hw⟩ := Option.isSome_iff_exists.mp hw
  obtain ⟨w', hw'⟩ := Option.isSome_iff_exists.mp hw'
  have hpair : Pair 1 s s' th th' := ⟨0, hth, hth'⟩
  have hpair₁ : Pair 1 s s' th₁ th₁' := ⟨1, hth₁, hth₁'⟩
  obtain ⟨hoperation, hwallet, -⟩ := users_isolated (hrun.mono fun _ _ hok => hok.1)
    (hrun'.mono fun _ _ hok => hok.1)
    (sameRequests_of_serves hserves hserves' (by simp [fundAndRead, Request.Redeems]))
  exact ⟨s, s', th, th', r, r', th₁, th₁', w, w', hpair, hr, hr',
    hoperation th th' r r' hpair hr hr', hpair₁, hw, hw',
    hwallet hrun hrun' th₁ th₁' w w' hpair₁ hreq hw hw'⟩

/-- The balances of the house are different when another user has been funded before. -/
lemma house_observed :
    ¬ ∀ s s', Runs {} (fun s e => Sequential 1 s e ∧ KeepsDrops 1 s e) Sys.initial s →
      Runs {} (fun s e => Sequential 1 s e ∧ KeepsDrops 1 s e) Sys.initial s' →
      SameRequests 1 s s' → ∀ th th' r r', Pair 1 s s' th th' → th.operation = some r →
      th'.operation = some r' → r.journal.legs.map LedgerEntryInput.numbers =
        r'.journal.legs.map LedgerEntryInput.numbers := by
  intro hclaim
  have hplay : (runAll (Sys.step {}) (fun s e => Sequential 1 s e ∧ KeepsDrops 1 s e) Sys.initial
      aloneRun).any (fun s => s.Serves 1 fundAndRead ∧ ((s.calls 1)[0]?).any fun th =>
        th.operation.any fun r => r.journal.legs.map LedgerEntryInput.numbers =
          [[500, 0, 500], [500, seed, seed - 500]]) = true := by decide +kernel
  have hplay' : (runAll (Sys.step {}) (fun s e => Sequential 1 s e ∧ KeepsDrops 1 s e) Sys.initial
      secondRun).any (fun s => s.Serves 1 fundAndRead ∧ ((s.calls 1)[0]?).any fun th =>
        th.operation.any fun r => r.journal.legs.map LedgerEntryInput.numbers =
          [[500, 0, 500], [500, seed - 700, seed - 1200]]) = true := by decide +kernel
  obtain ⟨s, hrun, hs⟩ := exists_of_runAll hplay
  obtain ⟨s', hrun', hs'⟩ := exists_of_runAll hplay'
  simp only [Bool.decide_and, Bool.and_eq_true, decide_eq_true_eq, Option.any_eq_true] at hs hs'
  obtain ⟨hserves, th, hth, r, hr, hlegs⟩ := hs
  obtain ⟨hserves', th', hth', r', hr', hlegs'⟩ := hs'
  have hsame := hclaim s s' hrun hrun' (sameRequests_of_serves hserves hserves'
    (by simp [fundAndRead, Request.Redeems])) th th' r r' ⟨0, hth, hth'⟩ hr hr'
  rw [hlegs, hlegs'] at hsame
  simp at hsame

/-- User 1 calls for two fundings. -/
def twoFundings : List Request :=
  [.fundWallet 1 "USD" (.integer 500) "a", .fundWallet 1 "USD" (.integer 300) "b"]

/-- Both are asked for before `first` is served, and then `second`. -/
def fundTwiceAtOnce (first second : Tid) : List Event :=
  twoFundings.map Event.spawn ++ serve first 18 ++ serve second 16

/-- Of two requests that a user makes at a time either can be the first to be booked. -/
lemma overlap_observed :
    ¬ ∀ s s', Runs {} NoFailure Sys.initial s → Runs {} NoFailure Sys.initial s' →
      SameRequests 1 s s' → ∀ th th' r r', Pair 1 s s' th th' → th.operation = some r →
      th'.operation = some r' → r.journal.shown = r'.journal.shown := by
  intro hclaim
  have hplay : (runAll (Sys.step {}) NoFailure Sys.initial (fundTwiceAtOnce 1 2)).any (fun s =>
      s.Serves 1 twoFundings ∧ ((s.calls 1)[0]?).any fun th => th.operation.any fun r =>
        r.journal.shown.legs.any fun e => e.balances = some (0, 500)) = true := by decide +kernel
  have hplay' : (runAll (Sys.step {}) NoFailure Sys.initial (fundTwiceAtOnce 2 1)).any (fun s =>
      s.Serves 1 twoFundings ∧ ((s.calls 1)[0]?).any fun th => th.operation.any fun r =>
        r.journal.shown.legs.all fun e => e.balances ≠ some (0, 500)) = true := by decide +kernel
  obtain ⟨s, hrun, hs⟩ := exists_of_runAll hplay
  obtain ⟨s', hrun', hs'⟩ := exists_of_runAll hplay'
  simp only [Bool.decide_and, Bool.and_eq_true, decide_eq_true_eq, Option.any_eq_true,
    List.any_eq_true, List.all_eq_true] at hs hs'
  obtain ⟨hserves, th, hth, r, hr, e, he, hbalances⟩ := hs
  obtain ⟨hserves', th', hth', r', hr', hlegs'⟩ := hs'
  have hsame := hclaim s s' hrun hrun' (sameRequests_of_serves hserves hserves'
    (by simp [twoFundings, Request.Redeems])) th th' r r' ⟨0, hth, hth'⟩ hr hr'
  rw [hsame] at he
  exact hlegs' e he hbalances

/-- User 1 is funded and reads the wallet, twice. -/
def fundAndReadTwice : List Request :=
  [.fundWallet 1 "USD" (.integer 500) "a", .getWallet 1,
    .fundWallet 1 "USD" (.integer 300) "b", .getWallet 1]

/-- The stored wallet is dropped after the second funding, or it is not; the last reading takes
so many commands. -/
def dropRun (dropped : Choice) (commands : ℕ) : List Event :=
  .spawn (.fundWallet 1 "USD" (.integer 500) "a") :: serve 1 18 ++
    .spawn (.getWallet 1) :: serve 20 3 ++
    .spawn (.fundWallet 1 "USD" (.integer 300) "b") :: serve 24 14 ++
    .run 24 dropped :: serve 24 1 ++ .spawn (.getWallet 1) :: serve 41 commands

/-- A drop of the stored wallet that is lost is seen in the next reading. -/
lemma lost_drop_observed :
    ¬ ∀ s s', Runs {} (Sequential 1) Sys.initial s → Runs {} (Sequential 1) Sys.initial s' →
      SameRequests 1 s s' → ∀ th th' w w', Pair 1 s s' th th' → th.state.req = .getWallet 1 →
      th.wallet = some w → th'.wallet = some w' → w.balances = w'.balances := by
  intro hclaim
  have hplay : (runAll (Sys.step {}) (Sequential 1) Sys.initial (dropRun .ok 3)).any (fun s =>
      s.Serves 1 fundAndReadTwice ∧ ((s.calls 1)[3]?).any fun th => th.state.req = .getWallet 1 ∧
        th.wallet.any fun w => w.balances .usd = some 800) = true := by decide +kernel
  have hplay' : (runAll (Sys.step {}) (Sequential 1) Sys.initial (dropRun .fail 1)).any (fun s =>
      s.Serves 1 fundAndReadTwice ∧ ((s.calls 1)[3]?).any fun th =>
        th.wallet.any fun w => w.balances .usd = some 500) = true := by decide +kernel
  obtain ⟨s, hrun, hs⟩ := exists_of_runAll hplay
  obtain ⟨s', hrun', hs'⟩ := exists_of_runAll hplay'
  simp only [Bool.decide_and, Bool.and_eq_true, decide_eq_true_eq, Option.any_eq_true] at hs hs'
  obtain ⟨hserves, th, hth, hreq, w, hw, husd⟩ := hs
  obtain ⟨hserves', th', hth', w', hw', husd'⟩ := hs'
  have hsame := hclaim s s' hrun hrun' (sameRequests_of_serves hserves hserves'
    (by simp [fundAndReadTwice, Request.Redeems])) th th' w w' ⟨3, hth, hth'⟩ hreq hw hw'
  rw [hsame, husd'] at husd
  cases husd

/-- Other users can be observed by the balances of the house.  And a user who makes two
requests at a time, or whose stored wallet is not dropped, can be shown different balances
without anybody else. -/
theorem users_observe_each_other :
    (¬ ∀ s s', Runs {} (fun s e => Sequential 1 s e ∧ KeepsDrops 1 s e) Sys.initial s →
      Runs {} (fun s e => Sequential 1 s e ∧ KeepsDrops 1 s e) Sys.initial s' →
      SameRequests 1 s s' → ∀ th th' r r', Pair 1 s s' th th' → th.operation = some r →
      th'.operation = some r' → r.journal.legs.map LedgerEntryInput.numbers =
        r'.journal.legs.map LedgerEntryInput.numbers) ∧
    (¬ ∀ s s', Runs {} NoFailure Sys.initial s → Runs {} NoFailure Sys.initial s' →
      SameRequests 1 s s' → ∀ th th' r r', Pair 1 s s' th th' → th.operation = some r →
      th'.operation = some r' → r.journal.shown = r'.journal.shown) ∧
    ¬ ∀ s s', Runs {} (Sequential 1) Sys.initial s → Runs {} (Sequential 1) Sys.initial s' →
      SameRequests 1 s s' → ∀ th th' w w', Pair 1 s s' th th' → th.state.req = .getWallet 1 →
      th.wallet = some w → th'.wallet = some w' → w.balances = w'.balances :=
  ⟨house_observed, overlap_observed, lost_drop_observed⟩

end FxExchange
