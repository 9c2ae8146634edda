import FxExchange.Lib.Custody
import FxExchange.Proofs.Invariant

/-
# Quotes

Where the quotes are: under their keys in Redis, or in the hands of calls that have read
them.  What the calls do to them is a step of `Custody`, so that a quote is in one place at
a time as long as GETDEL works, and does not get lost before it expires.
-/

namespace FxExchange

variable {cfg : Config} {s s' s₁ : Sys} {t : Tid} {e : Event}

/-! ## What a command does to quotes -/

/-- What a request has of quotes is as it was. -/
structure SameQuotes (l l' : Local) : Prop where
  hand : l'.trail.hand = l.trail.hand
  uuid : l'.trail.uuid = l.trail.uuid
  issued : l'.trail.issued = l.trail.issued

/-- The ways in which the command `c` of a thread changes quotes, its state going from `l`
to `l'`. -/
inductive QuoteStep (cfg : Config) (s : Sys) (l : Local) (c : Cmd) (choice : Choice)
    (l' : Local) (s₁ : Sys) : Prop
  | same (hquotes : s₁.redis.quotes = s.redis.quotes) (hsame : SameQuotes l l')
      (hclock : l'.trail.clock = l.trail.clock) (hfellBack : l'.trail.fellBack = l.trail.fellBack)
  | now (hquotes : s₁.redis.quotes = s.redis.quotes) (hsame : SameQuotes l l')
      (hclock : l'.trail.clock = s.now) (hfellBack : l'.trail.fellBack = l.trail.fellBack)
  | uuid (hquotes : s₁.redis.quotes = s.redis.quotes) (hissued : l.trail.issued = none)
      (hl' : l'.trail = { l.trail with uuid := some s.seq })
  | take (q : QuoteId) (hc : c = .redis (.getdel q)) (hchoice : choice = .ok)
      (hnone : l.trail.hand = none)
      (hquotes : s₁.redis.quotes = Function.update s.redis.quotes q none)
      (hl' : l'.trail = { l.trail with hand := Custody.live (s.redis.quotes q) s.now })
  | fallBack (q : QuoteId) (hc : c = .redis (.getdel q)) (hchoice : choice = .fail)
      (hquotes : s₁.redis.quotes = s.redis.quotes)
      (hl' : l'.trail = { l.trail with fellBack := true })
  | peek (q : QuoteId) (hc : c = .redis (.get q)) (hchoice : choice = .ok)
      (hfellBack : l.trail.fellBack = true) (hnone : l.trail.hand = none)
      (hquotes : s₁.redis.quotes = s.redis.quotes)
      (hl' : l'.trail = { l.trail with hand := Custody.live (s.redis.quotes q) s.now })
  | drop (q : QuoteId) (hfellBack : l.trail.fellBack = true)
      (hquotes : s₁.redis.quotes = Function.update s.redis.quotes q none)
      (hl' : l'.trail = l.trail)
  | restore (quote : Quote) (exSeconds : ℕ)
      (hc : c = .redis (.set quote.id quote exSeconds)) (hchoice : choice = .ok)
      (hmay : MayRestore l quote) (hreach : Reaches l quote exSeconds)
      (hquotes : s₁.redis.quotes = Function.update s.redis.quotes quote.id
        (some (quote, s.now + 1000 * exSeconds)))
      (hl' : l'.trail = { l.trail with hand := none })
  | issue (quote : Quote) (exSeconds : ℕ)
      (hc : c = .redis (.set quote.id quote exSeconds)) (hchoice : choice = .ok)
      (hmay : MayIssue cfg l quote exSeconds) (hreach : Reaches l quote exSeconds)
      (hquotes : s₁.redis.quotes = Function.update s.redis.quotes quote.id
        (some (quote, s.now + 1000 * exSeconds)))
      (hl' : l'.trail = { l.trail with uuid := none, issued := some quote })

/-- A command that is answered otherwise than with rates or with its failure was served. -/
lemma Sys.choice_of_respond {tx : Option Tx} {c : RedisCmd} {choice : Choice}
    {a : (Cmd.redis c).Ret} (h : s.respond t tx (.redis c) choice = some (s₁, .ok a)) :
    choice = .ok := by
  cases choice with
  | ok => rfl
  | fail => cases h
  | rates r => cases h

lemma Inv.quoteStep (h : Inv cfg s) {l : Local} {c : Cmd} {choice : Choice}
    {k : Except Exn c.Ret → Service Response} {r : Except Exn c.Ret}
    (hth : s.threads t = some ⟨l, .call c k, true⟩)
    (hrespond : s.respond t l.tx c choice = some (s₁, r)) :
    QuoteStep cfg s l c choice (l.after s.seq c r) s₁ := by
  have hguard := h.guard hth
  cases Sys.served_of_eq hrespond with
  | pool c =>
    refine .same ?_ ⟨?_, ?_, ?_⟩ ?_ ?_
    all_goals
      cases (execPool s.db s.seq c).2 <;> cases c <;> rfl
  | start => exact .same rfl ⟨rfl, rfl, rfl⟩ rfl rfl
  | @statement c x locks r htx hexec => cases r <;> exact .same rfl ⟨rfl, rfl, rfl⟩ rfl rfl
  | commit => exact .same rfl ⟨rfl, rfl, rfl⟩ rfl rfl
  | commitAborted => exact .same rfl ⟨rfl, rfl, rfl⟩ rfl rfl
  | commitFailed => exact .same rfl ⟨rfl, rfl, rfl⟩ rfl rfl
  | rollback r => cases r <;> exact .same rfl ⟨rfl, rfl, rfl⟩ rfl rfl
  | rates r => exact .same rfl ⟨rfl, rfl, rfl⟩ rfl rfl
  | now => exact .now rfl ⟨rfl, rfl, rfl⟩ rfl rfl
  | uuid => exact .uuid rfl hguard.2.2 rfl
  | failed c e _ _ _ _ =>
    cases c with
    | redis c =>
      cases c with
      | getdel q =>
        refine .fallBack q rfl ?_ rfl rfl
        cases choice with
        | fail => rfl
        | ok => cases (Prod.ext_iff.mp (Option.some.inj hrespond)).2
        | rates r => cases hrespond
      | _ => exact .same rfl ⟨rfl, rfl, rfl⟩ rfl rfl
    | _ => exact .same rfl ⟨rfl, rfl, rfl⟩ rfl rfl
  | @redis c redis r hexec =>
    cases c with
    | getdel q =>
      cases hexec
      exact .take q rfl (Sys.choice_of_respond hrespond) hguard.2.1 rfl rfl
    | get q =>
      cases hexec
      exact .peek q rfl (Sys.choice_of_respond hrespond) hguard.2.2.2.1 hguard.2.1 rfl rfl
    | del q =>
      cases hexec
      exact .drop q hguard.2 rfl rfl
    | set q quote ex =>
      cases hexec
      have hchoice := Sys.choice_of_respond hrespond
      obtain ⟨rfl, hreach, -, -, -, hmay | hmay⟩ := hguard
      · refine .restore quote ex rfl hchoice hmay hreach rfl ?_
        simp [Local.after, Local.afterOk, hmay.hand]
      · refine .issue quote ex rfl hchoice hmay hreach rfl ?_
        simp [Local.after, Local.afterOk, hmay.hand]
    | acquire u ttl =>
      simp only [execRedis] at hexec
      split at hexec
      · cases hexec
      · cases hexec
        exact .same rfl ⟨rfl, rfl, rfl⟩ rfl rfl
    | release u =>
      simp only [execRedis] at hexec
      split at hexec <;> cases hexec <;> exact .same rfl ⟨rfl, rfl, rfl⟩ rfl rfl
    | _ =>
      cases hexec
      exact .same rfl ⟨rfl, rfl, rfl⟩ rfl rfl

/-! ## Quotes in custody -/

namespace Sys

/-- What a thread has come across; nothing, if there is no such thread. -/
def trail (s : Sys) (t : Tid) : Trail := (s.threads t).elim {} fun th => th.state.trail

/-- `createQuote` has issued the quote. -/
def Issued (s : Sys) (quote : Quote) : Prop := ∃ t, (s.trail t).issued = some quote

/-- The quotes of the system. -/
def custody (s : Sys) : Custody.State QuoteId Quote Tid where
  store := s.redis.quotes
  hand t := (s.trail t).hand
  issued := { quote | s.Issued quote }
  now := s.now

lemma trail_eq {th : Thread} (hth : s.threads t = some th) : s.trail t = th.state.trail := by
  rw [trail, hth, Option.elim_some]

lemma trail_setThread (th : Thread) :
    (s.setThread t th).trail = Function.update s.trail t th.state.trail := by
  funext t'
  rcases eq_or_ne t' t with rfl | hne
  · simp [trail, setThread_self]
  · simp [trail, setThread_of_ne hne, hne]

lemma trail_congr (h : s₁.threads = s.threads) : s₁.trail = s.trail := by
  funext t
  rw [trail, trail, h]

end Sys

/-- A step leaves the trail of a thread as it is, or it answers a command of the thread. -/
lemma Inv.trail_step (h : Inv cfg s) (hstep : s.step cfg e = some s') (t : Tid) :
    s'.trail t = s.trail t ∨
      ∃ choice l c k s₁, ∃ r : Except Exn c.Ret, e = .run t choice ∧
        s.threads t = some ⟨l, .call c k, true⟩ ∧ s.respond t l.tx c choice = some (s₁, r) ∧
        s'.trail t = (l.after s.seq c r).trail := by
  cases Sys.step_of_eq hstep with
  | spawn req =>
    left
    rcases eq_or_ne t s.seq with rfl | hne
    · rw [Sys.trail_setThread, Function.update_self, Sys.trail, h.fresh s.seq le_rfl,
        Option.elim_none]
    · rw [Sys.trail_setThread, Function.update_of_ne hne]
  | @run t' choice l c k s₁ r hth hrespond =>
    rcases eq_or_ne t t' with rfl | hne
    · refine Or.inr ⟨choice, l, c, k, s₁, r, rfl, hth, hrespond, ?_⟩
      rw [Sys.trail_setThread, Function.update_self]
    · left
      rw [Sys.trail_setThread, Function.update_of_ne hne,
        Sys.trail_congr (Sys.served_of_eq hrespond).frame.1]
  | @crash t' l c k hth =>
    left
    rcases eq_or_ne t t' with rfl | hne
    · rw [Sys.trail_setThread, Function.update_self, Sys.trail_eq hth]
    · rw [Sys.trail_setThread, Function.update_of_ne hne]
      rfl
  | tick ms => exact Or.inl rfl

/-- The thread has drawn the id for a quote, or issued a quote with it. -/
def Local.Owns (l : Local) (id : QuoteId) : Prop :=
  l.trail.uuid = some id ∨ ∃ quote, l.trail.issued = some quote ∧ quote.id = id

/-- Clocks do not run ahead, and no id is used for two quotes. -/
structure Ids (s : Sys) : Prop where
  clock : ∀ t, (s.trail t).clock ≤ s.now
  distinct : Distinct Local.Owns s
  unissued : ∀ t, (s.trail t).uuid.isSome → (s.trail t).issued = none
  owner : ∀ t th quote, s.threads t = some th → th.state.trail.issued = some quote →
    quote.userId = th.state.req.userId

lemma ids_initial : Ids Sys.initial := by
  refine ⟨?_, distinct_initial, ?_, ?_⟩ <;> simp [Sys.initial, Sys.trail]

lemma QuoteStep.clock {l l' : Local} {c : Cmd} {choice : Choice}
    (h : QuoteStep cfg s l c choice l' s₁) (hle : l.trail.clock ≤ s.now) :
    l'.trail.clock ≤ s.now := by
  cases h with
  | same hquotes hsame hclock => exact hclock.trans_le hle
  | now hquotes hsame hclock => exact hclock.le
  | _ => simp_all

/-- An id that is drawn is new. -/
lemma QuoteStep.owns {l l' : Local} {c : Cmd} {choice : Choice}
    (h : QuoteStep cfg s l c choice l' s₁) {id : QuoteId} (hid : l'.Owns id) :
    l.Owns id ∨ id = s.seq := by
  unfold Local.Owns at hid ⊢
  cases h with
  | same hquotes hsame => exact Or.inl (hsame.uuid ▸ hsame.issued ▸ hid)
  | now hquotes hsame => exact Or.inl (hsame.uuid ▸ hsame.issued ▸ hid)
  | uuid hquotes hissued hl' =>
    rw [hl'] at hid
    rcases hid with hid | hid
    · exact Or.inr (Option.some.inj hid).symm
    · exact Or.inl (Or.inr hid)
  | issue quote ex hc hchoice hmay hreach hquotes hl' =>
    rw [hl'] at hid
    rcases hid with hid | ⟨quote', hquote', rfl⟩
    · cases hid
    · cases hquote'
      exact Or.inl (Or.inl hmay.uuid)
  | _ => exact Or.inl (by simp_all)

lemma QuoteStep.unissued {l l' : Local} {c : Cmd} {choice : Choice}
    (h : QuoteStep cfg s l c choice l' s₁)
    (hold : l.trail.uuid.isSome → l.trail.issued = none) (hid : l'.trail.uuid.isSome) :
    l'.trail.issued = none := by
  cases h with
  | same hquotes hsame => exact hsame.issued.trans (hold (hsame.uuid ▸ hid))
  | now hquotes hsame => exact hsame.issued.trans (hold (hsame.uuid ▸ hid))
  | _ => simp_all

lemma QuoteStep.issued {l l' : Local} {c : Cmd} {choice : Choice}
    (h : QuoteStep cfg s l c choice l' s₁) {quote : Quote} (hquote : l'.trail.issued = some quote) :
    l.trail.issued = some quote ∨ quote.userId = l.req.userId := by
  cases h with
  | same hquotes hsame => exact Or.inl (hsame.issued ▸ hquote)
  | now hquotes hsame => exact Or.inl (hsame.issued ▸ hquote)
  | issue quote' ex hc hchoice hmay hreach hquotes hl' =>
    rw [hl'] at hquote
    cases hquote
    exact Or.inr hmay.owner
  | _ => exact Or.inl (by simp_all)

theorem Ids.step (h : Ids s) (hinv : Inv cfg s) (hstep : s.step cfg e = some s') : Ids s' := by
  refine ⟨?_, ?_, ?_, ?_⟩
  · intro t
    have hnow : s.now ≤ s'.now := by
      cases Sys.step_of_eq hstep with
      | run hth hrespond => exact (Sys.served_of_eq hrespond).frame.2.2.ge
      | tick ms => exact Nat.le_add_right _ _
      | _ => exact le_rfl
    rcases hinv.trail_step hstep t with htrail | ⟨choice, l, c, k, s₁, r, -, hth, hrespond, htrail⟩
    · rw [htrail]
      exact (h.clock t).trans hnow
    · rw [htrail]
      exact ((hinv.quoteStep hth hrespond).clock (Sys.trail_eq hth ▸ h.clock t)).trans hnow
  · refine h.distinct.step hstep (by simp [Local.Owns]) (fun _ _ hid => hid) ?_
    intro t choice l c k s₁ r hth hrespond id hid
    exact (hinv.quoteStep hth hrespond).owns hid
  · intro t
    rcases hinv.trail_step hstep t with htrail | ⟨choice, l, c, k, s₁, r, -, hth, hrespond, htrail⟩
    · rw [htrail]
      exact h.unissued t
    · rw [htrail]
      exact (hinv.quoteStep hth hrespond).unissued (Sys.trail_eq hth ▸ h.unissued t)
  · intro t th' quote hth' hquote
    rcases Sys.thread_step hstep hth' with ⟨req, hstate⟩ | ⟨th, hth, hreq, htrail, -⟩ |
      ⟨choice, l, c, k, s₁, r, -, hth, hrespond, hstate⟩
    · rw [hstate] at hquote
      cases hquote
    · rw [hreq]
      exact h.owner t th quote hth (htrail ▸ hquote)
    · rw [hstate] at hquote ⊢
      rw [Local.after_req]
      exact ((hinv.quoteStep hth hrespond).issued hquote).elim (h.owner t _ quote hth) id

theorem ids_of_reachable (h : Reachable cfg s) : Ids s :=
  h.invariant ids_initial fun _ _ _ hrun hids _ hstep => hids.step (inv_of_reachable hrun) hstep

/-- No quote has been issued under an id that is only drawn yet. -/
lemma Ids.ne_of_issued (h : Ids s) {th : Thread} {id : QuoteId} (hth : s.threads t = some th)
    (huuid : th.state.trail.uuid = some id) (hnone : th.state.trail.issued = none) :
    ∀ quote, s.Issued quote → quote.id ≠ id := by
  rintro quote ⟨t', hquote⟩ hid
  cases hth' : s.threads t' with
  | none =>
    rw [Sys.trail, hth'] at hquote
    cases hquote
  | some th' =>
    rw [Sys.trail_eq hth'] at hquote
    obtain rfl := h.distinct.unique t' t th' th id hth' hth (Or.inr ⟨quote, hquote, hid⟩)
      (Or.inl huuid)
    obtain rfl := Option.some.inj (hth.symm.trans hth')
    rw [hnone] at hquote
    cases hquote

/-! ## The custody of quotes -/

/-- The rules for quotes, under a condition on the deadlines that they are stored with. -/
def quoteRules (bound : Quote → ℕ → Prop) (copies : Prop) : Custody.Rules QuoteId Quote where
  key := Quote.id
  bound := bound
  copies := copies

section Custody

variable {th : Thread}

lemma Sys.issued_setThread (hthreads : s₁.threads = s.threads) {quote : Quote} :
    (s₁.setThread t th).Issued quote ↔ th.state.trail.issued = some quote ∨
      ∃ t' ≠ t, (s.trail t').issued = some quote := by
  unfold Issued
  rw [trail_setThread, trail_congr hthreads]
  constructor
  · rintro ⟨t', h⟩
    rcases eq_or_ne t' t with rfl | hne
    · exact Or.inl (by rwa [Function.update_self] at h)
    · exact Or.inr ⟨t', hne, by rwa [Function.update_of_ne hne] at h⟩
  · rintro (h | ⟨t', hne, h⟩)
    · exact ⟨t, by rwa [Function.update_self]⟩
    · exact ⟨t', by rwa [Function.update_of_ne hne]⟩

lemma Sys.hand_setThread (hthreads : s₁.threads = s.threads) :
    (s₁.setThread t th).custody.hand = Function.update s.custody.hand t th.state.trail.hand := by
  funext t'
  simp only [custody, trail_setThread, trail_congr hthreads, Function.update_apply]
  split <;> rfl

/-- The quotes after a command that issues none. -/
lemma Sys.custody_setThread (hthreads : s₁.threads = s.threads) (hnow : s₁.now = s.now)
    (hissued : th.state.trail.issued = (s.trail t).issued) : (s₁.setThread t th).custody =
      { s.custody with
        store := s₁.redis.quotes
        hand := Function.update s.custody.hand t th.state.trail.hand } := by
  refine Custody.State.ext rfl (hand_setThread hthreads) (Set.ext fun quote => ?_) hnow
  show (s₁.setThread t th).Issued quote ↔ s.Issued quote
  rw [issued_setThread hthreads, hissued]
  constructor
  · rintro (h | ⟨t', -, h⟩)
    · exact ⟨t, h⟩
    · exact ⟨t', h⟩
  · rintro ⟨t', h⟩
    rcases eq_or_ne t' t with rfl | hne
    · exact Or.inl h
    · exact Or.inr ⟨t', hne, h⟩

/-- The quotes after a command that does nothing to them. -/
lemma Sys.custody_idle (hthreads : s₁.threads = s.threads) (hnow : s₁.now = s.now)
    (hquotes : s₁.redis.quotes = s.redis.quotes)
    (hissued : th.state.trail.issued = (s.trail t).issued)
    (hhand : th.state.trail.hand = (s.trail t).hand) :
    (s₁.setThread t th).custody = s.custody := by
  rw [custody_setThread hthreads hnow hissued, hquotes, hhand]
  exact Custody.State.ext rfl (Function.update_eq_self t s.custody.hand) rfl rfl

/-- The quotes after a command that issues one. -/
lemma Sys.custody_issue (hthreads : s₁.threads = s.threads) (hnow : s₁.now = s.now)
    {quote : Quote} (hold : (s.trail t).issued = none)
    (hissued : th.state.trail.issued = some quote)
    (hhand : th.state.trail.hand = (s.trail t).hand) : (s₁.setThread t th).custody =
      { s.custody with
        store := s₁.redis.quotes
        issued := insert quote s.custody.issued } := by
  refine Custody.State.ext rfl ?_ (Set.ext fun quote' => ?_) hnow
  · rw [hand_setThread hthreads, hhand]
    exact Function.update_eq_self t s.custody.hand
  · show (s₁.setThread t th).Issued quote' ↔ quote' = quote ∨ s.Issued quote'
    rw [issued_setThread hthreads, hissued, Option.some.injEq, eq_comm]
    refine or_congr_right ⟨fun ⟨t', _, h⟩ => ⟨t', h⟩, fun ⟨t', h⟩ => ⟨t', ?_, h⟩⟩
    rintro rfl
    rw [hold] at h
    cases h

end Custody

/-- What the system does to the quotes is a step of custody. -/
theorem Inv.custodyStep (h : Inv cfg s) (hids : Ids s) {bound : Quote → ℕ → Prop}
    {copies : Prop}
    (hbound : ∀ t th quote ex, e = .run t .ok → s.threads t = some th →
      th.next = some (.redis (.set quote.id quote ex)) → Reaches th.state quote ex →
      bound quote (s.now + 1000 * ex))
    (hcopies : ∀ t, (s.trail t).fellBack = true → copies) (hstep : s.step cfg e = some s') :
    Custody.Step (quoteRules bound copies) s.custody s'.custody := by
  -- nothing has happened to the quotes
  have hidle {s₂ : Sys} (heq : s₂.custody = s.custody) :
      Custody.Step (quoteRules bound copies) s.custody s₂.custody := by
    rw [heq]
    exact .wait 0
  cases Sys.step_of_eq hstep with
  | spawn req =>
    have htrail : s.trail s.seq = {} := by rw [Sys.trail, h.fresh s.seq le_rfl, Option.elim_none]
    exact hidle (Sys.custody_idle rfl rfl rfl (by rw [htrail]) (by rw [htrail]))
  | @crash t l c k hth =>
    have htrail : s.trail t = l.trail := Sys.trail_eq hth
    exact hidle (Sys.custody_idle rfl rfl rfl (by rw [htrail]) (by rw [htrail]))
  | tick ms => exact .wait ms
  | @run t choice l c k s₁ r hth hrespond =>
    have htrail : s.trail t = l.trail := Sys.trail_eq hth
    have hhand : s.custody.hand t = l.trail.hand := congrArg Trail.hand htrail
    obtain ⟨hthreads, -, hnow⟩ := (Sys.served_of_eq hrespond).frame
    have hset {quote : Quote} {ex : ℕ} (hc : c = .redis (.set quote.id quote ex))
        (hchoice : choice = .ok) (hreach : Reaches l quote ex) :
        bound quote (s.now + 1000 * ex) :=
      hbound t _ quote ex (by rw [hchoice]) hth (congrArg some hc) hreach
    cases h.quoteStep hth hrespond with
    | same hquotes hsame =>
      exact hidle (Sys.custody_idle hthreads hnow hquotes (by rw [htrail, ← hsame.issued])
        (by rw [htrail, ← hsame.hand]))
    | now hquotes hsame =>
      exact hidle (Sys.custody_idle hthreads hnow hquotes (by rw [htrail, ← hsame.issued])
        (by rw [htrail, ← hsame.hand]))
    | uuid hquotes hissued hl' =>
      exact hidle (Sys.custody_idle hthreads hnow hquotes (by rw [htrail, hl'])
        (by rw [htrail, hl']))
    | fallBack q hc hchoice hquotes hl' =>
      exact hidle (Sys.custody_idle hthreads hnow hquotes (by rw [htrail, hl'])
        (by rw [htrail, hl']))
    | take q hc hchoice hnone hquotes hl' =>
      rw [Sys.custody_setThread hthreads hnow (by rw [htrail, hl']), hquotes, hl']
      exact .take t q (hhand.trans hnone)
    | peek q hc hchoice hfellBack hnone hquotes hl' =>
      rw [Sys.custody_setThread hthreads hnow (by rw [htrail, hl']), hquotes, hl']
      exact .copy (hcopies t (htrail ▸ hfellBack)) t q (hhand.trans hnone)
    | drop q hfellBack hquotes hl' =>
      rw [Sys.custody_setThread hthreads hnow (by rw [htrail, hl']), hquotes, hl', ← hhand,
        Function.update_eq_self]
      exact .drop (hcopies t (htrail ▸ hfellBack)) q
    | restore quote ex hc hchoice hmay hreach hquotes hl' =>
      rw [Sys.custody_setThread hthreads hnow (by rw [htrail, hl']), hquotes, hl']
      exact .restore t quote _ (hhand.trans hmay.hand) (hset hc hchoice hreach)
    | issue quote ex hc hchoice hmay hreach hquotes hl' =>
      rw [Sys.custody_issue hthreads hnow (htrail ▸ hmay.issued) (by rw [hl'])
        (by rw [htrail, hl']), hquotes]
      exact .issue quote _ (hids.ne_of_issued hth hmay.uuid hmay.issued) (hset hc hchoice hreach)

end FxExchange
