import FxExchange.Proofs.Commands
import FxExchange.Proofs.Orders

/-
# The audit row of a trade

A trade burns its quote before it has the wallet lock, and writes its rejected order only
from the handler around its transaction.  What fails in between, or makes the rejected order
itself unwritable, leaves a burned quote without an order; everything else leaves exactly
one.
-/

namespace FxExchange

open Service Transition
open Prog (wp_bind wp_command wp_tryCatch wp_tryFinally wp_of_issues wp_mono issues_bind
  issues_command)

variable {cfg : Config} {s s' s₁ : Sys} {t : Tid} {e : Event} {u : UserId} {q : QuoteId}
  {k : String} {l : Local} {α β : Type}

/-! ## When the row is written -/

/-- The columns of an order can hold what the quote says. -/
def Quote.storable (quote : Quote) : Bool :=
  fitsBigint quote.amountInSubunits ∧ fitsBigint quote.amountOutSubunits ∧
    (numericColumn 18 10 quote.effectiveRate).isSome

/-- The order row does not depend on the command; `held`: the quote is in hand. -/
def Cmd.mayFail (held : Bool) : Cmd → Bool
  | .redis (.getdel _) => false
  | .redis (.acquire _ _) => !held
  | .pool (.findWallet _) => !held
  | .pool (.saveWallet _) => !held
  | .pool (.saveOrder _) => !held
  | .startTransaction => !held
  | .rollback => !held
  | _ => true

/-- The rows that a trade with the quote inserts outside its transaction can be inserted. -/
def Database.accepts (db : Database) (quote : Quote) : Cmd → Bool
  | .pool (.saveWallet u) => u ∉ db.wallets
  | .pool (.saveOrder _) => quote.storable
  | _ => true

/-- GETDEL works, and the commands that stand between a quote in hand and its order succeed. -/
def Audited (s : Sys) : Event → Prop
  | .run t .fail => ∀ c ∈ s.next t, c.mayFail (s.trail t).hand.isSome = true
  | .run t .ok => ∀ c ∈ s.next t, ∀ quote ∈ (s.trail t).hand, s.db.accepts quote c = true
  | _ => True

instance (s : Sys) : DecidablePred (Audited s)
  | .run t .fail => inferInstanceAs (Decidable
      (∀ c ∈ s.next t, c.mayFail (s.trail t).hand.isSome = true))
  | .run t .ok => inferInstanceAs (Decidable
      (∀ c ∈ s.next t, ∀ quote ∈ (s.trail t).hand, s.db.accepts quote c = true))
  | .run _ (.rates _) => isTrue trivial
  | .spawn _ => isTrue trivial
  | .crash _ => isTrue trivial
  | .tick _ => isTrue trivial

lemma Audited.getdelAvailable (h : Audited s e) : GetdelAvailable s e := by
  unfold GetdelAvailable
  split
  · intro q hq
    have := h _ hq
    cases this
  · trivial

/-- The status of the order of a trade with this outcome. -/
def terminalStatus : Except Exn Response → OrderStatus
  | .ok _ => .filled
  | .error _ => .rejected

/-- Every trade that has consumed its quote and has ended has left one order for it, with the
status of its outcome. -/
def Sys.LeavesOneOrder (s : Sys) : Prop :=
  ∀ t th u q k quote a, s.threads t = some th → th.state.req = .executeTrade u q k →
    th.state.trail.hand = some quote → quote.userId = u → th.answer = some a →
    ∃ o, (s.db.orders.filter fun o => o.quoteId = some quote.id) = [o] ∧
      o.status = terminalStatus a

/-! ## What a trade does with its quote -/

/-- Commands are issued freely; those that the order depends on do not fail. -/
def auditing : Discipline Cmd.Ret Exn Local where
  guard _ _ := True
  outcome l c r l' := (∃ seq, l' = l.after seq c r) ∧
    ∀ e, r = .error e → c.mayFail l.trail.hand.isSome = true

/-- The trade has not looked up a journal and has no quote of its own. -/
structure Local.Unaccepted (l : Local) : Prop where
  hand : ∀ quote, l.trail.hand = some quote → quote.userId ≠ l.req.userId

/-- The trade has the quote in hand, and no journal of its key. -/
structure Local.Accepted (quote : Quote) (l : Local) : Prop where
  hand : l.trail.hand = some quote
  found : l.trail.found = none

/-- What the end of a trade says about its quote. -/
def Audit (l : Local) : Except Exn α → Prop
  | .ok _ => l.trail.hand = none ∨ l.trail.found = none
  | .error _ => l.Unaccepted ∨ l.trail.rejected ≠ none

/-- Commands that leave alone what is known of quote and journal. -/
def Cmd.quiet : Cmd → Bool
  | .pool (.findWallet _) => true
  | .pool (.saveWallet _) => true
  | .startTransaction => true
  | .tx _ => true
  | .commit => true
  | .rollback => true
  | .redis (.delWallet _) => true
  | .redis (.acquire _ _) => true
  | .redis (.release _) => true
  | .now => true
  | _ => false

lemma Local.after_quiet {c : Cmd} (hc : c.quiet = true) (seq : ℕ) (r : Except Exn c.Ret) :
    (l.after seq c r).trail.hand = l.trail.hand ∧ (l.after seq c r).trail.found = l.trail.found ∧
      (l.after seq c r).trail.rejected = l.trail.rejected := by
  cases c <;> (try rename_i c; cases c) <;> cases r <;>
    first | exact ⟨rfl, rfl, rfl⟩ | cases hc

/-- A part of the trade that only issues quiet commands. -/
lemma wp_quiet {quote : Quote} {p : Service α} (hp : p.Issues fun c => c.quiet = true)
    (hl : l.Accepted quote) : p.wp auditing (fun l' _ => l'.Accepted quote) l := by
  refine wp_of_issues hp hl fun l c hc hl => ⟨trivial, ?_⟩
  rintro r l' ⟨⟨seq, rfl⟩, -⟩
  obtain ⟨hhand, hfound, -⟩ := Local.after_quiet (l := l) hc seq r
  exact ⟨hhand.trans hl.hand, hfound.trans hl.found⟩

/-- The rule of a command. -/
lemma wp_audited {c : Cmd} {f : c.Ret → Service β} {Q : Local → Except Exn β → Prop}
    (hok : ∀ seq a, (f a).wp auditing Q (l.afterOk seq c a))
    (herr : c.mayFail l.trail.hand.isSome = true → ∀ e, Q (l.afterError c) (.error e)) :
    (issue c >>= f).wp auditing Q l := by
  refine wp_bind.mpr (wp_command.mpr ⟨trivial, ?_⟩)
  rintro (e | a) l' ⟨⟨seq, rfl⟩, hmay⟩
  · exact herr (hmay e rfl) e
  · exact hok seq a

/-- The end of a trade is not affected by quiet commands after it. -/
lemma Audit.after {c : Cmd} (hc : c.quiet = true) {seq : ℕ} {r : Except Exn c.Ret}
    {a : Except Exn α} (h : Audit l a) : Audit (l.after seq c r) a := by
  obtain ⟨hhand, hfound, hrejected⟩ := Local.after_quiet (l := l) hc seq r
  cases a with
  | ok a => exact h.imp hhand.trans hfound.trans
  | error e =>
    refine h.imp (fun h => ⟨fun quote hquote => ?_⟩) fun h => hrejected ▸ h
    rw [Local.after_req]
    exact h.hand quote (hhand ▸ hquote)

/-- Under the wallet lock, a trade that fails has saved its rejected order. -/
lemma wp_executeTradeLocked {quote : Quote} (hl : l.Accepted quote) :
    (executeTradeLocked u quote k).wp auditing Audit l := by
  have hmust {l : Local} (hl : l.Accepted quote) {c : Cmd} (hc : c.mayFail true = false) :
      c.mayFail l.trail.hand.isSome ≠ true := by
    rw [hl.hand, Option.isSome_some, hc]
    exact Bool.false_ne_true
  have hafter {l : Local} (hl : l.Accepted quote) {c : Cmd} (hc : c.quiet = true) (seq : ℕ)
      (r : Except Exn c.Ret) : (l.after seq c r).Accepted quote := by
    obtain ⟨hhand, hfound, -⟩ := Local.after_quiet (l := l) hc seq r
    exact ⟨hhand.trans hl.hand, hfound.trans hl.found⟩
  -- the transaction, and the handler around it
  have htransact (l : Local) (hl : l.Accepted quote) :
      (startTransaction >>= fun _ => inTransaction "Failed to execute trade"
        (saveRejected u quote) (executeTradeTx u quote k)).wp auditing Audit l := by
    refine wp_audited (fun seq time => ?_) fun h => absurd h (hmust hl rfl)
    have hl := hafter hl (c := .startTransaction) rfl seq (.ok time)
    have hquiet : (executeTradeTx u quote k).Issues fun c => c.quiet = true :=
      issues_executeTradeTx (S := fun c => c.quiet = true) (fun _ => rfl) rfl rfl rfl
    refine wp_tryCatch.mpr (wp_mono (fun l' r hl' => ?_) (wp_quiet hquiet hl))
    cases r with
    | ok a => exact Or.inr hl'.found
    | error error =>
      refine wp_audited (fun seq _ => ?_) fun h => absurd h (hmust hl' rfl)
      have hl' := hafter hl' (c := .rollback) rfl seq (.ok ())
      refine wp_bind.mpr (wp_tryCatch.mpr (wp_audited (fun seq id => ?_)
        fun h => absurd h (hmust hl' rfl)))
      cases error <;> exact Or.inr (by simp [Local.afterOk])
  refine wp_bind.mpr (wp_audited (c := .pool (.findWallet u)) (fun seq (found : Bool) => ?_)
    fun h => absurd h (hmust hl rfl))
  have hl := hafter hl (c := .pool (.findWallet u)) rfl seq (.ok found)
  cases found with
  | true => exact htransact _ hl
  | false =>
    refine wp_command.mpr ⟨trivial, ?_⟩
    rintro (e | a) l' ⟨⟨seq, rfl⟩, hmay⟩
    · exact absurd (hmay e rfl) (hmust hl rfl)
    · exact htransact _ (hafter hl (c := .pool (.saveWallet u)) rfl seq (.ok a))

/-- The wallet lock is granted, and what the action ends with is kept by the release. -/
lemma wp_acquire_audited {quote : Quote} {action : Service α} (hl : l.Accepted quote)
    (haction : ∀ l, l.Accepted quote → action.wp auditing Audit l) :
    (acquire cfg u action).wp auditing Audit l := by
  refine wp_bind.mpr (wp_tryCatch.mpr (wp_command.mpr ⟨trivial, ?_⟩))
  rintro (e | a) l₁ ⟨⟨seq, rfl⟩, hmay⟩
  · have hhand := hmay e rfl
    rw [hl.hand] at hhand
    cases hhand
  · refine wp_tryFinally.mpr (wp_mono (fun l₂ r hr => ?_) (haction _ ⟨hl.hand, hl.found⟩))
    refine wp_tryCatch.mpr (wp_command.mpr ⟨trivial, ?_⟩)
    rintro (e | a) l₃ ⟨⟨seq', rfl⟩, -⟩
    · exact hr
    · exact hr.after (c := .redis (.release u)) (r := .ok a) rfl

/-- A call gets a quote of its own, or does not have one. -/
lemma wp_consumeQuote_audited {Q : Local → Except Exn (Option Quote) → Prop}
    (hu : u = l.req.userId)
    (hfail : ∀ l' e, l'.Unaccepted → Q l' (.error e))
    (hlost : ∀ l', l'.Unaccepted → Q l' (.ok none))
    (hsome : ∀ l' quote, quote.userId = u → l'.trail.hand = some quote →
      l'.trail.found = l.trail.found → l'.req = l.req → Q l' (.ok (some quote))) :
    (consumeQuote q u).wp auditing Q l := by
  refine wp_bind.mpr (wp_tryCatch.mpr (wp_command.mpr ⟨trivial, ?_⟩))
  rintro (e | raw) l' ⟨⟨seq, rfl⟩, hmay⟩
  · cases hmay e rfl
  cases raw with
  | none => exact hlost _ ⟨fun quote hquote => by cases hquote⟩
  | some quote =>
    show (if quote.userId ≠ u then _ else _ : Service (Option Quote)).wp _ _ _
    split
    · -- somebody else's quote is put back, or not
      rename_i hne
      have howner (l' : Local) (hreq : l'.req = l.req)
          (hhand : l'.trail.hand = some quote ∨ l'.trail.hand = none) : l'.Unaccepted := by
        refine ⟨fun quote' hquote' => ?_⟩
        rcases hhand with hhand | hhand
        · obtain rfl := Option.some.inj (hhand.symm.trans hquote')
          rwa [hreq, ← hu]
        · rw [hhand] at hquote'
          cases hquote'
      refine wp_bind.mpr (wp_audited (fun seq clock => ?_) fun _ e =>
        hfail _ e (howner _ rfl (Or.inl rfl)))
      dsimp only
      split
      · refine wp_tryCatch.mpr (wp_command.mpr ⟨trivial, ?_⟩)
        rintro (e | a) l' ⟨⟨seq, rfl⟩, -⟩
        · exact hlost _ (howner _ rfl (Or.inl rfl))
        · exact hlost _ (howner _ rfl (Or.inr rfl))
      · exact hlost _ (howner _ rfl (Or.inl rfl))
    · rename_i howner
      exact hsome _ quote (not_not.mp howner) rfl rfl rfl

/-- A trade that fails with its quote in hand has saved its rejected order, and one that
succeeds with it has found no journal. -/
lemma wp_executeTrade_audited :
    (executeTrade cfg u q k).wp auditing Audit { req := .executeTrade u q k } := by
  have hnew (l : Local) (hhand : l.trail.hand = none) : l.Unaccepted :=
    ⟨fun quote hquote => by rw [hhand] at hquote; cases hquote⟩
  refine wp_audited (fun seq found => ?_) fun _ e => Or.inl (hnew _ rfl)
  cases found with
  | some journal =>
    dsimp only
    split
    · exact Or.inl rfl
    · exact Or.inl (hnew _ rfl)
    · exact Or.inl (hnew _ rfl)
  | none =>
    refine wp_bind.mpr (wp_consumeQuote_audited rfl (fun l' e h => Or.inl h)
      (fun l' h => Or.inl h) fun l' quote _ hhand hfound hreq => ?_)
    have hl : l'.Accepted quote := ⟨hhand, hfound⟩
    exact wp_acquire_audited hl fun l hl => wp_executeTradeLocked hl

/-! ## Rejected orders are there -/

/-- No step takes an order away. -/
lemma Inv.orders_mono (h : Inv cfg s) (hstep : s.step cfg e = some s') {o : Order}
    (ho : o ∈ s.db.orders) : o ∈ s'.db.orders := by
  cases Sys.step_of_eq hstep with
  | @run t choice l c k s₁ r hth hrespond =>
    show o ∈ s₁.db.orders
    cases h.orderStep hth hrespond with
    | commit _ _ horders => exact horders ▸ List.mem_append_left _ ho
    | reject _ _ horders => exact horders ▸ List.mem_append_left _ ho
    | none horders => exact horders ▸ ho
  | _ => exact ho

/-- The rejected order that a thread remembers is in the table. -/
lemma rejected_mem (h : Reachable cfg s) {o : Order} (ho : (s.trail t).rejected = some o) :
    o ∈ s.db.orders := by
  refine h.invariant (I := fun s => ∀ t o, (s.trail t).rejected = some o → o ∈ s.db.orders)
    (fun t o ho => by cases ho) (fun s e s' hrun hI _ hstep t o ho => ?_) t o ho
  have hinv := inv_of_reachable hrun
  rcases hinv.trail_step hstep t with htrail | ⟨choice, l, c, k, s₁, r, rfl, hth, hrespond, htrail⟩
  · exact hinv.orders_mono hstep (hI t o (htrail ▸ ho))
  · have hold (hrejected : l.trail.rejected = some o) : o ∈ s'.db.orders :=
      hinv.orders_mono hstep (hI t o (by rw [Sys.trail_eq hth]; exact hrejected))
    rw [htrail] at ho
    cases hinv.orderStep hth hrespond with
    | commit htx hbooks horders hcommits hl' =>
      rw [hl'] at ho
      exact hold ho
    | reject hrejects hrejected horders hcommits hl' =>
      rw [hl'] at ho
      obtain rfl := Option.some.inj ho
      rw [Sys.step, hth, Option.bind_some, Sys.runThread, hrespond, Option.map_some] at hstep
      obtain rfl := Option.some.inj hstep
      show _ ∈ s₁.db.orders
      rw [horders]
      exact List.mem_append_right _ (List.mem_singleton.mpr rfl)
    | none horders hcommits hreq hbooked hrejected =>
      exact hold (hrejected ▸ ho)

/-! ## One order for each quote -/

/-- In an audited step the commands that the order depends on do not fail. -/
lemma Inv.outcome_of_audited (h : Inv cfg s) {c : Cmd} {choice : Choice}
    {k : Except Exn c.Ret → Service Response} {r : Except Exn c.Ret}
    (hth : s.threads t = some ⟨l, .call c k, true⟩) (hok : Audited s (.run t choice))
    (hrespond : s.respond t l.tx c choice = some (s₁, r)) :
    auditing.outcome l c r (l.after s.seq c r) := by
  refine ⟨⟨s.seq, rfl⟩, ?_⟩
  rintro e rfl
  have hnext : c ∈ s.next t := Sys.next_call hth
  have htrail : s.trail t = l.trail := Sys.trail_eq hth
  cases choice with
  | fail =>
    have hmay := hok c hnext
    rwa [htrail] at hmay
  | rates rates =>
    cases c with
    | getRates => rfl
    | _ => cases hrespond
  | ok =>
    -- what is refused outside the transactions is a row that is there, or does not fit
    have haccepts (quote : Quote) (hquote : l.trail.hand = some quote) :
        s.db.accepts quote c = true := hok c hnext quote (by rw [htrail]; exact hquote)
    have hheld (hno : ∀ quote, l.trail.hand ≠ some quote) : (!l.trail.hand.isSome) = true := by
      rw [Option.eq_none_iff_forall_ne_some.mpr hno]
      rfl
    cases c with
    | pool c =>
      have herror : (execPool s.db s.seq c).2 = .error e := (Prod.ext_iff.mp
        (Option.some.inj hrespond)).2
      cases c with
      | findWallet u => cases herror
      | saveWallet u =>
        refine hheld fun quote hquote => ?_
        have hnot : u ∉ s.db.wallets := by simpa [Database.accepts] using haccepts quote hquote
        simp [execPool, hnot] at herror
      | saveOrder o =>
        refine hheld fun quote hquote => ?_
        obtain ⟨-, -, -, _, _, quote', reason, -, hhand, rfl⟩ := h.guard hth
        obtain rfl := Option.some.inj (hquote.symm.trans hhand)
        have hvalid := h.hands t _ quote hth hhand
        have hstorable : quote.storable = true := haccepts quote hquote
        have hchecks : (rejectedOrder quote.userId quote reason).checks = true := by
          simpa [OrderData.checks, rejectedOrder, orderOfQuote, Quote.storable,
            hvalid.amountIn_pos, hvalid.amountOut_pos] using hstorable
        simp [execPool, hchecks] at herror
      | _ => rfl
    | startTransaction => cases hrespond
    | rollback => cases hrespond
    | redis c =>
      cases c with
      | getdel q => cases hrespond
      | acquire u ttl =>
        obtain ⟨⟨redis, r⟩, hexec, heq⟩ := Option.map_eq_some_iff.mp hrespond
        simp only [execRedis] at hexec
        split at hexec
        · cases hexec
        · cases hexec
          cases heq
      | _ => rfl
    | _ => rfl

/-- In audited runs every trade ends as its audit says. -/
lemma audit_of_runs (h : Runs cfg Audited Sys.initial s) {th : Thread}
    (hth : s.threads t = some th) (hreq : th.state.req = .executeTrade u q k)
    {a : Except Exn Response} (ha : th.answer = some a) : Audit th.state a := by
  have halive : th.alive = true := by
    unfold Thread.answer at ha
    split at ha
    · assumption
    · assumption
    · cases ha
  refine Thread.of_answer (D := auditing) (Q := Audit) ?_ ha
  refine forall_programs (P := fun l p => ∀ u q k, l.req = .executeTrade u q k →
    p.wp auditing Audit l) h ?_ ?_ hth halive u q k hreq
  · rintro req u q k rfl
    refine wp_bind.mpr (wp_mono (fun l r hr => ?_) wp_executeTrade_audited)
    cases r <;> exact hr
  · intro s t choice l c k s₁ r hrun hok hth hrespond hp u q key hreq
    rw [Local.after_req] at hreq
    have hinv := inv_of_reachable (reachable_of_runs hrun)
    exact (hp u q key hreq).2 r _ (hinv.outcome_of_audited hth hok hrespond)

/-- In audited runs every trade that consumes a quote leaves one order for it, FILLED if it
succeeds and REJECTED if it fails. -/
theorem trade_leaves_one_order (h : Runs cfg Audited Sys.initial s) : s.LeavesOneOrder := by
  intro t th u q k quote a hth hreq hhand howner ha
  have hreach := reachable_of_runs h
  have hhist := history_of_reachable hreach
  have hdesk := desk_of_reachable hreach
  have hone := (quote_executed_once (h.mono fun _ _ => Audited.getdelAvailable) quote.id).1
  -- a row of the quote with this status is the only one
  have hsingle {o : Order} (ho : o ∈ s.db.orders) (hid : o.quoteId = some quote.id)
      (hstatus : o.status = terminalStatus a) : ∃ o,
        (s.db.orders.filter fun o => o.quoteId = some quote.id) = [o] ∧
          o.status = terminalStatus a := by
    have hmem : o ∈ s.db.orders.filter fun o => o.quoteId = some quote.id :=
      List.mem_filter.mpr ⟨ho, by simpa using hid⟩
    obtain ⟨o', ho'⟩ := List.length_eq_one_iff.mp
      (le_antisymm hone (List.length_pos_of_mem hmem))
    rw [ho', List.mem_singleton] at hmem
    exact ⟨o', ho', hmem ▸ hstatus⟩
  have haudit := audit_of_runs h hth hreq ha
  cases a with
  | ok res =>
    -- it has found no journal, so it has booked
    have hfound : th.state.trail.found = none := by
      rcases haudit with hnone | hfound
      · rw [hhand] at hnone
        cases hnone
      · exact hfound
    have hanswer := (inv_of_reachable hreach).answer hth ha
    obtain ⟨tx, hbooked⟩ : ∃ tx, th.state.trail.booked = some tx := by
      cases res with
      | operation r =>
        obtain ⟨-, -, -, ⟨tx, hbooked, -⟩ | ⟨-, hsome⟩⟩ := hanswer
        · exact ⟨tx, hbooked⟩
        · rw [hfound] at hsome
          cases hsome
      | consumed found => cases hreq ▸ hanswer.2.2.1
      | quote quote => cases hreq ▸ hanswer.2.2
      | wallet w => cases hreq ▸ hanswer.2.2
    obtain ⟨quote', j, o, -, hhand', ho, hfills⟩ := hhist.trade hth hreq hbooked
    obtain rfl := Option.some.inj (hhand.symm.trans hhand')
    obtain ⟨src, horders, -, -, hall⟩ := hdesk.origin
    have hmem : o ∈ s.db.orders := by
      rw [horders]
      exact List.mem_map.mpr ⟨(t, o), hall _ hfills.commit o (by simp [ho]), rfl⟩
    obtain ⟨id, filledAt, rfl⟩ := hfills.order
    exact hsingle hmem rfl rfl
  | error e =>
    obtain ⟨o, hrejected⟩ : ∃ o, th.state.trail.rejected = some o := by
      rcases haudit with hlost | hrejected
      · exact absurd (by rw [howner, hreq]; rfl) (hlost.hand quote hhand)
      · exact Option.ne_none_iff_exists'.mp hrejected
    obtain ⟨-, -, _, _, quote', reason, id, -, hhand', rfl⟩ := hdesk.rejects t th o hth hrejected
    obtain rfl := Option.some.inj (hhand.symm.trans hhand')
    exact hsingle (rejected_mem hreach (by rw [Sys.trail_eq hth, hrejected])) rfl rfl

/-- A trade that is filled, and then one that is rejected for lack of balance. -/
def rejectRun : List Event :=
  tradeRun ++ [.spawn (.createQuote 1 "USD" "EUR" 1000), .run 50 (.rates parRates)] ++
    serve 50 3 ++ .spawn (.executeTrade 1 52 "again") :: serve 55 9

theorem trade_leaves_one_order_twice : ∃ s th th', Runs {} Audited Sys.initial s ∧
    s.threads 25 = some th ∧ s.threads 55 = some th' ∧ th.operation.isSome ∧
    th'.failure.isSome ∧ s.LeavesOneOrder := by
  have hplay : (runAll (Sys.step {}) Audited Sys.initial rejectRun).any (fun s =>
      (s.threads 25).any (fun th => th.operation.isSome) ∧
        (s.threads 55).any fun th => th.failure.isSome) = true := by decide +kernel
  obtain ⟨s, hrun, hs⟩ := exists_of_runAll hplay
  simp only [Bool.decide_and, Bool.and_eq_true, decide_eq_true_eq, Option.any_eq_true] at hs
  obtain ⟨⟨th, hth, hfilled⟩, th', hth', hrejected⟩ := hs
  exact ⟨s, th, th', hrun, hth, hth', hfilled, hrejected, trade_leaves_one_order hrun⟩

/-- A quote is accepted for an amount that no `bigint` column holds.  Nothing fails, but its
trade ends without an order. -/
theorem trade_without_order : ∃ s, Runs {} NoFailure Sys.initial s ∧ ¬ s.LeavesOneOrder := by
  have hplay : (runAll (Sys.step {}) NoFailure Sys.initial
      ([.spawn (.createQuote 1 "USD" "EUR" (2 ^ 63)), .run 1 (.rates parRates)] ++ serve 1 3 ++
        .spawn (.executeTrade 1 3 "trade") :: serve 6 10)).any (fun s =>
          s.db.orders = [] ∧ (s.threads 6).any fun th =>
            th.state.req = .executeTrade 1 3 "trade" ∧ th.failure.isSome ∧
              th.state.trail.hand.any fun quote => quote.userId = 1) = true := by decide +kernel
  obtain ⟨s, hrun, hs⟩ := exists_of_runAll hplay
  simp only [Bool.decide_and, Bool.and_eq_true, decide_eq_true_eq, Option.any_eq_true] at hs
  obtain ⟨horders, th, hth, hreq, hfailure, quote, hhand, howner⟩ := hs
  obtain ⟨e, he⟩ := Option.isSome_iff_exists.mp hfailure
  refine ⟨s, hrun, fun hone => ?_⟩
  obtain ⟨o, ho, -⟩ := hone 6 th 1 3 "trade" quote _ hth hreq hhand howner
    (Thread.answer_of_failure he)
  rw [horders] at ho
  cases ho

end FxExchange
