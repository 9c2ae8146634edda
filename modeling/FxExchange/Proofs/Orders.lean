import FxExchange.Proofs.Books
import FxExchange.Proofs.Redemption

/-
# Orders

Where the order rows come from.  A trade leaves at most one: the filled one that its
transaction commits together with the journal, or the rejected one that it saves after the
rollback.
-/

namespace FxExchange

open Transition

variable {cfg : Config} {s s' s₁ : Sys} {t : Tid} {e : Event} {q : QuoteId}

/-! ## What a command does to orders -/

/-- The rejected order of a request that has booked nothing. -/
structure Rejects (l : Local) (o : Order) : Prop where
  tx : l.tx = none
  booked : l.trail.booked = none
  order : ∃ q k quote reason id, l.req = .executeTrade quote.userId q k ∧
    l.trail.hand = some quote ∧ o = (rejectedOrder quote.userId quote reason).row id

/-- The ways in which a command changes the orders, the state of its thread going from `l` to
`l'`. -/
inductive OrderStep (s : Sys) (t : Tid) (l l' : Local) (s₁ : Sys) : Prop
  | commit {tx : Tx} {j : JournalEntry} (htx : l.tx = some tx)
      (hbooks : Books l.req l.trail.hand tx j) (horders : s₁.db.orders = s.db.orders ++ tx.orders)
      (hcommits : s₁.commits = s.commits ++ [(t, tx)]) (hl' : l' = l.committed tx)
  | reject {o : Order} (hrejects : Rejects l o) (hrejected : l.trail.rejected = none)
      (horders : s₁.db.orders = s.db.orders ++ [o]) (hcommits : s₁.commits = s.commits)
      (hl' : l' = { l with trail := { l.trail with rejected := some o } })
  | none (horders : s₁.db.orders = s.db.orders) (hcommits : s₁.commits = s.commits)
      (hreq : l'.req = l.req) (hbooked : l'.trail.booked = l.trail.booked)
      (hrejected : l'.trail.rejected = l.trail.rejected)
      (hsettled : l.Settled → l'.trail.hand = l.trail.hand ∧ (l.tx = none → l'.tx = none))

lemma Inv.orderStep (h : Inv cfg s) {l : Local} {c : Cmd} {choice : Choice}
    {k : Except Exn c.Ret → Service Response} {r : Except Exn c.Ret}
    (hth : s.threads t = some ⟨l, .call c k, true⟩)
    (hrespond : s.respond t l.tx c choice = some (s₁, r)) :
    OrderStep s t l (l.after s.seq c r) s₁ := by
  have hguard := h.guard hth
  have hserved := Sys.served_of_eq hrespond
  have hsettled (hs : l.Settled) : (l.after s.seq c r).trail.hand = l.trail.hand ∧
      (l.tx = Option.none → (l.after s.seq c r).tx = Option.none) :=
    ⟨Local.after_hand hguard hs, fun htx => Local.after_tx hguard hs htx⟩
  cases h.booking hth hserved with
  | commit htx hbooks hdb hcommits hl' =>
    exact .commit htx hbooks (congrArg Database.orders hdb) hcommits hl'
  | none hrows hamount hjournals hcommits hbooked hhand =>
    have hother (hc : ∀ o, c ≠ .pool (.saveOrder o)) (horders : s₁.db.orders = s.db.orders) :
        OrderStep s t l (l.after s.seq c r) s₁ :=
      .none horders hcommits Local.after_req hbooked (Local.after_rejected hc) hsettled
    cases hserved with
    | pool c =>
      cases c with
      | saveOrder o =>
        obtain ⟨htx, hbooked', hrejected, q, k, quote, reason, hreq, hquote, ho⟩ := hguard
        by_cases hchecks : o.checks = true
        · have hexec : execPool s.db s.seq (.saveOrder o) =
              ({ s.db with orders := s.db.orders ++ [o.row s.seq] }, .ok s.seq) := if_pos hchecks
          rw [hexec]
          exact .reject ⟨htx, hbooked', q, k, quote, reason, s.seq, hreq, hquote, ho ▸ rfl⟩
            hrejected rfl rfl rfl
        · have hexec : execPool s.db s.seq (.saveOrder o) = (s.db, .error .checkViolation) :=
            if_neg hchecks
          rw [hexec]
          exact .none rfl rfl rfl rfl rfl fun _ => ⟨rfl, fun h => h⟩
      | saveWallet u =>
        refine hother (by simp) ?_
        simp only [execPool]
        split <;> rfl
      | _ => exact hother (by simp) rfl
    | commit htx haborted => exact absurd hcommits (by simp)
    | failed c e _ _ _ _ =>
      exact .none rfl rfl Local.after_req hbooked Local.afterError_rejected hsettled
    | _ => exact hother (by simp) rfl

/-! ## The origin of the order rows -/

/-- The order is the one that the thread has left. -/
def Sys.Placed (s : Sys) (t : Tid) (o : Order) : Prop :=
  (∃ tx, (s.trail t).booked = some tx ∧ tx.orders = [o]) ∨ (s.trail t).rejected = some o

/-- Every order row was left by a thread of its own, and every order of a commit is there. -/
structure Desk (s : Sys) : Prop where
  origin : ∃ src : List (Tid × Order), s.db.orders = src.map Prod.snd ∧
    (src.map Prod.fst).Nodup ∧ (∀ p ∈ src, s.Placed p.1 p.2) ∧
    ∀ c ∈ s.commits, ∀ o ∈ c.2.orders, (c.1, o) ∈ src
  rejects : ∀ t th o, s.threads t = some th → th.state.trail.rejected = some o →
    Rejects th.state o

lemma desk_initial : Desk Sys.initial :=
  ⟨⟨[], by simp [Sys.initial, Database.migrated]⟩, by simp [Sys.initial]⟩

/-- What a booked transaction leaves. -/
lemma Books.orders_cases {req : Request} {hand : Option Quote} {tx : Tx} {j : JournalEntry}
    (h : Books req hand tx j) : tx.orders = [] ∨ ∃ o, tx.orders = [o] := by
  have horders := h.orders
  unfold OrdersOf at horders
  split at horders
  · obtain ⟨quote, id, filledAt, -, horders⟩ := horders
    exact Or.inr ⟨_, horders⟩
  · exact Or.inl horders

/-- A thread that has left an order has no transaction open. -/
lemma Desk.tx_of_placed (h : Desk s) (hhist : History s) {th : Thread} {o : Order}
    (hth : s.threads t = some th) (hplaced : s.Placed t o) :
    th.state.tx = none ∧ th.state.Settled := by
  rw [Sys.Placed, Sys.trail_eq hth] at hplaced
  rcases hplaced with ⟨tx, hbooked, -⟩ | hrejected
  · exact ⟨(hhist.closed t th tx hth hbooked).1, Or.inl (by simp [hbooked])⟩
  · exact ⟨(h.rejects t th o hth hrejected).tx, Or.inr (by simp [hrejected])⟩

/-- The order that a thread has left stays its own. -/
lemma Desk.placed_step (h : Desk s) (hinv : Inv cfg s) (hhist : History s)
    (hstep : s.step cfg e = some s') {o : Order} (hplaced : s.Placed t o) : s'.Placed t o := by
  rcases hinv.trail_step hstep t with htrail | ⟨choice, l, c, k, s₁, r, -, hth, hrespond, htrail⟩
  · rwa [Sys.Placed, htrail]
  obtain ⟨htx, hsettled⟩ := h.tx_of_placed hhist hth hplaced
  rw [Sys.Placed, Sys.trail_eq hth] at hplaced
  cases hinv.orderStep hth hrespond with
  | commit htx' => exact absurd (htx'.symm.trans htx) (by simp)
  | reject hrejects hrejected =>
    exact absurd hsettled (Local.not_settled hrejects.booked hrejected)
  | none horders hcommits hreq hbooked hrejected =>
    rwa [Sys.Placed, htrail, hbooked, hrejected]

/-- A thread that is not settled has left no order. -/
lemma Desk.notMem_of_open (h : Desk s) (hhist : History s) {th : Thread}
    (hth : s.threads t = some th) (hopen : th.state.tx ≠ none ∨ ¬ th.state.Settled)
    {src : List (Tid × Order)} (hplaced : ∀ p ∈ src, s.Placed p.1 p.2) :
    t ∉ src.map Prod.fst := by
  intro hmem
  obtain ⟨⟨t', o⟩, hp, rfl⟩ := List.mem_map.mp hmem
  obtain ⟨htx, hsettled⟩ := h.tx_of_placed hhist hth (hplaced _ hp)
  rcases hopen with hne | hns
  · exact hne htx
  · exact hns hsettled

/-- One more thread has left an order. -/
lemma placed_snoc {src : List (Tid × Order)} {o : Order} (hnodup : (src.map Prod.fst).Nodup)
    (hnew : t ∉ src.map Prod.fst) (hkeep : ∀ p ∈ src, s.Placed p.1 p.2) (hplaced : s.Placed t o) :
    ((src ++ [(t, o)]).map Prod.fst).Nodup ∧ ∀ p ∈ src ++ [(t, o)], s.Placed p.1 p.2 := by
  constructor
  · rw [List.map_append, List.map_singleton]
    refine List.nodup_append.mpr ⟨hnodup, by simp, ?_⟩
    intro t₁ hmem t₂ hmem' heq
    rw [heq, List.mem_singleton.mp hmem'] at hmem
    exact hnew hmem
  · intro p hp
    rcases List.mem_append.mp hp with hp | hp
    · exact hkeep p hp
    · rw [List.mem_singleton.mp hp]
      exact hplaced

/-- The rows after a step. -/
lemma Desk.origin_step (h : Desk s) (hinv : Inv cfg s) (hhist : History s)
    (hstep : s.step cfg e = some s') : ∃ src : List (Tid × Order),
      s'.db.orders = src.map Prod.snd ∧ (src.map Prod.fst).Nodup ∧
        (∀ p ∈ src, s'.Placed p.1 p.2) ∧ ∀ c ∈ s'.commits, ∀ o ∈ c.2.orders, (c.1, o) ∈ src := by
  obtain ⟨src, horders, hnodup, hplaced, hall⟩ := h.origin
  have hkeep : ∀ p ∈ src, s'.Placed p.1 p.2 := fun p hp =>
    h.placed_step hinv hhist hstep (hplaced p hp)
  cases Sys.step_of_eq hstep with
  | @run t choice l c k s₁ r hth hrespond =>
    have htrail : (s₁.setThread t ⟨l.after s.seq c r, k r, true⟩).trail t =
        (l.after s.seq c r).trail := Sys.trail_eq (Sys.setThread_self _)
    cases hinv.orderStep hth hrespond with
    | @commit tx j htx hbooks horders' hcommits hl' =>
      rcases hbooks.orders_cases with hnil | ⟨o, ho⟩
      · refine ⟨src, ?_, hnodup, hkeep, ?_⟩
        · exact horders'.trans (by rw [hnil, List.append_nil, horders])
        · intro c hc o ho
          rcases List.mem_append.mp (hcommits ▸ hc : c ∈ s.commits ++ [(t, tx)]) with hc | hc
          · exact hall c hc o ho
          · rw [List.mem_singleton.mp hc, hnil] at ho
            cases ho
      · have hnew := h.notMem_of_open hhist hth (Or.inl (by simp [htx])) hplaced
        obtain ⟨hnodup', hplaced'⟩ := placed_snoc hnodup hnew hkeep (o := o) (by
          rw [Sys.Placed, htrail, hl']
          exact Or.inl ⟨tx, rfl, ho⟩)
        refine ⟨src ++ [(t, o)], ?_, hnodup', hplaced', ?_⟩
        · exact horders'.trans (by rw [ho, horders, List.map_append, List.map_singleton])
        · intro c hc o' ho'
          rcases List.mem_append.mp (hcommits ▸ hc : c ∈ s.commits ++ [(t, tx)]) with hc | hc
          · exact List.mem_append_left _ (hall c hc o' ho')
          · rw [List.mem_singleton.mp hc] at ho' ⊢
            rw [ho] at ho'
            rw [List.mem_singleton.mp ho']
            simp
    | @reject o hrejects hrejected horders' hcommits hl' =>
      have hnew := h.notMem_of_open hhist hth
        (Or.inr (Local.not_settled hrejects.booked hrejected)) hplaced
      obtain ⟨hnodup', hplaced'⟩ := placed_snoc hnodup hnew hkeep (o := o) (by
        rw [Sys.Placed, htrail, hl']
        exact Or.inr rfl)
      refine ⟨src ++ [(t, o)], ?_, hnodup', hplaced', ?_⟩
      · exact horders'.trans (by rw [horders, List.map_append, List.map_singleton])
      · intro c hc o' ho'
        exact List.mem_append_left _ (hall c (hcommits ▸ hc : c ∈ s.commits) o' ho')
    | none horders' hcommits =>
      exact ⟨src, horders'.trans horders, hnodup, hkeep, fun c hc =>
        hall c (hcommits ▸ hc : c ∈ s.commits)⟩
  | _ => exact ⟨src, horders, hnodup, hkeep, hall⟩

/-- The rejected orders after a step. -/
lemma Desk.rejects_step (h : Desk s) (hinv : Inv cfg s) (hstep : s.step cfg e = some s')
    {th' : Thread} {o : Order} (hth' : s'.threads t = some th')
    (ho : th'.state.trail.rejected = some o) : Rejects th'.state o := by
  rcases Sys.thread_step hstep hth' with ⟨req, hstate⟩ | ⟨th, hth, hreq, htrail, htx⟩ |
    ⟨choice, l, c, k, s₁, r, -, hth, hrespond, hstate⟩
  · rw [hstate] at ho
    cases ho
  · rw [htrail] at ho
    obtain ⟨htx₀, hbooked, horder⟩ := h.rejects t th o hth ho
    exact ⟨htx.elim (·.trans htx₀) id, htrail ▸ hbooked, hreq ▸ htrail ▸ horder⟩
  · rw [hstate] at ho ⊢
    cases hinv.orderStep hth hrespond with
    | commit htx hbooks horders' hcommits hl' =>
      rw [hl'] at ho
      exact absurd (htx.symm.trans (h.rejects t _ o hth ho).tx) (by simp)
    | reject hrejects hrejected horders' hcommits hl' =>
      rw [hl'] at ho ⊢
      obtain rfl := Option.some.inj ho
      exact ⟨hrejects.tx, hrejects.booked, hrejects.order⟩
    | none horders' hcommits hreq hbooked hrejected hsettled =>
      rw [hrejected] at ho
      obtain ⟨htx₀, hbooked₀, horder⟩ := h.rejects t _ o hth ho
      obtain ⟨hhand, htx⟩ := hsettled (Or.inr (by simp [ho]))
      exact ⟨htx htx₀, hbooked.trans hbooked₀, hreq ▸ hhand ▸ horder⟩

lemma Desk.step (h : Desk s) (hinv : Inv cfg s) (hhist : History s)
    (hstep : s.step cfg e = some s') : Desk s' where
  origin := h.origin_step hinv hhist hstep
  rejects _ _ _ hth' ho := h.rejects_step hinv hstep hth' ho

theorem desk_of_reachable (h : Reachable cfg s) : Desk s :=
  h.invariant desk_initial fun _ _ _ hrun hdesk _ hstep =>
    hdesk.step (inv_of_reachable hrun) (history_of_reachable hrun) hstep

/-! ## What the rows say -/

/-- The order is the filled one of a trade that has booked `j` for the quote. -/
structure Fills (s : Sys) (t : Tid) (o : Order) (quote : Quote) (tx : Tx) (j : JournalEntry) :
    Prop where
  commit : (t, tx) ∈ s.commits
  journals : tx.journals = [j]
  userId : j.userId = quote.userId
  status : j.status = .success
  purpose : j.purpose = .trade
  legs : j.legs.map LedgerEntryInput.side = exchangeSides quote.userId quote.fromCurrency
    quote.toCurrency quote.amountInSubunits quote.amountOutSubunits
  order : ∃ id filledAt, o = filledOrder quote.userId quote id j.id filledAt

/-- A trade that has booked has left the filled order of the quote that it had in hand. -/
lemma History.trade (hhist : History s) {th : Thread} (hth : s.threads t = some th) {u : UserId}
    {k : String} (hreq : th.state.req = .executeTrade u q k) {tx : Tx}
    (hbooked : th.state.trail.booked = some tx) : ∃ quote j o, quote.id = q ∧
      th.state.trail.hand = some quote ∧ tx.orders = [o] ∧ Fills s t o quote tx j := by
  have hcommit := (hhist.closed t th tx hth hbooked).2
  obtain ⟨th₀, j, hth₀, -, hbooks⟩ := hhist.booked _ hcommit
  obtain rfl := Option.some.inj (hth.symm.trans hth₀)
  have hcarries := hbooks.carries
  have horders := hbooks.orders
  have hu := hbooks.userId
  simp only [Carries, OrdersOf, hreq] at hcarries horders hu
  obtain ⟨quote, hhand, rfl, rfl, hpurpose, hsides⟩ := hcarries
  obtain ⟨quote', id, filledAt, hhand', ho⟩ := horders
  obtain rfl := Option.some.inj (hhand.symm.trans hhand')
  exact ⟨quote, j, _, rfl, hhand, ho,
    ⟨hcommit, hbooks.journals, hu, hbooks.status, hpurpose, hsides, id, filledAt, rfl⟩⟩

/-- An order that was left by a thread is about the quote that the thread has in hand. -/
lemma Desk.of_placed (h : Desk s) (hhist : History s) {o : Order} (hplaced : s.Placed t o) :
    ∃ th quote, s.threads t = some th ∧ th.state.trail.hand = some quote ∧
      ((∃ tx j, Fills s t o quote tx j) ∨
        th.state.trail.rejected = some o ∧ th.state.trail.booked = none ∧
          ∃ reason id, o = (rejectedOrder quote.userId quote reason).row id) := by
  cases hth : s.threads t with
  | none => simp [Sys.Placed, Sys.trail, hth] at hplaced
  | some th =>
    rw [Sys.Placed, Sys.trail_eq hth] at hplaced
    rcases hplaced with ⟨tx, hbooked, ho⟩ | hrejected
    · obtain ⟨th₀, j, hth₀, -, hbooks⟩ := hhist.booked _ (hhist.closed t th tx hth hbooked).2
      obtain rfl := Option.some.inj (hth.symm.trans hth₀)
      have horders := hbooks.orders
      unfold OrdersOf at horders
      split at horders
      · rename_i u q k hreq
        obtain ⟨quote, j, o', -, hhand, ho', hfills⟩ := hhist.trade hth hreq hbooked
        obtain rfl : o = o' := by simpa using ho.symm.trans ho'
        exact ⟨th, quote, rfl, hhand, Or.inl ⟨tx, j, hfills⟩⟩
      · exact absurd (ho.symm.trans horders) (by simp)
    · obtain ⟨-, hbooked, q, k, quote, reason, id, -, hhand, ho⟩ := h.rejects t th o hth hrejected
      exact ⟨th, quote, rfl, hhand, Or.inr ⟨hrejected, hbooked, reason, id, ho⟩⟩

/-- Both kinds of orders carry the quote's id and its user. -/
lemma Desk.quote_of_placed (h : Desk s) (hhist : History s) {o : Order} (hplaced : s.Placed t o) :
    ∃ quote, (s.trail t).hand = some quote ∧ o.quoteId = some quote.id ∧
      o.userId = quote.userId := by
  obtain ⟨th, quote, hth, hhand, ⟨tx, j, hfills⟩ | ⟨-, -, reason, id, rfl⟩⟩ :=
    h.of_placed hhist hplaced
  · obtain ⟨id, filledAt, rfl⟩ := hfills.order
    exact ⟨quote, by rw [Sys.trail_eq hth, hhand], rfl, rfl⟩
  · exact ⟨quote, by rw [Sys.trail_eq hth, hhand], rfl, rfl⟩

/-- Rows of different origins of which those that `P` selects have one origin. -/
lemma length_filter_le_one {src : List (Tid × Order)} (hnodup : (src.map Prod.fst).Nodup)
    {P : Order → Bool}
    (hone : ∀ p ∈ src, ∀ p' ∈ src, P p.2 = true → P p'.2 = true → p.1 = p'.1) :
    ((src.map Prod.snd).filter P).length ≤ 1 := by
  rw [List.filter_map, List.length_map]
  have hsub : ((src.filter (P ∘ Prod.snd)).map Prod.fst).Nodup :=
    hnodup.sublist (List.filter_sublist.map _)
  match hl : src.filter (P ∘ Prod.snd) with
  | [] => simp
  | [p] => simp
  | p :: p' :: rest =>
    have hmem (x : Tid × Order) (hx : x ∈ src.filter (P ∘ Prod.snd)) :
        x ∈ src ∧ P x.2 = true := by
      simpa using List.mem_filter.mp hx
    obtain ⟨hp, hPp⟩ := hmem p (by simp [hl])
    obtain ⟨hp', hPp'⟩ := hmem p' (by simp [hl])
    rw [hl] at hsub
    exact absurd (hone p hp p' hp' hPp hPp') (by simp at hsub; tauto)

/-! ## A quote is executed once -/

/-- The call of `executeTrade` for the quote has booked. -/
def Sys.Executes (s : Sys) (t : Tid) (q : QuoteId) : Prop :=
  ∃ th u k, s.threads t = some th ∧ th.state.req = .executeTrade u q k ∧
    th.state.trail.booked.isSome

/-- While GETDEL works, a quote is executed at most once, at most one order row is about it,
and that row is its owner's. -/
theorem quote_executed_once (h : Runs cfg GetdelAvailable Sys.initial s) (q : QuoteId) :
    (s.db.orders.filter fun o => o.quoteId = some q).length ≤ 1 ∧
    (∀ t t', s.Executes t q → s.Executes t' q → t = t') ∧
    ∀ o ∈ s.db.orders, o.quoteId = some q → ∃ quote, s.Issued quote ∧ quote.id = q ∧
      o.userId = quote.userId ∧ ∀ quote', s.Issued quote' → quote'.id = q → quote' = quote := by
  have hreach := reachable_of_runs h
  have hhist := history_of_reachable hreach
  have hdesk := desk_of_reachable hreach
  have hcustody := inCustody_of_runs h
  -- only one thread has the quote in hand
  have hone {t t' : Tid} {quote quote' : Quote} (hhand : (s.trail t).hand = some quote)
      (hhand' : (s.trail t').hand = some quote') (hid : quote.id = quote'.id) : t = t' :=
    hcustody.exclusive.single t t' quote quote' hhand hhand' hid
  obtain ⟨src, horders, hnodup, hplaced, -⟩ := hdesk.origin
  refine ⟨?_, ?_, ?_⟩
  · rw [horders]
    refine length_filter_le_one hnodup fun p hp p' hp' hq hq' => ?_
    obtain ⟨quote, hhand, hid, -⟩ := hdesk.quote_of_placed hhist (hplaced p hp)
    obtain ⟨quote', hhand', hid', -⟩ := hdesk.quote_of_placed hhist (hplaced p' hp')
    simp only [hid, hid', decide_eq_true_eq, Option.some.injEq] at hq hq'
    exact hone hhand hhand' (hq.trans hq'.symm)
  · intro t t' ht ht'
    obtain ⟨th, u, k, hth, hreq, hbooked⟩ := ht
    obtain ⟨th', u', k', hth', hreq', hbooked'⟩ := ht'
    obtain ⟨tx, hbooked⟩ := Option.isSome_iff_exists.mp hbooked
    obtain ⟨tx', hbooked'⟩ := Option.isSome_iff_exists.mp hbooked'
    obtain ⟨quote, -, -, hid, hhand, -⟩ := hhist.trade hth hreq hbooked
    obtain ⟨quote', -, -, hid', hhand', -⟩ := hhist.trade hth' hreq' hbooked'
    exact hone (by rw [Sys.trail_eq hth, hhand]) (by rw [Sys.trail_eq hth', hhand'])
      (hid.trans hid'.symm)
  · intro o ho hq
    rw [horders] at ho
    obtain ⟨p, hp, rfl⟩ := List.mem_map.mp ho
    obtain ⟨quote, hhand, hid, hu⟩ := hdesk.quote_of_placed hhist (hplaced p hp)
    obtain rfl : quote.id = q := Option.some.inj (hid.symm.trans hq)
    have hissued := hcustody.known.hand p.1 quote hhand
    exact ⟨quote, hissued, rfl, hu, fun quote' hissued' hid' =>
      hcustody.known.keys quote' hissued' quote hissued hid'⟩

/-- User 1 gets a quote for 100 of its 500 USD, and trades by it. -/
def tradeRun : List Event :=
  fundRun ++ [.spawn (.createQuote 1 "USD" "EUR" 100), .run 20 (.rates parRates)] ++
    serve 20 3 ++ .spawn (.executeTrade 1 22 "trade") :: serve 25 24

/-- The quote of a trade that has been executed. -/
theorem quote_executed_once_traded : ∃ s, Runs {} GetdelAvailable Sys.initial s ∧
    s.db.orders ≠ [] ∧ (s.db.orders.filter fun o => o.quoteId = some 22).length ≤ 1 := by
  have hplay : (runAll (Sys.step {}) NoFailure Sys.initial tradeRun).any
      (fun s => s.db.orders ≠ []) = true := by decide +kernel
  obtain ⟨s, hrun, hs⟩ := exists_of_runAll hplay
  have hrun' := hrun.mono fun _ _ => GetdelAvailable.of_noFailure
  exact ⟨s, hrun', by simpa using hs, (quote_executed_once hrun' 22).1⟩

/-! ## Orders and journals -/

/-- The order is what its trade made of the quote, and `j` the journal of that trade. -/
structure Agrees (s : Sys) (o : Order) (j : JournalEntry) : Prop where
  mem : j ∈ s.db.journals
  status : j.status = .success
  purpose : j.purpose = .trade
  userId : j.userId = o.userId
  quote : ∃ quote, s.Issued quote ∧ o.quoteId = some quote.id ∧ o.userId = quote.userId ∧
    o.fromCurrency = quote.fromCurrency ∧ o.toCurrency = quote.toCurrency ∧
    o.amountInSubunits = quote.amountInSubunits ∧ o.amountOutSubunits = quote.amountOutSubunits ∧
    o.executedRate = some quote.effectiveRate ∧
    j.legs.map LedgerEntryInput.side = exchangeSides o.userId quote.fromCurrency
      quote.toCurrency quote.amountInSubunits quote.amountOutSubunits

lemma Fills.agrees (hknown : Custody.Known (lifetimeRules True) s.custody) (hhist : History s)
    {o : Order} {quote : Quote} {tx : Tx} {j : JournalEntry} (h : Fills s t o quote tx j)
    (hhand : (s.trail t).hand = some quote) : Agrees s o j := by
  obtain ⟨hcommit, hjournals, hu, hstatus, hpurpose, hlegs, id, filledAt, rfl⟩ := h
  have hmem : j ∈ s.db.journals := by
    rw [hhist.journals]
    exact List.mem_flatMap.mpr ⟨_, hcommit, by simp [hjournals]⟩
  exact ⟨hmem, hstatus, hpurpose, hu, quote, hknown.hand t quote hhand, rfl, rfl, rfl, rfl, rfl,
    rfl, rfl, hlegs⟩

/-- Orders and the ledger agree.  An order row is FILLED and has the journal of its trade, or
it is REJECTED and its trade has committed nothing; and every journal that a trade has booked
has its one order. -/
theorem orders_agree (h : Reachable cfg s) :
    (∀ o ∈ s.db.orders, o.status ≠ .pending ∧ (o.status = .filled ↔ o.journalEntryId.isSome) ∧
      (∀ id, o.journalEntryId = some id → ∃ j, j.id = id ∧ Agrees s o j ∧
        ∀ j' ∈ s.db.journals, j'.id = id → j' = j) ∧
      (o.status = .rejected → o.journalEntryId = none ∧ ∃ t th, s.threads t = some th ∧
        th.state.trail.rejected = some o ∧ ∀ c ∈ s.commits, c.1 ≠ t)) ∧
    ∀ t th u q k tx j, s.threads t = some th → th.state.req = .executeTrade u q k →
      th.state.trail.booked = some tx → j ∈ tx.journals →
      j ∈ s.db.journals ∧
        (s.db.orders.filter fun o => o.journalEntryId = some j.id).length = 1 := by
  have hhist := history_of_reachable h
  have hdesk := desk_of_reachable h
  have hknown := known_of_reachable h
  obtain ⟨src, horders, hnodup, hplaced, hall⟩ := hdesk.origin
  constructor
  · intro o ho
    rw [horders] at ho
    obtain ⟨⟨t, o⟩, hp, rfl⟩ := List.mem_map.mp ho
    obtain ⟨th, quote, hth, hhand, ⟨tx, j, hfills⟩ | ⟨hrejected, hbooked, reason, id, rfl⟩⟩ :=
      hdesk.of_placed hhist (hplaced _ hp)
    · have hagrees := hfills.agrees hknown hhist (by rw [Sys.trail_eq hth, hhand])
      obtain ⟨id, filledAt, rfl⟩ := hfills.order
      refine ⟨by simp [filledOrder], by simp [filledOrder], fun id hid => ?_, by simp [filledOrder]⟩
      obtain rfl : j.id = id := Option.some.inj hid
      refine ⟨j, rfl, hagrees, fun j' hj' hid' => ?_⟩
      obtain ⟨t', th', tx', -, hcommit', -, hbooks'⟩ := hhist.books_of_mem hj'
      exact (journal_eq h hcommit' hfills.commit hbooks'.journals hfills.journals hid').2
    · refine ⟨by simp [rejectedOrder, OrderData.row], by simp [rejectedOrder, OrderData.row,
        orderOfQuote], fun id hid => absurd hid (by simp [rejectedOrder, OrderData.row,
        orderOfQuote]), fun _ => ⟨rfl, t, th, hth, hrejected, ?_⟩⟩
      rintro c hc rfl
      obtain ⟨th', _, hth', hbooked', -⟩ := hhist.booked c hc
      obtain rfl := Option.some.inj (hth.symm.trans hth')
      rw [hbooked] at hbooked'
      cases hbooked'
  · intro t th u q k tx j hth hreq hbooked hj
    obtain ⟨quote, j', o, -, hhand, ho, hfills⟩ := hhist.trade hth hreq hbooked
    obtain rfl : j = j' := by simpa [hfills.journals] using hj
    refine ⟨(hfills.agrees hknown hhist (by rw [Sys.trail_eq hth, hhand])).mem, ?_⟩
    have hmem : o ∈ s.db.orders.filter fun o => o.journalEntryId = some j.id := by
      rw [List.mem_filter, horders]
      refine ⟨List.mem_map.mpr ⟨(t, o), hall _ hfills.commit o (by simp [ho]), rfl⟩, ?_⟩
      obtain ⟨id, filledAt, rfl⟩ := hfills.order
      simp [filledOrder]
    refine le_antisymm ?_ (List.length_pos_of_mem hmem)
    -- a row that points to the journal was left by this trade
    have horigin {p : Tid × Order} (hp : p ∈ src) (hid : p.2.journalEntryId = some j.id) :
        p.1 = t := by
      obtain ⟨th', quote', hth', hhand', ⟨tx', j', hfills'⟩ | ⟨-, -, reason, id, ho'⟩⟩ :=
        hdesk.of_placed hhist (hplaced p hp)
      · obtain ⟨id, filledAt, ho'⟩ := hfills'.order
        rw [ho'] at hid
        exact (journal_eq h hfills'.commit hfills.commit hfills'.journals hfills.journals
          (Option.some.inj hid)).1
      · rw [ho'] at hid
        cases hid
    rw [horders]
    refine length_filter_le_one hnodup fun p hp p' hp' hid hid' => ?_
    exact (horigin hp (by simpa using hid)).trans (horigin hp' (by simpa using hid')).symm

/-- The order of a trade that has been executed. -/
theorem orders_agree_traded : ∃ s, Reachable {} s ∧ s.db.orders.length = 1 ∧
    ∀ o ∈ s.db.orders, o.status ≠ .pending := by
  have hplay : (runAll (Sys.step {}) anyStep Sys.initial tradeRun).any
      (fun s => s.db.orders.length = 1) = true := by decide +kernel
  obtain ⟨s, hrun, hs⟩ := exists_of_runAll hplay
  exact ⟨s, hrun, by simpa using hs, fun o ho => ((orders_agree hrun).1 o ho).1⟩

end FxExchange
