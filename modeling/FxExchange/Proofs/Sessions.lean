import FxExchange.Proofs.Exactness
import FxExchange.Proofs.WalletCache

/-
# Sessions

The side of one user in the books, and the requests of a user who makes one after the other:
each journal of the user starts from the balances that the ones before it have left, and each
request has booked its journal unless an earlier one has succeeded with its key.
-/

namespace FxExchange

open DoubleEntry Transition

variable {cfg : Config} {s s' s₁ : Sys} {t : Tid} {e : Event} {u : UserId}
  {ths : List Thread} {th th' : Thread}

/-! ## What a user is shown -/

/-- A leg, of the house's legs without the balances. -/
structure ShownLeg where
  type : TransactionType
  currency : Currency
  amount : ℤ
  balances : Option (ℤ × ℤ)
  deriving DecidableEq, Repr

/-- What is shown of a leg: nothing of the balances of the house. -/
def LedgerEntryInput.shown (e : LedgerEntryInput) : ShownLeg where
  type := e.type
  currency := e.currency
  amount := e.amount
  balances := if e.walletId = .house then none else some (e.balanceBefore, e.balanceAfter)

/-- A journal without its ids and times. -/
structure ShownJournal where
  purpose : TransactionPurpose
  status : TransactionStatus
  idempotencyKey : String
  legs : List ShownLeg
  deriving DecidableEq, Repr

/-- What is shown of a journal. -/
def JournalEntry.shown (j : JournalEntry) : ShownJournal where
  purpose := j.purpose
  status := j.status
  idempotencyKey := j.idempotencyKey
  legs := j.legs.map LedgerEntryInput.shown

/-- The balances of a user, as far as they have any. -/
abbrev Purse : Type := Currency → Option ℤ

/-- The balances after a leg. -/
def Purse.enter (p : Purse) (e : ShownLeg) : Purse :=
  match e.balances with
  | none => p
  | some (_, balanceAfter) => Function.update p e.currency (some balanceAfter)

/-- The balances after all legs of a user's journals. -/
def purse (js : List ShownJournal) : Purse :=
  (js.flatMap ShownJournal.legs).foldl Purse.enter fun _ => none

/-- The balances after some journals of a user. -/
def purseOf (js : List JournalEntry) : Purse := purse (js.map JournalEntry.shown)

lemma purseOf_append_singleton {js : List JournalEntry} {j : JournalEntry} :
    purseOf (js ++ [j]) = (j.legs.map LedgerEntryInput.shown).foldl Purse.enter (purseOf js) := by
  rw [purseOf, List.map_append, purse, List.flatMap_append, List.foldl_append]
  simp only [List.map_cons, List.map_nil, List.flatMap_singleton]
  rfl

/-- The house's legs do not touch the balances of the user. -/
lemma foldl_enter_of_forall {p : Purse} {legs : List LedgerEntryInput} {c : Currency}
    (h : ∀ e ∈ legs, e.walletId ≠ .house → e.currency ≠ c) :
    (legs.map LedgerEntryInput.shown).foldl Purse.enter p c = p c := by
  induction legs generalizing p with
  | nil => rfl
  | cons e legs ih =>
    rw [List.map_cons, List.foldl_cons, ih fun e he => h e (List.mem_cons_of_mem _ he)]
    by_cases hhouse : e.walletId = .house
    · simp [Purse.enter, LedgerEntryInput.shown, hhouse]
    · have hne := h e List.mem_cons_self hhouse
      simp [Purse.enter, LedgerEntryInput.shown, hhouse, hne.symm]

/-- The leg of the user in a currency tells the balance after it. -/
lemma foldl_enter_of_mem {p : Purse} {legs : List LedgerEntryInput} {e : LedgerEntryInput}
    (hnd : legs.Pairwise fun e e' => e.walletId ≠ .house → e'.walletId ≠ .house →
      e.currency ≠ e'.currency) (he : e ∈ legs) (hown : e.walletId ≠ .house) :
    (legs.map LedgerEntryInput.shown).foldl Purse.enter p e.currency = some e.balanceAfter := by
  induction legs generalizing p with
  | nil => cases he
  | cons e' legs ih =>
    obtain ⟨hhead, htail⟩ := List.pairwise_cons.mp hnd
    rw [List.map_cons, List.foldl_cons]
    rcases List.mem_cons.mp he with rfl | he
    · rw [foldl_enter_of_forall fun e' he' hown' heq => hhead e' he' hown hown' heq.symm]
      simp [Purse.enter, LedgerEntryInput.shown, hown]
    · exact ih htail he

/-! ## What a commit does to a user's balances -/

section Commit

variable {req : Request} {hand : Option Quote} {tx : Tx} {j : JournalEntry} {db : Database}

lemma Books.row_of_created (h : Books req hand tx j) {a : Account} (ha : a ∈ tx.created) :
    a ∈ j.legs.map LedgerEntryInput.account := by
  obtain ⟨k, hk, rfl⟩ := List.mem_map.mp ha
  have hmem : (k.account, k.amount) ∈ j.legs.map fun e => (e.account, e.balanceBefore) :=
    h.locks.mem_iff.mp (List.mem_map_of_mem (List.mem_filter.mp hk).1)
  obtain ⟨e, he, heq⟩ := List.mem_map.mp hmem
  exact List.mem_map.mpr ⟨e, he, (Prod.mk.inj heq).1⟩

/-- A commit leaves the balances of a user alone that it has no legs on. -/
lemma Ledger.balancesOf_of_notMem {locks : Locks} {txs : Tid → Option Tx} (h : Ledger db locks txs)
    (htx : txs t = some tx) (hbooks : Books req hand tx j) {c : Currency}
    (hc : (⟨.user u, c⟩ : Account) ∉ j.legs.map LedgerEntryInput.account) :
    (db.apply tx).balancesOf u c = db.balancesOf u c := by
  have hamount : (db.apply tx).amount ⟨.user u, c⟩ = db.amount ⟨.user u, c⟩ := by
    rw [h.apply_amount htx hbooks]
    refine post_of_notMem fun hmem => hc ?_
    rwa [List.map_map] at hmem
  have hrow : (⟨.user u, c⟩ : Account) ∈ (db.apply tx).rows ↔
      (⟨.user u, c⟩ : Account) ∈ db.rows := by
    refine ⟨fun hmem => ?_, Finset.mem_union_left _⟩
    rcases Finset.mem_union.mp hmem with hold | hnew
    · exact hold
    · exact absurd (hbooks.row_of_created (List.mem_toFinset.mp hnew)) hc
  simp only [Database.balancesOf, hrow, hamount]

/-- A leg tells the balance of the user after the commit, and before. -/
lemma Ledger.balancesOf_of_mem {locks : Locks} {txs : Tid → Option Tx} (h : Ledger db locks txs)
    (htx : txs t = some tx) (hbooks : Books req hand tx j) {e : LedgerEntryInput}
    (he : e ∈ j.legs) (hu : e.walletId = .user u) :
    (db.apply tx).balancesOf u e.currency = some e.balanceAfter ∧
      e.balanceBefore = (db.balancesOf u e.currency).getD 0 := by
  have haccount : e.account = ⟨.user u, e.currency⟩ := by rw [← hu]; rfl
  have hfits := h.fits htx hbooks
  have hleg := List.mem_map_of_mem (f := LedgerEntryInput.leg) he
  constructor
  · have hrow := h.leg_mem_rows htx hbooks he
    have hamount : (db.apply tx).amount e.account = e.balanceAfter := by
      rw [h.apply_amount htx hbooks]
      exact post_of_mem hfits.nodup hleg
    rw [haccount] at hrow hamount
    rw [Database.balancesOf, if_pos hrow, hamount]
  · have hbefore : e.balanceBefore = db.amount e.account := hfits.before_eq _ hleg
    rw [hbefore, haccount, Database.balancesOf]
    split
    · rfl
    · rename_i hrow
      exact h.sheet.absent _ hrow

/-- The balances of the caller after the commit. -/
lemma Ledger.balancesOf_apply {locks : Locks} {txs : Tid → Option Tx} (h : Ledger db locks txs)
    (htx : txs t = some tx) (hbooks : Books req hand tx j) :
    (db.apply tx).balancesOf req.userId =
      (j.legs.map LedgerEntryInput.shown).foldl Purse.enter (db.balancesOf req.userId) := by
  funext c
  have hown {e : LedgerEntryInput} (he : e ∈ j.legs) (hne : e.walletId ≠ .house) :
      e.walletId = .user req.userId := (hbooks.carries.owner he).resolve_left hne
  by_cases hc : ∃ e ∈ j.legs, e.walletId ≠ .house ∧ e.currency = c
  · obtain ⟨e, he, hne, rfl⟩ := hc
    rw [(h.balancesOf_of_mem htx hbooks he (hown he hne)).1, foldl_enter_of_mem ?_ he hne]
    refine (List.pairwise_map.mp hbooks.nodup).imp_of_mem fun he he' hne hne₁ hne₂ heq => hne ?_
    show (⟨_, _⟩ : Account) = ⟨_, _⟩
    rw [hown he hne₁, hown he' hne₂, heq]
  · push Not at hc
    rw [foldl_enter_of_forall hc, h.balancesOf_of_notMem htx hbooks]
    intro hmem
    obtain ⟨e, he, haccount⟩ := List.mem_map.mp hmem
    refine hc e he (fun hhouse => ?_) (congrArg Account.currency haccount)
    have hwallet : e.walletId = .user req.userId := congrArg Account.walletId haccount
    rw [hhouse] at hwallet
    cases hwallet

end Commit

/-! ## The side of a user in the books -/

/-- The journals of a user. -/
def Sys.journalsOf (s : Sys) (u : UserId) : List JournalEntry :=
  s.db.journals.filter fun j => j.userId = u

/-- A command books a journal of the user, or it leaves their side of the books alone. -/
inductive SideStep (u : UserId) (s : Sys) (l l' : Local) (s₁ : Sys) : Prop
  | same (hjournals : s₁.journalsOf u = s.journalsOf u)
      (hbalances : s₁.db.balancesOf u = s.db.balancesOf u)
      (hbooked : l.req.userId = u → l'.trail.booked = l.trail.booked) : SideStep u s l l' s₁
  | booked {tx : Tx} {j : JournalEntry} (hu : l.req.userId = u) (htx : l.tx = some tx)
      (hbooks : Books l.req l.trail.hand tx j) (hjournals : s₁.journalsOf u = s.journalsOf u ++ [j])
      (hbalances : s₁.db.balancesOf u =
        (j.legs.map LedgerEntryInput.shown).foldl Purse.enter (s.db.balancesOf u))
      (hbefore : ∀ e ∈ j.legs, e.walletId ≠ .house →
        e.balanceBefore = (s.db.balancesOf u e.currency).getD 0)
      (hl' : l' = l.committed tx) : SideStep u s l l' s₁

lemma Inv.sideStep (h : Inv cfg s) {l : Local} {c : Cmd} {k : Except Exn c.Ret → Service Response}
    {r : Except Exn c.Ret} (hth : s.threads t = some ⟨l, .call c k, true⟩)
    (hserved : s.Served t l.tx c s₁ r) : SideStep u s l (l.after s.seq c r) s₁ := by
  cases h.booking hth hserved with
  | none hrows hamount hjournals _ hbooked =>
    refine .same ?_ ?_ fun _ => hbooked
    · rw [Sys.journalsOf, hjournals]
      rfl
    · unfold Database.balancesOf
      simp only [hrows, hamount]
  | @commit tx j htx hbooks hdb _ hl' =>
    have htxOf : s.txOf t = some tx := (Sys.txOf_eq hth).trans htx
    have hjournals : s₁.journalsOf u = s.journalsOf u ++ [j].filter fun j => j.userId = u := by
      rw [Sys.journalsOf, hdb]
      show (s.db.journals ++ tx.journals).filter _ = _
      rw [hbooks.journals, List.filter_append]
      rfl
    by_cases hu : l.req.userId = u
    · rw [List.filter_cons_of_pos (by simp [hbooks.userId, hu]), List.filter_nil] at hjournals
      subst hu
      refine .booked rfl htx hbooks hjournals ?_ (fun e he hne => ?_) hl'
      · rw [hdb]
        exact h.ledger.balancesOf_apply htxOf hbooks
      · exact (h.ledger.balancesOf_of_mem htxOf hbooks he
          ((hbooks.carries.owner he).resolve_left hne)).2
    · rw [List.filter_cons_of_neg (by simp [hbooks.userId, hu]), List.filter_nil,
        List.append_nil] at hjournals
      refine .same hjournals ?_ fun heq => absurd heq hu
      rw [hdb]
      funext c'
      refine h.ledger.balancesOf_of_notMem htxOf hbooks fun hmem => ?_
      obtain ⟨e, he, haccount⟩ := List.mem_map.mp hmem
      have hwallet : e.walletId = .user u := congrArg Account.walletId haccount
      rcases hbooks.carries.owner he with hhouse | howner
      · rw [hwallet] at hhouse
        cases hhouse
      · exact hu (WalletId.user.inj (howner.symm.trans hwallet))

/-- What holds of each element of a list after those before it. -/
def Each {α : Type} (P : List α → α → Prop) (xs : List α) : Prop :=
  ∀ pre x post, xs = pre ++ x :: post → P pre x

lemma each_append_singleton {α : Type} {P : List α → α → Prop} {xs : List α} {x : α} :
    Each P (xs ++ [x]) ↔ Each P xs ∧ P xs x := by
  constructor
  · intro h
    exact ⟨fun pre y post heq => h pre y (post ++ [x]) (by simp [heq]), h xs x [] rfl⟩
  · rintro ⟨h, hlast⟩ pre y post heq
    rcases List.eq_nil_or_concat post with rfl | ⟨post', z, rfl⟩
    · obtain ⟨rfl, heq'⟩ := List.append_inj' heq rfl
      obtain rfl : x = y := by simpa using heq'
      exact hlast
    · have heq' : xs ++ [x] = (pre ++ y :: post') ++ [z] := by simpa using heq
      exact h pre y post' (List.append_inj' heq' rfl).1

/-- The journals of a user are a chain, from no balances at all to the present ones. -/
structure Chained (u : UserId) (s : Sys) : Prop where
  balances : s.db.balancesOf u = purseOf (s.journalsOf u)
  before : Each (fun pre j => ∀ e ∈ j.legs, e.walletId ≠ .house →
    e.balanceBefore = (purseOf pre e.currency).getD 0) (s.journalsOf u)

theorem chained_of_reachable (h : Reachable cfg s) (u : UserId) : Chained u s := by
  refine h.invariant (I := Chained u) ⟨?_, fun pre j post heq => ?_⟩
    fun s e s' hreach hchained _ hstep => ?_
  · funext c
    simp [Sys.initial, Database.migrated, Database.houseRows, Database.balancesOf, Sys.journalsOf,
      purseOf, purse]
  · simp [Sys.initial, Database.migrated, Sys.journalsOf] at heq
  obtain ⟨hbal, hbefore⟩ := hchained
  cases Sys.step_of_eq hstep with
  | @run t choice l c k s₁ r hth hrespond =>
    have hside := (inv_of_reachable hreach).sideStep (u := u) hth (Sys.served_of_eq hrespond)
    cases hside with
    | same hjournals hbalances =>
      constructor
      · show s₁.db.balancesOf u = purseOf (s₁.journalsOf u)
        rw [hbalances, hjournals, hbal]
      · show Each _ (s₁.journalsOf u)
        rw [hjournals]
        exact hbefore
    | booked hu htx hbooks hjournals hbalances hstarts =>
      constructor
      · show s₁.db.balancesOf u = purseOf (s₁.journalsOf u)
        rw [hbalances, hjournals, purseOf_append_singleton, hbal]
      · show Each _ (s₁.journalsOf u)
        rw [hjournals, each_append_singleton]
        exact ⟨hbefore, fun e he hne => by rw [hstarts e he hne, hbal]⟩
  | _ => exact ⟨hbal, hbefore⟩

/-! ## The requests of a user -/

/-- The thread serves a request of the user. -/
def Thread.isOf (u : UserId) (th : Thread) : Bool := th.state.req.userId = u

/-- The requests of a user, in the order in which they were made. -/
def Sys.calls (s : Sys) (u : UserId) : List Thread :=
  (List.range s.seq).filterMap fun t => (s.threads t).filter (Thread.isOf u)

lemma Sys.mem_calls (h : Inv cfg s) :
    th ∈ s.calls u ↔ ∃ t, s.threads t = some th ∧ th.state.req.userId = u := by
  simp only [calls, List.mem_filterMap, List.mem_range, Option.filter_eq_some_iff, Thread.isOf,
    decide_eq_true_eq]
  exact ⟨fun ⟨t, _, hth⟩ => ⟨t, hth⟩, fun ⟨t, hth⟩ => ⟨t, h.lt_seq hth.1, hth⟩⟩

lemma Sys.calls_spawn (s : Sys) (th : Thread) :
    (s.setThread s.seq th).calls u = s.calls u ++ [th].filter (Thread.isOf u) := by
  unfold calls
  show (List.range (s.seq + 1)).filterMap _ = _
  rw [List.range_succ, List.filterMap_append]
  congr 1
  · refine List.filterMap_congr fun t ht => ?_
    rw [Sys.setThread_of_ne (List.mem_range.mp ht).ne]
  · simp only [List.filterMap_cons, List.filterMap_nil, Sys.setThread_self, Option.filter_some]
    cases hof : th.isOf u <;> simp [hof]

/-- The requests of a user when the thread `t` has moved. -/
lemma Sys.calls_setThread (h : Inv cfg s) (hth : s.threads t = some th) (s₁ : Sys)
    (hthreads : s₁.threads = s.threads) (hseq : s₁.seq = s.seq) (th' : Thread) :
    ∃ pre post, s.calls u = pre ++ [th].filter (Thread.isOf u) ++ post ∧
      (s₁.setThread t th').calls u = pre ++ [th'].filter (Thread.isOf u) ++ post := by
  obtain ⟨n, hn⟩ := Nat.exists_eq_add_of_lt (h.lt_seq hth)
  have hfresh : s.threads (t + (n + 1)) = none := by rw [← add_assoc, ← hn]; exact h.fresh _ le_rfl
  let ask (s : Sys) (t : Tid) : Option Thread := (s.threads t).filter (Thread.isOf u)
  have hsplit (s : Sys) (m : ℕ) : (List.range (t + (m + 1))).filterMap (ask s) =
      (List.range t).filterMap (ask s) ++ (ask s t).toList ++
        (List.range m).filterMap fun i => ask s (t + (i + 1)) := by
    rw [List.range_add, List.range_succ_eq_map, List.filterMap_append, List.map_cons,
      List.filterMap_cons, List.append_assoc]
    cases hask : ask s t <;> simp [List.filterMap_map, Function.comp_def]
  have htoList (th : Thread) :
      ((some th).filter (Thread.isOf u)).toList = [th].filter (Thread.isOf u) := by
    cases hof : th.isOf u <;> simp [hof]
  have hask {t' : Tid} (hne : t' ≠ t) : ask (s₁.setThread t th') t' = ask s t' := by
    show ((s₁.setThread t th').threads t').filter _ = _
    rw [Sys.setThread_of_ne hne, hthreads]
  have hne (i : ℕ) : t + (i + 1) ≠ t := (Nat.lt_add_of_pos_right i.succ_pos).ne'
  refine ⟨(List.range t).filterMap (ask s),
    (List.range n).filterMap fun i => ask s (t + (i + 1)), ?_, ?_⟩
  · show (List.range s.seq).filterMap (ask s) = _
    rw [hn, add_assoc, hsplit, show ask s t = (some th).filter _ by rw [← hth], htoList]
  · show (List.range (s₁.seq + 1)).filterMap (ask _) = _
    rw [hseq, hn, show t + n + 1 + 1 = t + (n + 1 + 1) by ring, hsplit, List.range_succ,
      List.filterMap_append, show ask (s₁.setThread t th') t = (some th').filter _ by
        rw [← Sys.setThread_self th'], htoList]
    have hlast : ask (s₁.setThread t th') (t + (n + 1)) = none := by
      rw [hask (hne n)]
      show (s.threads _).filter _ = none
      rw [hfresh]
      rfl
    rw [List.filterMap_congr fun t' ht' => hask (List.mem_range.mp ht').ne,
      List.filterMap_congr fun i _ => hask (hne i)]
    simp [hlast]

/-! ## A session -/

/-- The user makes one request after the other. -/
def Sequential (u : UserId) (s : Sys) : Event → Prop
  | .spawn req => req.userId = u → ∀ t < s.seq, ∀ th ∈ s.threads t, th.isOf u = true →
      th.next.isNone = true
  | _ => True

instance (u : UserId) (s : Sys) : DecidablePred (Sequential u s)
  | .spawn _ => inferInstanceAs (Decidable (_ → ∀ t < s.seq, ∀ th ∈ s.threads t, _))
  | .run _ _ => isTrue trivial
  | .crash _ => isTrue trivial
  | .tick _ => isTrue trivial

/-- The journals that a request has booked. -/
def Thread.journals (th : Thread) : List JournalEntry := th.state.trail.booked.elim [] Tx.journals

/-- What is known of a request that was made after the requests `pre`. -/
structure Follows (pre : List Thread) (th : Thread) : Prop where
  /-- They are over. -/
  idle : ∀ th' ∈ pre, th'.next = none
  /-- It has booked nothing if one of them has succeeded with its key. -/
  fresh : th.state.trail.booked ≠ none → ∀ th' ∈ pre, ∀ r, th'.operation = some r →
    th'.state.req.key ≠ th.state.req.key

/-- The requests of a user who makes one after the other, and what they have booked. -/
structure Session (u : UserId) (s : Sys) : Prop where
  journals : s.journalsOf u = (s.calls u).flatMap Thread.journals
  each : Each Follows (s.calls u)

lemma session_initial : Session u Sys.initial where
  journals := rfl
  each pre th post heq := by simp [Sys.initial, Sys.calls] at heq

/-- The requests of the user when somebody else's thread has moved. -/
lemma Sys.calls_of_other (hinv : Inv cfg s) (hth : s.threads t = some th)
    (hu : th.state.req.userId ≠ u) (s₁ : Sys) (hthreads : s₁.threads = s.threads)
    (hseq : s₁.seq = s.seq) (th' : Thread) (hreq : th'.state.req = th.state.req) :
    (s₁.setThread t th').calls u = s.calls u := by
  obtain ⟨pre, post, hcalls, hcalls'⟩ := Sys.calls_setThread (u := u) hinv hth s₁ hthreads hseq th'
  rw [hcalls', hcalls, List.filter_cons_of_neg (by simp [Thread.isOf, hreq, hu]),
    List.filter_cons_of_neg (by simp [Thread.isOf, hu])]

/-- A thread of the user that has a command to issue is the last one. -/
lemma Session.last (h : Session u s) (hinv : Inv cfg s) {l : Local} {c : Cmd}
    {k : Except Exn c.Ret → Service Response} (hth : s.threads t = some ⟨l, .call c k, true⟩)
    (hu : l.req.userId = u) (s₁ : Sys) (hthreads : s₁.threads = s.threads)
    (hseq : s₁.seq = s.seq) (th' : Thread) (hreq : th'.state.req = l.req) :
    ∃ pre, s.calls u = pre ++ [⟨l, .call c k, true⟩] ∧
      (s₁.setThread t th').calls u = pre ++ [th'] := by
  obtain ⟨pre, post, hcalls, hcalls'⟩ := Sys.calls_setThread (u := u) hinv hth s₁ hthreads hseq th'
  rw [List.filter_cons_of_pos (by simpa [Thread.isOf] using hu), List.filter_nil] at hcalls
  rw [List.filter_cons_of_pos (by simpa [Thread.isOf, hreq] using hu), List.filter_nil] at hcalls'
  cases post with
  | nil => exact ⟨pre, by simpa using hcalls, by simpa using hcalls'⟩
  | cons th₁ post =>
    -- the next request would have been made before this one was over
    have hidle := (h.each (pre ++ [⟨l, .call c k, true⟩]) th₁ post hcalls).idle
      ⟨l, .call c k, true⟩ (by simp)
    cases hidle

/-- The last request has moved and booked nothing. -/
lemma Session.quiet (h : Session u s) {pre : List Thread} (hcalls : s.calls u = pre ++ [th])
    (hcalls' : s'.calls u = pre ++ [th']) (hjournals : s'.journalsOf u = s.journalsOf u)
    (hreq : th'.state.req = th.state.req)
    (hbooked : th'.state.trail.booked = th.state.trail.booked) : Session u s' := by
  have heach := h.each
  rw [hcalls, each_append_singleton] at heach
  obtain ⟨hpre, hidle, hfresh⟩ := heach
  have hsame : th'.journals = th.journals := by rw [Thread.journals, hbooked]; rfl
  constructor
  · rw [hjournals, h.journals, hcalls, hcalls']
    simp only [List.flatMap_append, List.flatMap_singleton, hsame]
  · rw [hcalls', each_append_singleton]
    refine ⟨hpre, hidle, ?_⟩
    rw [hbooked, hreq]
    exact hfresh

/-- The last request has booked a journal. -/
lemma Session.commit (h : Session u s) (hreach : Reachable cfg s) {l : Local} {tx : Tx}
    {j : JournalEntry} {prog : Service Response} (hth : s.threads t = some ⟨l, prog, true⟩)
    (hu : l.req.userId = u) (htx : l.tx = some tx) (hbooks : Books l.req l.trail.hand tx j)
    {pre : List Thread} (hcalls : s.calls u = pre ++ [⟨l, prog, true⟩])
    (hstate : th'.state = l.committed tx) (hcalls' : s'.calls u = pre ++ [th'])
    (hjournals : s'.journalsOf u = s.journalsOf u ++ [j]) : Session u s' := by
  have hinv := inv_of_reachable hreach
  have heach := h.each
  rw [hcalls, each_append_singleton] at heach
  obtain ⟨hpre, hidle, -⟩ := heach
  have hnone : l.trail.booked = none := (history_of_reachable hreach).booked_eq_none hth htx
  have hold : Thread.journals ⟨l, prog, true⟩ = [] := by simp [Thread.journals, hnone]
  have hnew : th'.journals = [j] := by
    rw [Thread.journals, hstate]
    exact hbooks.journals
  constructor
  · rw [hjournals, h.journals, hcalls, hcalls']
    simp only [List.flatMap_append, List.flatMap_singleton, hold, hnew, List.append_nil]
  · rw [hcalls', each_append_singleton]
    refine ⟨hpre, hidle, fun _ th₀ hmem r hr hkey => ?_⟩
    -- the journal of the earlier request would have the key of the new one
    have hcall : th₀ ∈ s.calls u := by simp [hcalls, hmem]
    obtain ⟨t₀, hth₀, hu₀⟩ := (Sys.mem_calls hinv).mp hcall
    obtain ⟨hj, hju, hjk⟩ := journal_of_answer hreach hth₀ (Thread.answer_of_operation hr)
    have hnot := hinv.ledger.userKey_notMem ((Sys.txOf_eq hth).trans htx) hbooks
    refine hnot (List.mem_map.mpr ⟨r.journal, hj, Prod.ext ?_ ?_⟩)
    · show r.journal.userId = j.userId
      rw [hju, hu₀, hbooks.userId, hu]
    · show r.journal.idempotencyKey = j.idempotencyKey
      have hreq : th'.state.req = l.req := by rw [hstate]; rfl
      rw [hjk, hreq, hbooks.key] at hkey
      exact Option.some.inj hkey

lemma Session.step (h : Session u s) (hreach : Reachable cfg s) (hok : Sequential u s e)
    (hstep : s.step cfg e = some s') : Session u s' := by
  have hinv := inv_of_reachable hreach
  cases Sys.step_of_eq hstep with
  | spawn req =>
    have hcalls := Sys.calls_spawn (u := u) s { state := { req }, prog := req.program cfg }
    by_cases hu : req.userId = u
    · rw [List.filter_cons_of_pos (by simp [Thread.isOf, hu]), List.filter_nil] at hcalls
      constructor
      · rw [hcalls, List.flatMap_append, List.flatMap_singleton]
        exact h.journals.trans (List.append_nil _).symm
      · rw [hcalls, each_append_singleton]
        refine ⟨h.each, fun th' hth' => ?_, fun hne => absurd rfl hne⟩
        obtain ⟨t, hth, hu'⟩ := (Sys.mem_calls hinv).mp hth'
        exact Option.isNone_iff_eq_none.mp
          (hok hu t (hinv.lt_seq hth) th' hth (decide_eq_true hu'))
    · rw [List.filter_cons_of_neg (by simp [Thread.isOf, hu]), List.filter_nil,
        List.append_nil] at hcalls
      exact ⟨h.journals.trans (by rw [hcalls]), hcalls ▸ h.each⟩
  | @run t choice l c k s₁ r hth hrespond =>
    have hserved := Sys.served_of_eq hrespond
    obtain ⟨hthreads, hseq, -⟩ := hserved.frame
    by_cases hu : l.req.userId = u
    · obtain ⟨pre, hcalls, hcalls'⟩ := h.last hinv hth hu s₁ hthreads hseq
        ⟨l.after s.seq c r, k r, true⟩ Local.after_req
      cases hinv.sideStep (u := u) hth hserved with
      | same hjournals _ hbooked =>
        exact h.quiet hcalls hcalls' hjournals Local.after_req (hbooked hu)
      | booked _ htx hbooks hjournals _ _ hl' =>
        exact h.commit hreach hth hu htx hbooks hcalls hl' hcalls' hjournals
    · have hcalls := Sys.calls_of_other hinv hth hu s₁ hthreads hseq
        ⟨l.after s.seq c r, k r, true⟩ Local.after_req
      cases hinv.sideStep (u := u) hth hserved with
      | same hjournals =>
        exact ⟨hjournals.trans (h.journals.trans (by rw [hcalls])), hcalls ▸ h.each⟩
      | booked hu' => exact absurd hu' hu
  | @crash t l c k hth =>
    by_cases hu : l.req.userId = u
    · obtain ⟨pre, hcalls, hcalls'⟩ := h.last hinv hth hu { s with locks := s.locks.releaseAll t }
        rfl rfl ⟨{ l with tx := none }, .call c k, false⟩ rfl
      exact h.quiet hcalls hcalls' rfl rfl rfl
    · have hcalls := Sys.calls_of_other hinv hth hu { s with locks := s.locks.releaseAll t } rfl rfl
        ⟨{ l with tx := none }, .call c k, false⟩ rfl
      exact ⟨h.journals.trans (by rw [hcalls]), hcalls ▸ h.each⟩
  | tick ms => exact ⟨h.journals, h.each⟩

theorem session_of_runs (h : Runs cfg (Sequential u) Sys.initial s) : Session u s :=
  h.invariant session_initial fun _ _ _ hrun hsession hok hstep =>
    hsession.step (reachable_of_runs hrun) hok hstep

end FxExchange
