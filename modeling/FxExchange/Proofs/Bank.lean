import FxExchange.Lib.Clearing
import FxExchange.Proofs.Exactness

/-
# The bank

What the service is for, without its rows, locks and threads: a bank that holds an amount for
each account and carries out one instruction at a time, all of it or nothing, and for each user
and key at most one.  The running system refines this bank: seen from it, a step is nothing at
all, or it carries out the instruction of the call that takes the step.
-/

namespace FxExchange

open Clearing DoubleEntry Transition

/-! ## The bank -/

/-- Transfers that a user has asked for under a key. -/
structure Instruction where
  userId : UserId
  key : String
  transfers : List (Transfer Account)
  deriving DecidableEq

/-- A bank that does one instruction at a time: what it holds, and what it has done. -/
structure Bank where
  holdings : Account → ℤ
  /-- The instructions that it has carried out, in order. -/
  done : List Instruction

namespace Bank

/-- Why the bank does not carry out an instruction. -/
inductive Refusal
  /-- The account cannot cover what is to be paid from it. -/
  | short (a : Account)
  | duplicate
  deriving DecidableEq

/-- The bank before its first instruction. -/
def opening : Bank where
  holdings := Database.opening
  done := []

/-- Carry out one instruction. -/
def book (b : Bank) (i : Instruction) : Except Refusal Bank :=
  match clear b.holdings i.transfers with
  | .error a => .error (.short a)
  | .ok holdings =>
    if (i.userId, i.key) ∈ b.done.map fun i => (i.userId, i.key) then .error .duplicate
    else .ok { holdings, done := b.done ++ [i] }

/-- Carry out instructions one after the other. -/
def bookAll (b : Bank) (is : List Instruction) : Except Refusal Bank := is.foldlM book b

lemma bookAll_append {b b' b'' : Bank} {is : List Instruction} {i : Instruction}
    (h : b.bookAll is = .ok b') (hlast : b'.book i = .ok b'') :
    b.bookAll (is ++ [i]) = .ok b'' := by
  have hsplit : b.bookAll (is ++ [i]) = (b.bookAll is >>= fun b' => b'.bookAll [i]) :=
    List.foldlM_append
  rw [hsplit, h]
  show b'.bookAll [i] = .ok b''
  rw [bookAll, List.foldlM_cons, hlast]
  rfl

end Bank

/-! ## What requests ask of it -/

/-- The user pays the house in one currency, and the house the user in another one. -/
def exchange (u : UserId) (f t : Currency) (amountIn amountOut : ℤ) : List (Transfer Account) :=
  [⟨⟨.user u, f⟩, ⟨.house, f⟩, amountIn⟩, ⟨⟨.house, t⟩, ⟨.user u, t⟩, amountOut⟩]

/-- The transfers that a request asks for, at its rates or by its quote. -/
def Request.transfers (req : Request) (hand : Option Quote) (rates : Option VersionedRates) :
    Option (List (Transfer Account)) :=
  match req with
  | .fundWallet u currency (.integer a) _ =>
    (supportedCurrency currency).map fun c => [⟨⟨.house, c⟩, ⟨.user u, c⟩, a⟩]
  | .convertFunds u from_ to_ (.integer a) _ _ =>
    (supportedCurrency from_).bind fun f => (supportedCurrency to_).bind fun t =>
      (rates.bind fun rates => rates.exactConversion f t a).map fun out => exchange u f t a out
  | .executeTrade u _ _ => hand.map fun quote =>
      exchange u quote.fromCurrency quote.toCurrency quote.amountInSubunits
        quote.amountOutSubunits
  | _ => none

/-- What a call asks for, by what it has come across. -/
def Local.instruction (l : Local) : Option Instruction :=
  l.req.key.bind fun key => (l.req.transfers l.trail.hand l.trail.rates).map fun transfers =>
    { userId := l.req.userId, key, transfers }

/-! ## The books as a bank -/

/-- The account of a side of a transfer. -/
abbrev Side.account (x : Side) : Account := ⟨x.walletId, x.currency⟩

/-- Each debit pays for the credit of the same place. -/
def transfersOf (sides : List Side) : List (Transfer Account) :=
  ((sides.filter fun x => x.type = .debit).zip (sides.filter fun x => x.type = .credit)).map
    fun p => { payer := p.1.account, payee := p.2.account, amount := p.1.amount }

/-- The instruction that a journal is the record of. -/
def JournalEntry.instruction (j : JournalEntry) : Instruction where
  userId := j.userId
  key := j.idempotencyKey
  transfers := transfersOf (j.legs.map LedgerEntryInput.side)

/-- What the committed database amounts to. -/
def Database.bank (db : Database) : Bank where
  holdings := db.amount
  done := db.journals.map JournalEntry.instruction

/-! ## What is committed is what is asked for -/

section Instructions

variable {req : Request} {hand : Option Quote} {rates : Option VersionedRates} {sides : List Side}
  {u : UserId} {c f t : Currency} {a out : ℤ} {x : Transfer Account}

lemma transfersOf_fundSides :
    transfersOf (fundSides u c a) = [⟨⟨.house, c⟩, ⟨.user u, c⟩, a⟩] := rfl

lemma transfersOf_exchangeSides :
    transfersOf (exchangeSides u f t a out) = exchange u f t a out := rfl

/-- The transfers of a request are those of its sides. -/
lemma transfers_eq_exactSides :
    req.transfers hand rates = (req.exactSides hand rates).map transfersOf := by
  cases req with
  | fundWallet u currency amount key =>
    cases amount with
    | notInteger => rfl
    | integer a =>
      simp only [Request.transfers, Request.exactSides, Option.map_map]
      rfl
  | convertFunds u from_ to_ amount key context =>
    cases amount with
    | notInteger => rfl
    | integer a =>
      simp only [Request.transfers, Request.exactSides, Option.map_bind]
      simp only [Function.comp_def, Option.map_bind, Option.map_map]
      rfl
  | executeTrade u q key =>
    simp only [Request.transfers, Request.exactSides, Option.map_map]
    rfl
  | _ => rfl

lemma exchange_apart (hne : f ≠ t) : Apart (exchange u f t a out) := by
  simp [Apart, exchange, hne.symm]

/-- A transfer of sides is paid from the account of one of their debits. -/
lemma exists_debit (h : x ∈ transfersOf sides) :
    ∃ d ∈ sides, d.type = .debit ∧ x.payer = d.account ∧ x.amount = d.amount := by
  obtain ⟨⟨d, c⟩, hp, rfl⟩ := List.mem_map.mp h
  obtain ⟨hmem, htype⟩ := List.mem_filter.mp (List.of_mem_zip hp).1
  exact ⟨d, hmem, of_decide_eq_true htype, rfl, rfl⟩

/-! ## What a commit does -/

/-- What a side changes about an account. -/
def Side.flow (b : Account) (x : Side) : ℤ :=
  match x.type with
  | .credit => if b = x.account then x.amount else 0
  | .debit => -if b = x.account then x.amount else 0

/-- The sides are those of one of the two movements. -/
lemma Books.movement {tx : Tx} {j : JournalEntry} (h : Books req hand tx j) :
    (∃ u c a, j.legs.map LedgerEntryInput.side = fundSides u c a) ∨
      ∃ u f t a out, f ≠ t ∧ j.legs.map LedgerEntryInput.side = exchangeSides u f t a out := by
  have hdistinct {u : UserId} {f t : Currency} {a out : ℤ}
      (hsides : j.legs.map LedgerEntryInput.side = exchangeSides u f t a out) : f ≠ t := by
    have hnodup := h.nodup
    have haccounts : j.legs.map LedgerEntryInput.account =
        (j.legs.map LedgerEntryInput.side).map Side.account := by
      rw [List.map_map]
      rfl
    rw [haccounts, hsides] at hnodup
    rintro rfl
    simp [exchangeSides, Side.account] at hnodup
  have hcarries := h.carries
  cases req with
  | fundWallet u currency amount key =>
    obtain ⟨c, a, -, -, -, hsides⟩ := hcarries
    exact .inl ⟨u, c, a, hsides⟩
  | convertFunds u from_ to_ amount key context =>
    obtain ⟨f, t, a, out, -, -, -, -, -, hsides⟩ := hcarries
    exact .inr ⟨u, f, t, a, out, hdistinct hsides, hsides⟩
  | executeTrade u q key =>
    obtain ⟨quote, -, -, -, -, hsides⟩ := hcarries
    exact .inr ⟨u, _, _, _, _, hdistinct hsides, hsides⟩
  | _ => exact hcarries.elim

/-- What the legs of a journal change about an account. -/
lemma net_eq_sides (b : Account) (legs : List LedgerEntryInput) :
    net b (legs.map LedgerEntryInput.leg) =
      ((legs.map LedgerEntryInput.side).map (Side.flow b)).sum := by
  have hflow (e : LedgerEntryInput) :
      (if e.leg.account = b then e.leg.delta else 0) = e.side.flow b := by
    obtain ⟨w, u, type, c, a, before, after⟩ := e
    show (if (⟨w, c⟩ : Account) = b then _ else 0) = _
    cases type with
    | credit =>
      show _ = if b = ⟨w, c⟩ then a else 0
      simp only [eq_comm (a := b)]
      rfl
    | debit =>
      show _ = -if b = ⟨w, c⟩ then a else 0
      by_cases h : (⟨w, c⟩ : Account) = b
      · rw [if_pos h, if_pos h.symm]
        rfl
      · rw [if_neg h, if_neg fun h' => h h'.symm, neg_zero]
  induction legs with
  | nil => rfl
  | cons e legs ih =>
    rw [List.map_cons, net_cons, ih, hflow, List.map_cons, List.map_cons, List.sum_cons]

/-- Transfers change about an account what their sides do. -/
lemma sum_flow_transfersOf {tx : Tx} {j : JournalEntry} (h : Books req hand tx j) (b : Account) :
    ((transfersOf (j.legs.map LedgerEntryInput.side)).map (Transfer.flow b)).sum =
      net b (j.legs.map LedgerEntryInput.leg) := by
  rw [net_eq_sides]
  rcases h.movement with ⟨u, c, a, hsides⟩ | ⟨u, f, t, a, out, -, hsides⟩
  · rw [hsides, transfersOf_fundSides]
    simp only [fundSides, Transfer.flow, Side.flow, Side.account, List.map_cons, List.map_nil,
      List.sum_cons, List.sum_nil]
    ring
  · rw [hsides, transfersOf_exchangeSides]
    simp only [exchangeSides, exchange, Transfer.flow, Side.flow, Side.account, List.map_cons,
      List.map_nil, List.sum_cons, List.sum_nil]
    ring

/-- A journal is cleared by the balances that it is posted to. -/
lemma clear_of_books {cfg : Config} {s : Sys} {tid : Tid} {tx : Tx} {j : JournalEntry}
    (h : Inv cfg s) (htx : s.txOf tid = some tx) (hbooks : Books req hand tx j) :
    clear s.db.amount (transfersOf (j.legs.map LedgerEntryInput.side)) =
      .ok (s.db.apply tx).amount := by
  have hfits := h.ledger.fits htx hbooks
  have hapart : Apart (transfersOf (j.legs.map LedgerEntryInput.side)) := by
    rcases hbooks.movement with ⟨u, c, a, hsides⟩ | ⟨u, f, t, a, out, hne, hsides⟩
    · rw [hsides, transfersOf_fundSides]
      exact List.pairwise_singleton _ _
    · rw [hsides]
      exact exchange_apart hne
  have hcovered : ∀ x ∈ transfersOf (j.legs.map LedgerEntryInput.side),
      x.amount ≤ s.db.amount x.payer := by
    intro x hx
    obtain ⟨d, hd, htype, hpayer, hamount⟩ := exists_debit hx
    obtain ⟨e, he, rfl⟩ := List.mem_map.mp hd
    have hbefore := hfits.before_eq _ (List.mem_map_of_mem he)
    have hsound := hbooks.sound e he
    have hnonneg := hsound.after_nonneg
    have hdelta : e.delta = -e.amount := by
      rw [LedgerEntryInput.delta, show e.type = .debit from htype]
    rw [hsound.after_eq, hdelta] at hnonneg
    rw [hpayer, hamount]
    show e.amount ≤ s.db.amount e.account
    rw [← show e.balanceBefore = s.db.amount e.account from hbefore]
    omega
  obtain ⟨bal, hbal⟩ := clear_of_covered hapart hcovered
  rw [hbal]
  congr 1
  funext b
  rw [apply_of_clear hbal, sum_flow_transfersOf hbooks, h.ledger.apply_amount htx hbooks,
    post_apply hfits]

end Instructions

/-! ## The running system -/

variable {cfg : Config} {s s' : Sys} {e : Event} {t : Tid}

/-- What a call has committed is the instruction that it asks for. -/
lemma instruction_of_books (h : Reachable cfg s) {th : Thread} (hth : s.threads t = some th)
    {tx : Tx} {j : JournalEntry} (hbooked : th.state.trail.booked = some tx)
    (hbooks : Books th.state.req th.state.trail.hand tx j)
    (hbounds : ∀ e ∈ j.legs, ∀ n ∈ e.numbers, 0 ≤ n ∧ n ≤ seed) :
    th.state.instruction = some j.instruction := by
  have hsides := exactSides_of_books h hth hbooked hbooks hbounds
  simp [Local.instruction, hbooks.key, transfers_eq_exactSides, hsides, JournalEntry.instruction,
    hbooks.userId]

/-- An instruction under a new key that is cleared is carried out. -/
lemma Bank.book_of_clear {b : Bank} {i : Instruction} {holdings : Account → ℤ}
    (hclear : clear b.holdings i.transfers = .ok holdings)
    (hnew : (i.userId, i.key) ∉ b.done.map fun i => (i.userId, i.key)) :
    b.book i = .ok { holdings, done := b.done ++ [i] } := by
  simp only [book, hclear, if_neg hnew]

/-- A step of a thread that carries out the instruction of its call. -/
structure CarriesOut (s : Sys) (t : Tid) (tx : Tx) (j : JournalEntry) (s' : Sys) : Prop where
  commits : s'.commits = s.commits ++ [(t, tx)]
  journals : tx.journals = [j]
  instruction : ∃ th, s.threads t = some th ∧ th.state.instruction = some j.instruction
  book : s.db.bank.book j.instruction = .ok s'.db.bank

/-- Seen from the bank, a step is nothing at all, or it carries out the instruction of the call
that takes it. -/
theorem bank_step (h : Reachable cfg s) (hstep : s.step cfg e = some s') :
    (s'.db.bank = s.db.bank ∧ s'.commits = s.commits) ∨
      ∃ t choice tx j, e = .run t choice ∧ CarriesOut s t tx j s' := by
  have hinv := inv_of_reachable h
  have hreach : Reachable cfg s' := h.tail trivial hstep
  cases Sys.step_of_eq hstep with
  | spawn req => exact .inl ⟨rfl, rfl⟩
  | crash hth => exact .inl ⟨rfl, rfl⟩
  | tick ms => exact .inl ⟨rfl, rfl⟩
  | @run t choice l c k s₁ r hth hrespond =>
    cases hinv.booking hth (Sys.served_of_eq hrespond) with
    | none hrows hamount hjournals hcommits =>
      refine .inl ⟨?_, hcommits⟩
      show (⟨s₁.db.amount, s₁.db.journals.map JournalEntry.instruction⟩ : Bank) = _
      rw [hamount, hjournals]
      rfl
    | @commit tx j htx hbooks hdb hcommits hl' =>
      refine .inr ⟨t, choice, tx, j, rfl, hcommits, hbooks.journals, ⟨_, hth, ?_⟩, ?_⟩
      · have hputs : PutsIn _ j s (s₁.setThread t ⟨l.after s.seq c r, k r, true⟩) :=
          putsIn_of_books hinv ((Sys.txOf_eq hth).trans htx) hbooks hdb
        have hbounds (e) (he : e ∈ j.legs) := hputs.bounds h hreach hbooks.sound he
        have hcommitted : (s₁.setThread t ⟨l.after s.seq c r, k r, true⟩).threads t =
            some ⟨l.committed tx, k r, true⟩ := by
          rw [Sys.setThread_self, hl']
        exact instruction_of_books hreach hcommitted rfl hbooks hbounds
      · have hclear := clear_of_books hinv ((Sys.txOf_eq hth).trans htx) hbooks
        have hunique := (inv_of_reachable hreach).ledger.sheet.unique
        have hjournals : s₁.db.journals = s.db.journals ++ [j] := by
          rw [hdb, Database.apply, hbooks.journals]
        have hbook := Bank.book_of_clear (b := s.db.bank) (i := j.instruction) hclear ?_
        · rw [hbook]
          show _ = Except.ok (⟨s₁.db.amount, s₁.db.journals.map JournalEntry.instruction⟩ : Bank)
          rw [hjournals, hdb, List.map_append]
          rfl
        · change (s₁.db.journals.map JournalEntry.userKey).Nodup at hunique
          rw [hjournals, List.map_append] at hunique
          show j.userKey ∉ (s.db.journals.map JournalEntry.instruction).map _
          rw [List.map_map]
          intro hmem
          exact (List.nodup_append.mp hunique).2.2 _ hmem _ (List.mem_singleton_self _) rfl

/-- The bank, led through the committed instructions, comes to the committed balances. -/
lemma bookAll_of_reachable (h : Reachable cfg s) :
    Bank.opening.bookAll s.db.bank.done = .ok s.db.bank := by
  refine h.invariant (I := fun s => Bank.opening.bookAll s.db.bank.done = .ok s.db.bank) rfl
    fun s e s' hreach hI _ hstep => ?_
  rcases bank_step hreach hstep with ⟨hsame, -⟩ | ⟨t, choice, tx, j, -, hcarries⟩
  · rw [hsame]
    exact hI
  · have hbook := hcarries.book
    have hdone : s'.db.bank.done = s.db.bank.done ++ [j.instruction] := by
      unfold Bank.book at hbook
      split at hbook
      · cases hbook
      · split at hbook
        · cases hbook
        · rw [← Except.ok.inj hbook]
    rw [hdone]
    exact Bank.bookAll_append hI hbook

/-- The calls that have committed, each with its instruction, in the order of the commits. -/
def Sys.instructions (s : Sys) : List (Tid × Instruction) :=
  s.commits.flatMap fun c => c.2.journals.map fun j => (c.1, j.instruction)

/-- The running system is serializable: it has come to what the bank comes to when it carries
out, one after the other, the instructions of certain calls, each at most once.  These are
calls that ask for them, all calls that have succeeded anew are among them, and none that has
failed is. -/
theorem serializable (h : Reachable cfg s) :
    ∃ calls : List (Tid × Instruction),
      Bank.opening.bookAll (calls.map Prod.snd) = .ok s.db.bank ∧ (calls.map Prod.fst).Nodup ∧
      (∀ c ∈ calls, ∃ th, s.threads c.1 = some th ∧ th.state.instruction = some c.2) ∧
      ∀ t th, s.threads t = some th →
        (∀ r, th.operation = some r → ¬ th.Replays r → (t, r.journal.instruction) ∈ calls) ∧
        (th.failure.isSome → t ∉ calls.map Prod.fst) := by
  have hhist := history_of_reachable h
  refine ⟨s.instructions, ?_, ?_, ?_,
    fun t th hth => ⟨fun r hr hreplay => ?_, fun hfailure hmem => ?_⟩⟩
  · have hdone : s.instructions.map Prod.snd = s.db.bank.done := by
      show _ = s.db.journals.map _
      rw [hhist.journals, Sys.instructions, List.map_flatMap, List.map_flatMap]
      simp only [List.map_map]
      rfl
    rw [hdone]
    exact bookAll_of_reachable h
  · have hfst : s.instructions.map Prod.fst = s.commits.map Prod.fst := by
      have hone : ∀ c ∈ s.commits, c.2.journals.length = 1 := by
        intro c hc
        obtain ⟨_, j, -, -, hbooks⟩ := hhist.booked c hc
        rw [hbooks.journals, List.length_singleton]
      rw [Sys.instructions, List.map_flatMap, List.map_eq_flatMap]
      refine List.flatMap_congr fun c hc => ?_
      obtain ⟨j, hj⟩ := List.length_eq_one_iff.mp (hone c hc)
      rw [hj]
      rfl
    rw [hfst]
    exact hhist.nodup
  · rintro ⟨t, i⟩ hc
    obtain ⟨c, hcommit, hmem⟩ := List.mem_flatMap.mp hc
    obtain ⟨j, hj, heq⟩ := List.mem_map.mp hmem
    obtain ⟨rfl, rfl⟩ := Prod.mk.inj heq
    obtain ⟨th, j', hth, hbooked, hbooks⟩ := hhist.booked c hcommit
    obtain rfl : j = j' := by simpa [hbooks.journals] using hj
    obtain ⟨s₀, s₁, ⟨hreach, ⟨choice, hstep⟩, -⟩, -, hputs⟩ :=
      exists_putsIn h hth hcommit hbooks.journals
    exact ⟨th, hth, instruction_of_books h hth hbooked hbooks fun e he =>
      hputs.bounds hreach (hreach.tail trivial hstep) hbooks.sound he⟩
  · obtain ⟨tx, hcommit, -, hjournals⟩ := committed_of_success h hth hr hreplay
    exact List.mem_flatMap.mpr ⟨_, hcommit, by simp [hjournals]⟩
  · -- who has failed has booked nothing
    obtain ⟨⟨t', i⟩, hc, rfl⟩ := List.mem_map.mp hmem
    obtain ⟨c, hcommit, hj⟩ := List.mem_flatMap.mp hc
    obtain ⟨j, -, heq⟩ := List.mem_map.mp hj
    obtain rfl : c.1 = t' := (Prod.mk.inj heq).1
    obtain ⟨th', -, hth', hbooked, -⟩ := hhist.booked c hcommit
    obtain rfl := Option.some.inj (hth.symm.trans hth')
    obtain ⟨e, he⟩ := Option.isSome_iff_exists.mp hfailure
    obtain ⟨-, hnone, -⟩ := (inv_of_reachable h).answer hth (Thread.answer_of_failure he)
    rw [hnone] at hbooked
    cases hbooked

/-- The funding and the trade of a user, carried out by the bank. -/
theorem serializable_traded : ∃ s, Reachable {} s ∧ s.db.journals.length = 2 ∧
    ∃ calls : List (Tid × Instruction),
      Bank.opening.bookAll (calls.map Prod.snd) = .ok s.db.bank ∧ (calls.map Prod.fst).Nodup ∧
      ∀ t th, s.threads t = some th →
        ∀ r, th.operation = some r → ¬ th.Replays r → (t, r.journal.instruction) ∈ calls := by
  have hplay : (runAll (Sys.step {}) anyStep Sys.initial tradeRun).any
      (fun s => s.db.journals.length = 2) = true := by decide +kernel
  obtain ⟨s, hrun, hs⟩ := exists_of_runAll hplay
  obtain ⟨calls, hbank, hnodup, -, hcalls⟩ := serializable hrun
  exact ⟨s, hrun, of_decide_eq_true hs, calls, hbank, hnodup, fun t th hth =>
    (hcalls t th hth).1⟩

end FxExchange
