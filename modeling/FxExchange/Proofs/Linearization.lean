import FxExchange.Proofs.Causes
import FxExchange.Proofs.Columns

/-
# What a call answers was so

Every call answers as the bank does at one moment between the call and its answer.  A success
is one step of the bank, taken in that time; a replay has found its journal there; and a failure
has a cause, which is a refusal of the bank at one of these moments, or something that has come
in between.
-/

namespace FxExchange

open Service Transition

variable {cfg : Config} {s s₀ s₁ s₂ s₃ : Sys} {t : Tid} {e : Event} {es : List Event}
  {req : Request} {l : Local} {th : Thread} {w : Evidence}

/-! ## The evidence of a run -/

/-- A command of the call, whose failure it does not catch, fails. -/
def Sys.Hindered (s : Sys) (t : Tid) (e : Event) : Prop :=
  ∃ l c k choice s₁ x, e = .run t choice ∧ s.threads t = some ⟨l, .call c k, true⟩ ∧
    c.tried = false ∧ s.respond t l.tx c choice = some (s₁, .error x)

/-- What was so during the events, for a call. -/
def evidence (cfg : Config) (s : Sys) (es : List Event) (t : Tid) : Evidence where
  seen P := Passes (Sys.step cfg) anyStep s es P
  hindered := Takes (Sys.step cfg) anyStep s es fun s₁ e _ => s₁.Hindered t e
  mono hPQ h := h.mono hPQ

/-- A row that can be locked shows what the database holds, as do the rows that are locked. -/
lemma Ledger.bears {db : Database} {locks locks' : Locks} {txs : Tid → Option Tx} {seq : ℕ}
    {tx : Tx} {a : Account} {found : Option ℤ} (h : Ledger db locks txs)
    (htx : txs t = some tx) (hmay : MayLock l tx a)
    (hexec : FxExchange.execTx db locks t seq tx (.selectForUpdate a) = some (locks', .ok found)) :
    (a.walletId = .house → found.isSome) ∧ db.amount a = found.getD 0 ∧
      ∀ k ∈ tx.locks, db.amount k.account = k.amount := by
  have hlocks : ∀ k ∈ tx.locks, db.amount k.account = k.amount := by
    intro k hk
    have hcurrent := h.current t tx htx k hk
    unfold RowLock.Current at hcurrent
    split at hcurrent
    · rw [h.sheet.absent _ hcurrent.1, hcurrent.2]
    · exact hcurrent.2.symm
  simp only [FxExchange.execTx] at hexec
  split at hexec
  · rename_i ha
    split at hexec
    · cases hexec
    · obtain ⟨-, rfl⟩ : _ ∧ some (tx.view db a) = found := by simpa using hexec
      rw [h.view_eq htx hmay.updates ha]
      exact ⟨fun _ => rfl, rfl, hlocks⟩
  · rename_i ha
    split at hexec
    · exact absurd ‹_› (Tx.notMem_created hmay.notMem)
    · obtain ⟨-, rfl⟩ : _ ∧ none = found := by simpa using hexec
      refine ⟨fun hhouse => absurd ?_ ha, h.sheet.absent a ha, hlocks⟩
      obtain ⟨walletId, c⟩ := a
      obtain rfl : walletId = .house := hhouse
      exact h.sheet.house c

/-- A command that fails is a technical failure. -/
lemma technical_of_respond (h : Reachable cfg s) {c : Cmd}
    {k : Except Exn c.Ret → Service Response} {choice : Choice} {x : Exn}
    (hth : s.threads t = some ⟨l, .call c k, true⟩)
    (hrespond : s.respond t l.tx c choice = some (s₁, .error x)) : x.technical = true := by
  cases choice with
  | ok =>
    rcases Sys.exec_error ((inv_of_reachable h).guard hth) (rowGuard_of_reachable h hth) hrespond
      with ⟨rfl, -⟩ | ⟨rfl, -⟩ | ⟨rfl, -⟩
    · rfl
    · rfl
    · rfl
  | fail =>
    obtain ⟨s', -, heq⟩ := Option.map_eq_some_iff.mp hrespond
    obtain rfl := Except.error.inj (Prod.mk.inj heq).2
    rfl
  | rates r =>
    cases c with
    | getRates => cases hrespond
    | _ => cases hrespond

/-- What a command is answered is borne out by the state in which it is answered. -/
lemma bears_of_respond (h : Reachable cfg s) {c : Cmd}
    {k : Except Exn c.Ret → Service Response} {choice : Choice} {r : Except Exn c.Ret}
    (hth : s.threads t = some ⟨l, .call c k, true⟩)
    (hrespond : s.respond t l.tx c choice = some (s₁, r)) (hseen : ∀ P, P s → w.seen P)
    (hhindered : ∀ x, r = .error x → c.tried = false → w.hindered) : w.Bears l c r := by
  have hinv := inv_of_reachable h
  cases r with
  | error x =>
    have htechnical := technical_of_respond h hth hrespond
    have hbears : c.tried = true ∨ (w.hindered ∧ x.technical = true) := by
      cases htried : c.tried with
      | true => exact .inl rfl
      | false => exact .inr ⟨hhindered x rfl htried, htechnical⟩
    cases c with
    | tx c => cases c <;> exact hbears
    | redis c => cases c <;> exact hbears
    | _ => exact hbears
  | ok a =>
    have hserved := Sys.served_of_eq hrespond
    cases c with
    | tx c =>
      cases c with
      | selectForUpdate b =>
        obtain ⟨tx, htx, -, hmay⟩ := hinv.guard hth
        cases hserved with
        | statement htx' hexec =>
          obtain rfl := Option.some.inj (htx.symm.trans htx')
          obtain ⟨hhouse, hread⟩ := hinv.ledger.bears ((Sys.txOf_eq hth).trans htx) hmay hexec
          refine ⟨hhouse, fun tx' htx' => hseen _ ?_⟩
          obtain rfl := Option.some.inj (htx.symm.trans htx')
          exact hread
      | _ => trivial
    | redis c =>
      cases c with
      | getdel q =>
        cases hserved with
        | redis hexec =>
          obtain ⟨-, hfound⟩ := Prod.mk.inj (Option.some.inj hexec)
          exact hseen _ (Except.ok.inj hfound)
      | get q =>
        cases hserved with
        | redis hexec =>
          obtain ⟨-, hfound⟩ := Prod.mk.inj (Option.some.inj hexec)
          exact hseen _ (Except.ok.inj hfound)
      | _ => trivial
    | _ => trivial

/-! ## The time of a call -/

/-- A call: the system has come to `s₀`, the request arrives there, and the events lead to a
state in which its thread is `th`. -/
structure Span (cfg : Config) (s₀ : Sys) (req : Request) (s₁ : Sys) (es : List Event) (s : Sys)
    (th : Thread) : Prop where
  reachable : Reachable cfg s₀
  spawn : s₀.step cfg (.spawn req) = some s₁
  run : runAll (Sys.step cfg) anyStep s₁ es = some s
  thread : s.threads s₀.seq = some th

namespace Span

lemma spawned (h : Span cfg s₀ req s₁ es s th) :
    s₁ = s₀.setThread s₀.seq { state := { req }, prog := req.program cfg } :=
  (Option.some.inj h.spawn).symm

/-- Every state in the time of the call is reachable. -/
lemma reachable_of_runAll (h : Span cfg s₀ req s₁ es s th) {es₁ : List Event}
    (hrun : runAll (Sys.step cfg) anyStep s₁ es₁ = some s₂) : Reachable cfg s₂ :=
  (h.reachable.tail trivial h.spawn).trans (runs_of_runAll hrun)

/-- What holds of the call and what it has to do, and is kept by each of its commands in its
place, holds of it in the end. -/
lemma induct (h : Span cfg s₀ req s₁ es s th) {P : Local → Service Response → Prop}
    (hnew : P { req } (req.program cfg))
    (hrun : ∀ es₁ choice es₂ s₂ s₃ l c k, ∀ r : Except Exn c.Ret,
      es = es₁ ++ .run s₀.seq choice :: es₂ →
      runAll (Sys.step cfg) anyStep s₁ es₁ = some s₂ → Reachable cfg s₂ →
      s₂.threads s₀.seq = some ⟨l, .call c k, true⟩ →
      s₂.respond s₀.seq l.tx c choice = some (s₃, r) → P l (.call c k) →
      P (l.after s₂.seq c r) (k r)) (halive : th.alive = true) : P th.state th.prog := by
  have hkeep := invariant_of_runAll (I := fun s => s₀.seq < s.seq ∧
    ∀ th, s.threads s₀.seq = some th → th.alive = true → P th.state th.prog) h.run
  refine (hkeep ?_ fun es₁ e es₂ s₂ s₃ hes hrun₁ hP hstep => ?_).2 th h.thread halive
  · rw [h.spawned]
    refine ⟨Nat.lt_succ_self _, fun th' hth' _ => ?_⟩
    rw [Sys.setThread_self] at hth'
    obtain rfl := Option.some.inj hth'
    exact hnew
  · obtain ⟨hlt, hP⟩ := hP
    cases Sys.step_of_eq hstep with
    | spawn req' =>
      refine ⟨hlt.trans (Nat.lt_succ_self _), fun th' hth' => hP th' ?_⟩
      rwa [Sys.setThread_of_ne hlt.ne] at hth'
    | @run t choice l c k s₂' r hth hrespond =>
      obtain ⟨hthreads, hseq, -⟩ := (Sys.served_of_eq hrespond).frame
      refine ⟨hlt.trans (by rw [← hseq]; exact Nat.lt_succ_self _), fun th' hth' halive' => ?_⟩
      rcases Sys.of_setThread hth' with ⟨rfl, rfl⟩ | ⟨-, hold⟩
      · exact hrun es₁ choice es₂ s₂ s₂' l c k r hes hrun₁ (h.reachable_of_runAll hrun₁) hth
          hrespond (hP _ hth rfl)
      · exact hP th' (hthreads ▸ hold) halive'
    | @crash t l c k hth =>
      refine ⟨hlt.trans (Nat.lt_succ_self _), fun th' hth' halive' => ?_⟩
      rcases Sys.of_setThread hth' with ⟨-, rfl⟩ | ⟨-, hold⟩
      · cases halive'
      · exact hP th' hold halive'
    | tick ms => exact ⟨hlt, hP⟩

lemma alive_of_answer {a : Except Exn Response} (ha : th.answer = some a) : th.alive = true := by
  unfold Thread.answer at ha
  split at ha
  · assumption
  · assumption
  · cases ha

/-- What the call fails with has a cause, by all that was so in its time. -/
lemma cause (h : Span cfg s₀ req s₁ es s th) (hkey : req.key.isSome) {x : Exn}
    (hx : th.failure = some x)
    (hseen : ∀ es₁ es₂ s₂ P, es = es₁ ++ es₂ → runAll (Sys.step cfg) anyStep s₁ es₁ = some s₂ →
      P s₂ → w.seen P)
    (hhindered : ∀ es₁ e es₂ s₂ s₃, es = es₁ ++ e :: es₂ →
      runAll (Sys.step cfg) anyStep s₁ es₁ = some s₂ → s₂.step cfg e = some s₃ →
      s₂.Hindered s₀.seq e → w.hindered) :
    Cause w req th.state.trail.hand th.state.trail.rates x := by
  have hanswer := Thread.answer_of_failure hx
  have hends := h.induct (P := fun l p => l.req = req ∧ p.wp (accounting w) (Ends w) l)
    ⟨rfl, wp_program_ends w req hkey⟩ ?_ (alive_of_answer hanswer)
  · have hfailed := Thread.of_answer hends.2 hanswer x rfl
    rw [Local.Failed, hends.1] at hfailed
    exact hfailed
  · intro es₁ choice es₂ s₂ s₃ l c k r hes hrun hreach hth hrespond hP
    have hinv := inv_of_reachable hreach
    have hreply := hinv.reply_served (Sys.txOf_eq hth) (hinv.guard hth)
      (Sys.served_of_eq hrespond)
    refine ⟨Local.after_req.trans hP.1, hP.2.2 r _ ⟨⟨s₂.seq, rfl⟩, hreply, ?_⟩⟩
    refine bears_of_respond hreach hth hrespond (fun P => hseen es₁ _ s₂ P hes hrun)
      fun x hx htried => ?_
    subst hx
    exact hhindered es₁ _ es₂ s₂ _ hes hrun (Sys.step_respond hth hrespond)
      ⟨l, c, k, choice, s₃, x, rfl, hth, htried, hrespond⟩

/-- What the look-up of its key has found was there at a moment in its time. -/
lemma found (h : Span cfg s₀ req s₁ es s th) {j : JournalEntry}
    (hfound : th.state.trail.found = some j) (halive : th.alive = true) :
    j.userId = req.userId ∧ req.key = some j.idempotencyKey ∧
      Passes (Sys.step cfg) anyStep s₁ es fun s₂ => j ∈ s₂.db.journals := by
  refine (h.induct (P := fun l _ => l.req = req ∧ ∀ j, l.trail.found = some j →
    j.userId = req.userId ∧ req.key = some j.idempotencyKey ∧
      Passes (Sys.step cfg) anyStep s₁ es fun s₂ => j ∈ s₂.db.journals)
    ⟨rfl, fun j hj => by cases hj⟩ ?_ halive).2 j hfound
  intro es₁ choice es₂ s₂ s₃ l c k r hes hrun hreach hth hrespond hP
  obtain ⟨hreq, hold⟩ := hP
  refine ⟨Local.after_req.trans hreq, fun j hj => ?_⟩
  rcases Local.after_found hj ((inv_of_reachable hreach).guard hth)
    (Sys.served_of_eq hrespond) with hkept | ⟨hmem, huser, hkey⟩
  · exact hold j hkept
  · exact ⟨hreq ▸ huser, hreq ▸ hkey, es₁, _, s₂, hes, hrun, hmem⟩

/-- A new thread has committed nothing. -/
lemma not_committed (h : Span cfg s₀ req s₁ es s th) (tx : Tx) : (s₀.seq, tx) ∉ s₁.commits := by
  intro htx
  rw [h.spawned] at htx
  obtain ⟨th₀, -, hth₀, -⟩ := (history_of_reachable h.reachable).booked _ htx
  exact absurd ((inv_of_reachable h.reachable).lt_seq hth₀) (lt_irrefl _)

/-- A step of `t` that is one of the bank on the instruction of a journal. -/
def BooksOne (t : Tid) (j : JournalEntry) (s₂ : Sys) (e : Event) (s₃ : Sys) : Prop :=
  (∃ choice, e = .run t choice) ∧ s₂.db.bank.book j.instruction = .ok s₃.db.bank

/-- What the call has committed is one step of the bank. -/
lemma booked (h : Span cfg s₀ req s₁ es s th) {tx : Tx} {j : JournalEntry}
    (htx : (s₀.seq, tx) ∈ s.commits) (hj : tx.journals = [j]) :
    Takes (Sys.step cfg) anyStep s₁ es (BooksOne s₀.seq j) := by
  refine invariant_of_runAll (I := fun s => (s₀.seq, tx) ∈ s.commits →
    Takes (Sys.step cfg) anyStep s₁ es (BooksOne s₀.seq j)) h.run
    (fun htx => absurd htx (h.not_committed tx))
    (fun es₁ e es₂ s₂ s₃ hes hrun hI hstep htx => ?_) htx
  rcases bank_step (h.reachable_of_runAll hrun) hstep with
    ⟨-, hsame⟩ | ⟨t, choice, tx', j, rfl, hcarries⟩
  · exact hI (hsame ▸ htx)
  · rw [hcarries.commits] at htx
    rcases List.mem_append.mp htx with hold | hnew
    · exact hI hold
    · obtain ⟨rfl, rfl⟩ := Prod.mk.inj (List.mem_singleton.mp hnew)
      rw [hcarries.journals] at hj
      obtain rfl := List.singleton_inj.mp hj
      exact ⟨es₁, _, es₂, s₂, s₃, hes, hrun, hstep, ⟨choice, rfl⟩, hcarries.book⟩

lemma extend (h : Span cfg s₀ req s₁ es s th) {e : Event} {th' : Thread}
    (hstep : s.step cfg e = some s₂) (hth' : s₂.threads s₀.seq = some th') :
    Span cfg s₀ req s₁ (es ++ [e]) s₂ th' := by
  refine ⟨h.reachable, h.spawn, ?_, hth'⟩
  rw [runAll_append, h.run]
  simp [runAll, anyStep, hstep]

end Span

/-- Every call has had its time. -/
lemma exists_span (h : Reachable cfg s) (hth : s.threads t = some th) :
    ∃ s₀ s₁ es, s₀.seq = t ∧ Span cfg s₀ th.state.req s₁ es s th := by
  revert t th
  refine h.invariant (I := fun s => ∀ {t th}, s.threads t = some th →
    ∃ s₀ s₁ es, s₀.seq = t ∧ Span cfg s₀ th.state.req s₁ es s th) (by simp [Sys.initial]) ?_
  intro s e s' hreach hspan _ hstep t th hth
  have hold {th₀ : Thread} (hth₀ : s.threads t = some th₀)
      (hreq : th.state.req = th₀.state.req) :
      ∃ s₀ s₁ es, s₀.seq = t ∧ Span cfg s₀ th.state.req s₁ es s' th := by
    obtain ⟨s₀, s₁, es, rfl, h⟩ := hspan hth₀
    exact ⟨s₀, s₁, es ++ [e], rfl, hreq ▸ h.extend hstep hth⟩
  have hstep' := hstep
  cases Sys.step_of_eq hstep' with
  | spawn req =>
    rcases Sys.of_setThread hth with ⟨rfl, rfl⟩ | ⟨-, hkept⟩
    · exact ⟨s, _, [], rfl, hreach, hstep, rfl, hth⟩
    · exact hold hkept rfl
  | @run t' choice l c k s₁ r hth₁ hrespond =>
    rcases Sys.of_setThread hth with ⟨rfl, rfl⟩ | ⟨-, hkept⟩
    · exact hold hth₁ Local.after_req
    · rw [(Sys.served_of_eq hrespond).frame.1] at hkept
      exact hold hkept rfl
  | @crash t' l c k hth₁ =>
    rcases Sys.of_setThread hth with ⟨rfl, rfl⟩ | ⟨-, hkept⟩
    · exact hold hth₁ rfl
    · exact hold hkept rfl
  | tick ms => exact hold hth rfl

/-- Every call answers as the bank does in its time.  If it succeeds anew, one of its own steps
there is that of the bank on the instruction that it asks for; if it is a replay, the journal was
there under its key; and if it fails, that has a cause. -/
theorem linearizable (h : Span cfg s₀ req s₁ es s th) (hkey : req.key.isSome) :
    (∀ r, th.operation = some r → ¬ th.Replays r →
      th.state.instruction = some r.journal.instruction ∧
      Takes (Sys.step cfg) anyStep s₁ es (Span.BooksOne s₀.seq r.journal)) ∧
    (∀ r, th.operation = some r → th.Replays r →
      r.journal.userId = req.userId ∧ req.key = some r.journal.idempotencyKey ∧
      Passes (Sys.step cfg) anyStep s₁ es fun s₂ => r.journal ∈ s₂.db.journals) ∧
    ∀ x, th.failure = some x →
      Cause (evidence cfg s₁ es s₀.seq) req th.state.trail.hand th.state.trail.rates x := by
  have hreach := h.reachable_of_runAll h.run
  refine ⟨fun r hr hreplay => ?_, fun r hr hreplay => ?_, fun x hx => ?_⟩
  · obtain ⟨tx, hcommit, hbooked, hjournals⟩ := committed_of_success hreach h.thread hr hreplay
    obtain ⟨th', j, hth', -, hbooks⟩ := (history_of_reachable hreach).booked _ hcommit
    obtain rfl := Option.some.inj (h.thread.symm.trans hth')
    obtain rfl : r.journal = j := by simpa using hjournals.symm.trans hbooks.journals
    obtain ⟨s₂, s₃, ⟨hreach₂, ⟨choice, hstep⟩, -⟩, -, hputs⟩ :=
      exists_putsIn hreach h.thread hcommit hjournals
    refine ⟨?_, h.booked hcommit hjournals⟩
    exact instruction_of_books hreach h.thread hbooked hbooks fun e he =>
      hputs.bounds hreach₂ (hreach₂.tail trivial hstep) hbooks.sound he
  · exact h.found hreplay (Span.alive_of_answer (Thread.answer_of_operation hr))
  · exact h.cause hkey hx (fun es₁ es₂ s₂ P hes hrun hP => ⟨es₁, es₂, s₂, hes, hrun, hP⟩)
      fun es₁ e es₂ s₂ s₃ hes hrun hstep hhindered =>
        ⟨es₁, e, es₂, s₂, s₃, hes, hrun, hstep, hhindered⟩

/-- The funding of a user, in its time. -/
theorem linearizable_funded : ∃ s₁ s th r, Span {} .initial (.fundWallet 1 "USD" (.integer 500) "k")
    s₁ (serve 1 18) s th ∧ th.operation = some r ∧
    Takes (Sys.step {}) anyStep s₁ (serve 1 18) (Span.BooksOne 1 r.journal) := by
  have hplay : ((Sys.initial.step {} (.spawn (.fundWallet 1 "USD" (.integer 500) "k"))).any
      fun s₁ => (runAll (Sys.step {}) anyStep s₁ (serve 1 18)).any fun s =>
        (s.threads 1).any fun th => th.operation.any fun r => ¬ th.Replays r) = true := by
    decide +kernel
  simp only [Option.any_eq_true, decide_eq_true_eq] at hplay
  obtain ⟨s₁, hspawn, s, hrun, th, hth, r, hr, hreplay⟩ := hplay
  have hspan : Span {} .initial (.fundWallet 1 "USD" (.integer 500) "k") s₁ (serve 1 18) s th :=
    ⟨.refl, hspawn, hrun, hth⟩
  exact ⟨s₁, s, th, r, hspan, hr, ((linearizable hspan rfl).1 r hr hreplay).2⟩

end FxExchange
