import FxExchange.Proofs.Ledger
import FxExchange.Proofs.Operations

/-
# The invariant of the running system

Postgres keeps its books, what Redis holds was written by `createQuote`, and every thread
that is alive keeps to the discipline from here on.  Each part is preserved because of the
others: the guards of the threads keep the stores in order, and the stores give the answers
that the threads rely on.
-/

namespace FxExchange

open LockOrder

variable {cfg : Config} {s s' s₁ : Sys} {t : Tid} {e : Event}

/-! ## What a step is -/

/-- The ways in which the system can move. -/
inductive Sys.Step (cfg : Config) (s : Sys) : Event → Sys → Prop
  | spawn (req : Request) :
    Step cfg s (.spawn req) (s.setThread s.seq { state := { req }, prog := req.program cfg })
  | run {t : Tid} {choice : Choice} {l : Local} {c : Cmd}
      {k : Except Exn c.Ret → Service Response} {s₁ : Sys} {r : Except Exn c.Ret}
      (hthread : s.threads t = some ⟨l, .call c k, true⟩)
      (hrespond : s.respond t l.tx c choice = some (s₁, r)) :
    Step cfg s (.run t choice) (s₁.setThread t ⟨l.after s.seq c r, k r, true⟩)
  | crash {t : Tid} {l : Local} {c : Cmd} {k : Except Exn c.Ret → Service Response}
      (hthread : s.threads t = some ⟨l, .call c k, true⟩) :
    Step cfg s (.crash t) ({ s with locks := s.locks.releaseAll t }.setThread t
      ⟨{ l with tx := none }, .call c k, false⟩)
  | tick (ms : ℕ) : Step cfg s (.tick ms) { s with now := s.now + ms }

lemma Sys.step_of_eq (h : s.step cfg e = some s') : Sys.Step cfg s e s' := by
  cases e with
  | spawn req =>
    obtain rfl := Option.some.inj h
    exact .spawn req
  | run t choice =>
    obtain ⟨th, hth, hrun⟩ := Option.bind_eq_some_iff.mp h
    unfold runThread at hrun
    split at hrun
    · obtain ⟨⟨s₁, r⟩, hrespond, rfl⟩ := Option.map_eq_some_iff.mp hrun
      exact .run hth hrespond
    · cases hrun
  | crash t =>
    obtain ⟨th, hth, hcrash⟩ := Option.bind_eq_some_iff.mp h
    unfold crashThread at hcrash
    split at hcrash
    · obtain rfl := Option.some.inj hcrash
      exact .crash hth
    · cases hcrash
  | tick ms =>
    obtain rfl := Option.some.inj h
    exact .tick ms

/-- A command that is answered. -/
lemma Sys.step_respond {l : Local} {c : Cmd} {k : Except Exn c.Ret → Service Response}
    {choice : Choice} {r : Except Exn c.Ret} (hth : s.threads t = some ⟨l, .call c k, true⟩)
    (hrespond : s.respond t l.tx c choice = some (s₁, r)) :
    s.step cfg (.run t choice) = some (s₁.setThread t ⟨l.after s.seq c r, k r, true⟩) := by
  rw [step, hth, Option.bind_some, runThread, hrespond, Option.map_some]

/-- A command that the system carries out. -/
lemma Sys.step_run {l : Local} {c : Cmd} {k : Except Exn c.Ret → Service Response}
    {r : Except Exn c.Ret} (hth : s.threads t = some ⟨l, .call c k, true⟩)
    (hexec : s.exec t l.tx c = some (s₁, r)) :
    s.step cfg (.run t .ok) = some (s₁.setThread t ⟨l.after s.seq c r, k r, true⟩) :=
  step_respond hth hexec

/-- A statement of a transaction that is open is carried out. -/
lemma Sys.exec_tx {tx : Tx} {c : TxCmd} (haborted : tx.aborted = false) :
    s.exec t (some tx) (.tx c) =
      (execTx s.db s.locks t s.seq tx c).map fun r => ({ s with locks := r.1 }, r.2) := by
  simp [exec, haborted]

/-- The ways in which a command of `t`, whose open transaction is `tx`, can be answered. -/
inductive Sys.Served (s : Sys) (t : Tid) (tx : Option Tx) :
    (c : Cmd) → Sys → Except Exn c.Ret → Prop
  | pool (c : PoolCmd) : Served s t tx (.pool c)
      { s with db := (execPool s.db s.seq c).1 } (execPool s.db s.seq c).2
  | start : Served s t tx .startTransaction s (.ok s.now)
  | statement {c : TxCmd} {x : Tx} {locks : Locks} {r : Except Exn c.Ret} (htx : tx = some x)
      (hexec : execTx s.db s.locks t s.seq x c = some (locks, r)) :
      Served s t tx (.tx c) { s with locks } r
  | commit {x : Tx} (htx : tx = some x) (haborted : x.aborted = false) :
      Served s t tx .commit { s with
        db := s.db.apply x, locks := s.locks.releaseAll t, commits := s.commits ++ [(t, x)] }
        (.ok ())
  | commitAborted {x : Tx} (htx : tx = some x) (haborted : x.aborted = true) :
      Served s t tx .commit { s with locks := s.locks.releaseAll t } (.ok ())
  | commitFailed : Served s t tx .commit { s with locks := s.locks.releaseAll t }
      (.error .unavailable)
  | rollback (r : Except Exn Unit) :
      Served s t tx .rollback { s with locks := s.locks.releaseAll t } r
  | redis {c : RedisCmd} {redis : Redis} {r : Except Exn c.Ret}
      (hexec : execRedis s.redis s.now t c = some (redis, r)) :
      Served s t tx (.redis c) { s with redis } r
  | rates (r : VersionedRates) : Served s t tx .getRates s (.ok r)
  | now : Served s t tx .now s (.ok s.now)
  | uuid : Served s t tx .uuid s (.ok s.seq)
  | failed (c : Cmd) (e : Exn) (hnow : c ≠ .now) (huuid : c ≠ .uuid) (hrollback : c ≠ .rollback)
      (hcommit : c = .commit → tx = none) : Served s t tx c s (.error e)

lemma Sys.served_of_eq {tx : Option Tx} {c : Cmd} {choice : Choice} {r : Except Exn c.Ret}
    (h : s.respond t tx c choice = some (s₁, r)) : s.Served t tx c s₁ r := by
  cases choice with
  | ok =>
    rw [respond] at h
    cases c with
    | pool c =>
      cases h
      exact .pool c
    | startTransaction =>
      cases h
      exact .start
    | tx c =>
      simp only [exec] at h
      split at h
      · cases h
        exact .failed _ _ (by simp) (by simp) (by simp) (by simp)
      · split at h
        · cases h
          exact .failed _ _ (by simp) (by simp) (by simp) (by simp)
        · obtain ⟨⟨locks, r'⟩, hexec, heq⟩ := Option.map_eq_some_iff.mp h
          cases heq
          exact .statement rfl hexec
    | commit =>
      simp only [exec] at h
      split at h
      · cases h
        exact .failed _ _ (by simp) (by simp) (by simp) (by simp)
      · split at h
        · rename_i haborted
          cases h
          exact .commitAborted rfl haborted
        · rename_i haborted
          cases h
          exact .commit rfl (Bool.eq_false_of_not_eq_true haborted)
    | rollback =>
      cases h
      exact .rollback _
    | redis c =>
      obtain ⟨⟨redis, r'⟩, hexec, heq⟩ := Option.map_eq_some_iff.mp h
      cases heq
      exact .redis hexec
    | getRates => cases h
    | now =>
      cases h
      exact .now
    | uuid =>
      cases h
      exact .uuid
  | fail =>
    obtain ⟨s₂, hfail, heq⟩ := Option.map_eq_some_iff.mp h
    cases c with
    | now => cases hfail
    | uuid => cases hfail
    | commit =>
      cases hfail
      cases heq
      exact .commitFailed
    | rollback =>
      cases hfail
      cases heq
      exact .rollback _
    | _ =>
      cases hfail
      cases heq
      exact .failed _ _ (by simp) (by simp) (by simp) (by simp)
  | rates rates =>
    cases c with
    | getRates =>
      cases h
      exact .rates rates
    | _ => cases h

/-- Answering a command changes the stores only. -/
lemma Sys.Served.frame {tx : Option Tx} {c : Cmd} {r : Except Exn c.Ret}
    (h : s.Served t tx c s₁ r) :
    s₁.threads = s.threads ∧ s₁.seq = s.seq ∧ s₁.now = s.now := by
  cases h <;> exact ⟨rfl, rfl, rfl⟩

/-! ## The invariant -/

/-- The open transaction of a thread. -/
def Sys.txOf (s : Sys) (t : Tid) : Option Tx := (s.threads t).bind fun th => th.state.tx

/-- What holds of the operations in every reachable state. -/
structure Inv (cfg : Config) (s : Sys) : Prop where
  fresh : ∀ t, s.seq ≤ t → s.threads t = none
  ledger : Ledger s.db s.locks s.txOf
  quotes : ∀ q quote deadline, s.redis.quotes q = some (quote, deadline) →
    quote.id = q ∧ quote.Valid
  hands : ∀ t th quote, s.threads t = some th → th.state.trail.hand = some quote → quote.Valid
  dead : ∀ t th, s.threads t = some th → th.alive = false → th.state.tx = none
  programs : ∀ t th, s.threads t = some th → th.alive = true →
    th.prog.wp (discipline cfg False) (Answer False) th.state

lemma inv_initial (cfg : Config) : Inv cfg Sys.initial where
  fresh _ _ := rfl
  ledger := ledger_initial
  quotes := by simp [Sys.initial, Redis.empty]
  hands := by simp [Sys.initial]
  dead := by simp [Sys.initial]
  programs := by simp [Sys.initial]

/-- A thread that is about to issue a command may do so. -/
lemma Inv.guard (h : Inv cfg s) {l : Local} {c : Cmd}
    {k : Except Exn c.Ret → Service Response} (hth : s.threads t = some ⟨l, .call c k, true⟩) :
    guard cfg l c := (h.programs t _ hth rfl).1

/-- What a program guarantees at its end holds of an answer. -/
lemma Thread.of_answer {D : Discipline Cmd.Ret Exn Local} {Q : Local → Except Exn Response → Prop}
    {th : Thread} (h : th.prog.wp D Q th.state) {a : Except Exn Response}
    (ha : th.answer = some a) : Q th.state a := by
  obtain ⟨l, prog, alive⟩ := th
  unfold answer at ha
  split at ha <;> rename_i hprog
  · cases hprog
    cases ha
    exact h
  · cases hprog
    cases ha
    exact h
  · cases ha

/-- What a thread has answered is backed by its last state. -/
lemma Inv.answer (h : Inv cfg s) {th : Thread} (hth : s.threads t = some th)
    {a : Except Exn Response} (ha : th.answer = some a) : Answer False th.state a := by
  refine Thread.of_answer (h.programs t th hth ?_) ha
  unfold Thread.answer at ha
  split at ha
  · assumption
  · assumption
  · cases ha

/-- Threads have identifiers that are not new. -/
lemma Inv.lt_seq (h : Inv cfg s) {th : Thread} (hth : s.threads t = some th) : t < s.seq := by
  by_contra hge
  rw [h.fresh t (not_lt.mp hge)] at hth
  cases hth

lemma Sys.txOf_eq {th : Thread} (hth : s.threads t = some th) : s.txOf t = th.state.tx := by
  rw [txOf, hth, Option.bind_some]

lemma Sys.setThread_self (th : Thread) : (s.setThread t th).threads t = some th :=
  Function.update_self t _ _

lemma Sys.setThread_of_ne {t' : Tid} (ht : t' ≠ t) (th : Thread) :
    (s.setThread t th).threads t' = s.threads t' := Function.update_of_ne ht _ _

/-- A thread after `t` has moved. -/
lemma Sys.of_setThread {t' : Tid} {th th' : Thread} (h : (s.setThread t th).threads t' = some th') :
    (t' = t ∧ th' = th) ∨ (t' ≠ t ∧ s.threads t' = some th') := by
  rcases eq_or_ne t' t with rfl | hne
  · rw [setThread_self] at h
    exact Or.inl ⟨rfl, (Option.some.inj h).symm⟩
  · rw [setThread_of_ne hne] at h
    exact Or.inr ⟨hne, h⟩

lemma Sys.of_setThread_none {t' : Tid} {th : Thread}
    (h : (s.setThread t th).threads t' = none) : t' ≠ t ∧ s.threads t' = none := by
  rcases eq_or_ne t' t with rfl | hne
  · rw [setThread_self] at h
    cases h
  · rw [setThread_of_ne hne] at h
    exact ⟨hne, h⟩

lemma Sys.txOf_setThread (th : Thread) :
    (s.setThread t th).txOf = Function.update s.txOf t th.state.tx := by
  funext t'
  rcases eq_or_ne t' t with rfl | ht
  · simp [txOf, setThread_self]
  · simp [txOf, setThread_of_ne ht, ht]

section Local

variable {l : Local} {seq : ℕ}

@[simp] lemma Local.after_req {c : Cmd} {r : Except Exn c.Ret} : (l.after seq c r).req = l.req := by
  cases c <;> (try rename_i c; cases c) <;> cases r <;> rfl

@[simp] lemma Local.after_pool_tx {c : PoolCmd} {r : Except Exn (Cmd.pool c).Ret} :
    (l.after seq (.pool c) r).tx = l.tx := by
  cases r <;> cases c <;> rfl

@[simp] lemma Local.after_redis_tx {c : RedisCmd} {r : Except Exn (Cmd.redis c).Ret} :
    (l.after seq (.redis c) r).tx = l.tx := by
  cases r <;> cases c <;> rfl

end Local

/-- Statements outside the transactions leave balances and journals alone. -/
lemma execPool_frame (db : Database) (seq : ℕ) (c : PoolCmd) :
    (execPool db seq c).1.rows = db.rows ∧ (execPool db seq c).1.amount = db.amount ∧
      (execPool db seq c).1.journals = db.journals := by
  cases c with
  | saveWallet u =>
    simp only [execPool]
    split <;> exact ⟨rfl, rfl, rfl⟩
  | saveOrder o =>
    simp only [execPool]
    split <;> exact ⟨rfl, rfl, rfl⟩
  | _ => exact ⟨rfl, rfl, rfl⟩

/-- Postgres after a command, with what the thread takes its transaction to be. -/
lemma Inv.ledger_served (h : Inv cfg s) {l : Local} {c : Cmd} {r : Except Exn c.Ret}
    (htx : s.txOf t = l.tx) (hguard : FxExchange.guard cfg l c)
    (hserved : s.Served t l.tx c s₁ r) :
    Ledger s₁.db s₁.locks (Function.update s.txOf t (l.after s.seq c r).tx) := by
  have hkeep (l' : Local) (heq : l'.tx = l.tx) :
      Ledger s.db s.locks (Function.update s.txOf t l'.tx) := by
    rw [heq, ← htx, Function.update_eq_self]
    exact h.ledger
  cases hserved with
  | pool c =>
    obtain ⟨hrows, hamount, hjournals⟩ := execPool_frame s.db s.seq c
    exact (hkeep _ Local.after_pool_tx).congr hrows hamount hjournals
  | start => exact h.ledger.start (htx.trans hguard.1) s.now
  | @statement c x locks r htx' hexec =>
    obtain ⟨tx, htx'', -, hguard⟩ := hguard
    obtain rfl := Option.some.inj (htx'.symm.trans htx'')
    have hstate : (l.after s.seq (.tx c) r).tx = some (x.after s.seq c r) := by
      cases r <;> simp [Local.after, Local.afterOk, Local.afterError, Tx.after, htx'']
    rw [hstate]
    exact h.ledger.execTx (htx.trans htx'') hguard hexec
  | commit htx' haborted =>
    obtain ⟨tx, j, htx'', hbooks⟩ := hguard
    obtain rfl := Option.some.inj (htx'.symm.trans htx'')
    exact h.ledger.commit (htx.trans htx'') hbooks
  | commitAborted htx' haborted => exact h.ledger.rollback t
  | commitFailed => exact h.ledger.rollback t
  | rollback r => cases r <;> exact h.ledger.rollback t
  | redis hexec => exact hkeep _ Local.after_redis_tx
  | rates r => exact hkeep _ rfl
  | now => exact hkeep _ rfl
  | uuid => exact hkeep _ rfl
  | failed c e hnow huuid hrollback hcommit =>
    cases c with
    | tx c =>
      obtain ⟨tx, htx', -, -⟩ := hguard
      have hstate : (l.after s.seq (.tx c) (.error e)).tx = some { tx with aborted := true } := by
        simp [Local.after, Local.afterError, htx']
      rw [hstate]
      exact h.ledger.abort (htx.trans htx')
    | commit => exact hkeep _ (hcommit rfl).symm
    | rollback => exact absurd rfl hrollback
    | redis c => exact hkeep _ Local.after_redis_tx
    | _ => exact hkeep _ rfl

/-- A quote that is read from Redis is as it was written. -/
lemma Inv.quote_of_live (h : Inv cfg s) {q : QuoteId} {quote : Quote}
    (hq : Custody.live (s.redis.quotes q) s.now = some quote) : quote.id = q ∧ quote.Valid := by
  obtain ⟨deadline, hentry, -⟩ := Custody.live_eq_some_iff.mp hq
  exact h.quotes q quote deadline hentry

/-- The answers are what the discipline lets their callers assume. -/
lemma Inv.reply_served (h : Inv cfg s) {l : Local} {c : Cmd} {r : Except Exn c.Ret}
    (htx : s.txOf t = l.tx) (hguard : FxExchange.guard cfg l c)
    (hserved : s.Served t l.tx c s₁ r) (a : c.Ret) (hr : r = .ok a) : Reply l c a := by
  cases hserved with
  | pool c =>
    cases c with
    | findByIdempotencyKey u k =>
      obtain rfl := Except.ok.inj hr
      cases hfind : s.db.findByIdempotencyKey u k with
      | none => trivial
      | some j =>
        obtain ⟨hmem, huser, hkey⟩ := Database.of_find_eq_some hfind
        exact ⟨huser, hkey, h.ledger.sheet.success j hmem⟩
    | _ => trivial
  | statement htx' hexec =>
    obtain ⟨tx, htx'', -, hguard⟩ := hguard
    obtain rfl := Option.some.inj (htx'.symm.trans htx'')
    subst hr
    exact ⟨_, htx', h.ledger.txReply (htx.trans htx'') hguard hexec⟩
  | @redis c redis r hexec =>
    subst hr
    cases c with
    | getdel q =>
      obtain ⟨-, rfl⟩ : _ ∧ Custody.live (s.redis.quotes q) s.now = a := by
        simpa [execRedis] using hexec
      cases hlive : Custody.live (s.redis.quotes q) s.now with
      | none => trivial
      | some quote => exact h.quote_of_live hlive
    | get q =>
      obtain ⟨-, rfl⟩ : _ ∧ Custody.live (s.redis.quotes q) s.now = a := by
        simpa [execRedis] using hexec
      cases hlive : Custody.live (s.redis.quotes q) s.now with
      | none => trivial
      | some quote => exact h.quote_of_live hlive
    | _ => trivial
  | _ => trivial

/-- The quotes in Redis after a command. -/
lemma Inv.quotes_served (h : Inv cfg s) {l : Local} {c : Cmd}
    {k : Except Exn c.Ret → Service Response} {r : Except Exn c.Ret}
    (hth : s.threads t = some ⟨l, .call c k, true⟩) (hserved : s.Served t l.tx c s₁ r) :
    ∀ q quote deadline, s₁.redis.quotes q = some (quote, deadline) →
      quote.id = q ∧ quote.Valid := by
  have hguard := h.guard hth
  have hremove (q : QuoteId) : ∀ q' quote deadline,
      Function.update s.redis.quotes q none q' = some (quote, deadline) →
        quote.id = q' ∧ quote.Valid := by
    intro q' quote deadline hq
    rcases eq_or_ne q' q with rfl | hne
    · simp at hq
    · rw [Function.update_of_ne hne] at hq
      exact h.quotes q' quote deadline hq
  cases hserved with
  | @redis c redis r hexec =>
    cases c with
    | getdel q =>
      cases hexec
      exact hremove q
    | del q =>
      cases hexec
      exact hremove q
    | set q quote ex =>
      cases hexec
      intro q' quote' deadline hq
      rcases eq_or_ne q' q with rfl | hne
      · simp only [Function.update_self, Option.some.injEq, Prod.mk.injEq] at hq
        obtain ⟨rfl, -⟩ := hq
        obtain ⟨hid, -, -, -, -, hrestore | hissue⟩ := hguard
        · exact ⟨hid, h.hands t _ quote hth hrestore.hand⟩
        · exact ⟨hid, hissue.valid⟩
      · simp only [Function.update_of_ne hne] at hq
        exact h.quotes q' quote' deadline hq
    | acquire u ttl =>
      simp only [execRedis] at hexec
      split at hexec
      · cases hexec
      · cases hexec
        exact h.quotes
    | release u =>
      simp only [execRedis] at hexec
      split at hexec <;> cases hexec <;> exact h.quotes
    | _ =>
      cases hexec
      exact h.quotes
  | _ => exact h.quotes

/-- The quote in hand after a command. -/
lemma Local.after_hand_valid {l : Local} {seq : ℕ} {c : Cmd} {r : Except Exn c.Ret}
    (hold : ∀ quote, l.trail.hand = some quote → quote.Valid)
    (hreply : ∀ a, r = .ok a → Reply l c a) :
    ∀ quote, (l.after seq c r).trail.hand = some quote → quote.Valid := by
  intro quote hquote
  cases r with
  | error e => cases c <;> (try rename_i c; cases c) <;> exact hold quote hquote
  | ok a =>
    cases c with
    | redis c =>
      cases c with
      | getdel q =>
        obtain rfl : a = some quote := hquote
        exact (hreply _ rfl).2
      | get q =>
        obtain rfl : a = some quote := hquote
        exact (hreply _ rfl).2
      | set q quote' ex => cases hquote
      | _ => exact hold quote hquote
    | pool c => cases c <;> exact hold quote hquote
    | _ => exact hold quote hquote

/-! ## Preservation -/

/-- The thread that has moved takes the place of what it was. -/
lemma Inv.setThread (h : Inv cfg s) (s₁ : Sys) (hframe : s₁.threads = s.threads ∧ s₁.seq = s.seq)
    {th : Thread} (ht : t ≤ s.seq)
    (hledger : Ledger s₁.db s₁.locks (Function.update s.txOf t th.state.tx))
    (hquotes : ∀ q quote deadline, s₁.redis.quotes q = some (quote, deadline) →
      quote.id = q ∧ quote.Valid)
    (hhand : ∀ quote, th.state.trail.hand = some quote → quote.Valid)
    (hdead : th.alive = false → th.state.tx = none)
    (hprogram : th.alive = true → th.prog.wp (discipline cfg False) (Answer False) th.state) :
    Inv cfg (s₁.setThread t th) := by
  obtain ⟨hthreads, hseq⟩ := hframe
  have hcases {t' : Tid} {th' : Thread} (hth' : (s₁.setThread t th).threads t' = some th') :
      th' = th ∨ s.threads t' = some th' := by
    rw [← hthreads]
    exact (Sys.of_setThread hth').imp And.right And.right
  refine ⟨?_, ?_, hquotes, ?_, ?_, ?_⟩
  · intro t' ht'
    have hle : s.seq + 1 ≤ t' := hseq ▸ ht'
    rw [Sys.setThread_of_ne (ht.trans_lt hle).ne', hthreads]
    exact h.fresh t' (Nat.le_of_succ_le hle)
  · rw [Sys.txOf_setThread]
    have htxOf : s₁.txOf = s.txOf := by
      funext t'
      rw [Sys.txOf, Sys.txOf, hthreads]
    rw [htxOf]
    exact hledger
  · intro t' th' quote hth'
    rcases hcases hth' with rfl | hold
    · exact hhand quote
    · exact h.hands t' th' quote hold
  · intro t' th' hth'
    rcases hcases hth' with rfl | hold
    · exact hdead
    · exact h.dead t' th' hold
  · intro t' th' hth'
    rcases hcases hth' with rfl | hold
    · exact hprogram
    · exact h.programs t' th' hold

/-- Every step keeps the invariant. -/
theorem Inv.step (h : Inv cfg s) (hstep : s.step cfg e = some s') : Inv cfg s' := by
  cases Sys.step_of_eq hstep with
  | spawn req =>
    have htx : s.txOf s.seq = none := by rw [Sys.txOf, h.fresh s.seq le_rfl, Option.bind_none]
    refine h.setThread s ⟨rfl, rfl⟩ le_rfl ?_ h.quotes (by simp) (by simp) fun _ =>
      wp_program cfg False req
    rw [← htx, Function.update_eq_self]
    exact h.ledger
  | @run t choice l c k s₁ r hth hrespond =>
    have hserved := Sys.served_of_eq hrespond
    have hguard := h.guard hth
    have htx : s.txOf t = l.tx := Sys.txOf_eq hth
    have hreply := h.reply_served htx hguard hserved
    refine h.setThread s₁ ⟨hserved.frame.1, hserved.frame.2.1⟩ (h.lt_seq hth).le
      (h.ledger_served htx hguard hserved) (h.quotes_served hth hserved)
      (Local.after_hand_valid (fun quote => h.hands t _ quote hth) hreply) (by simp) fun _ => ?_
    exact (h.programs t _ hth rfl).2 r _ ⟨⟨s.seq, rfl⟩, hreply, False.elim⟩
  | @crash t l c k hth =>
    exact h.setThread { s with locks := s.locks.releaseAll t } ⟨rfl, rfl⟩ (h.lt_seq hth).le
      (h.ledger.rollback t) h.quotes (fun quote hq => h.hands t ⟨l, .call c k, true⟩ quote hth hq)
      (fun _ => rfl) (by simp)
  | tick ms => exact ⟨h.fresh, h.ledger, h.quotes, h.hands, h.dead, h.programs⟩

/-- The invariant holds in every state that the system can come to. -/
theorem inv_of_reachable (h : Reachable cfg s) : Inv cfg s :=
  h.invariant (inv_initial cfg) fun _ _ _ _ hinv _ hstep => hinv.step hstep

/-- A thread after a step: it is new, it has kept what it remembers, or it has moved. -/
lemma Sys.thread_step (hstep : s.step cfg e = some s') {th' : Thread}
    (hth' : s'.threads t = some th') :
    (∃ req, th'.state = { req }) ∨
    (∃ th, s.threads t = some th ∧ th'.state.req = th.state.req ∧
      th'.state.trail = th.state.trail ∧ (th'.state.tx = th.state.tx ∨ th'.state.tx = none)) ∨
    ∃ choice l c k s₁, ∃ r : Except Exn c.Ret, e = .run t choice ∧
      s.threads t = some ⟨l, .call c k, true⟩ ∧ s.respond t l.tx c choice = some (s₁, r) ∧
      th'.state = l.after s.seq c r := by
  have hkept (hth : s.threads t = some th') : ∃ th, s.threads t = some th ∧
      th'.state.req = th.state.req ∧ th'.state.trail = th.state.trail ∧
      (th'.state.tx = th.state.tx ∨ th'.state.tx = none) :=
    ⟨th', hth, rfl, rfl, Or.inl rfl⟩
  cases Sys.step_of_eq hstep with
  | spawn req =>
    rcases of_setThread hth' with ⟨-, rfl⟩ | ⟨-, hold⟩
    · exact Or.inl ⟨req, rfl⟩
    · exact Or.inr (Or.inl (hkept hold))
  | @run t' choice l c k s₁ r hth hrespond =>
    rcases of_setThread hth' with ⟨rfl, rfl⟩ | ⟨-, hold⟩
    · exact Or.inr (Or.inr ⟨choice, l, c, k, s₁, r, rfl, hth, hrespond, rfl⟩)
    · rw [(served_of_eq hrespond).frame.1] at hold
      exact Or.inr (Or.inl (hkept hold))
  | @crash t' l c k hth =>
    rcases of_setThread hth' with ⟨rfl, rfl⟩ | ⟨-, hold⟩
    · exact Or.inr (Or.inl ⟨_, hth, rfl, rfl, Or.inr rfl⟩)
    · exact Or.inr (Or.inl (hkept hold))
  | tick ms => exact Or.inr (Or.inl (hkept hth'))

/-- What holds of a new thread, and is kept by all that happens to a thread, holds of every
thread. -/
lemma forall_threads {P : Local → Prop} (h : Reachable cfg s) (hnew : ∀ req, P { req })
    (hend : ∀ l, P l → P { l with tx := none })
    (hrun : ∀ (s : Sys) t l c s₁, ∀ r : Except Exn c.Ret, P l → guard cfg l c →
      s.Served t l.tx c s₁ r → P (l.after s.seq c r)) {th : Thread} (hth : s.threads t = some th) :
    P th.state := by
  revert t th
  refine h.invariant (I := fun s => ∀ {t th}, s.threads t = some th → P th.state)
    (by simp [Sys.initial]) fun s e s' hreach hP _ hstep t th hth => ?_
  rcases Sys.thread_step hstep hth with ⟨req, hstate⟩ | ⟨⟨l, _, _⟩, hth₀, hreq, htrail, htx⟩ |
    ⟨choice, l, c, k, s₁, r, -, hth₀, hrespond, hstate⟩
  · rw [hstate]
    exact hnew req
  · obtain ⟨⟨req, tx, trail⟩, _, _⟩ := th
    obtain rfl : req = l.req := hreq
    obtain rfl : trail = l.trail := htrail
    rcases htx with htx | htx
    · obtain rfl : tx = l.tx := htx
      show P l
      exact hP hth₀
    · obtain rfl : tx = none := htx
      exact hend l (hP hth₀)
  · rw [hstate]
    exact hrun s t l c s₁ r (hP hth₀) ((inv_of_reachable hreach).guard hth₀)
      (Sys.served_of_eq hrespond)

/-- What holds of a thread, and is kept by all that happens to it, holds of it later. -/
lemma thread_of_runs {ok : Sys → Event → Prop} {P : Local → Prop} (hs : Reachable cfg s)
    (h : Runs cfg ok s s') {th : Thread} (hth : s.threads t = some th) (hP : P th.state)
    (hend : ∀ l, P l → P { l with tx := none })
    (hrun : ∀ (s : Sys) t l c s₁, ∀ r : Except Exn c.Ret, P l → guard cfg l c →
      s.Served t l.tx c s₁ r → P (l.after s.seq c r)) :
    ∃ th', s'.threads t = some th' ∧ P th'.state := by
  refine h.invariant (I := fun s' => ∃ th', s'.threads t = some th' ∧ P th'.state)
    ⟨th, hth, hP⟩ fun s₁ e s₂ hrun₁ hI _ hstep => ?_
  obtain ⟨th₁, hth₁, hP₁⟩ := hI
  have hinv := inv_of_reachable (hs.trans (hrun₁.mono fun _ _ _ => trivial))
  cases Sys.step_of_eq hstep with
  | spawn req =>
    exact ⟨th₁, by rw [Sys.setThread_of_ne (hinv.lt_seq hth₁).ne]; exact hth₁, hP₁⟩
  | @run t' choice l c k s₁' r hth' hrespond =>
    have hserved := Sys.served_of_eq hrespond
    rcases eq_or_ne t t' with rfl | hne
    · obtain rfl := Option.some.inj (hth₁.symm.trans hth')
      exact ⟨_, Sys.setThread_self _, hrun _ _ _ _ _ _ hP₁ (hinv.guard hth') hserved⟩
    · refine ⟨th₁, ?_, hP₁⟩
      rw [Sys.setThread_of_ne hne, hserved.frame.1]
      exact hth₁
  | @crash t' l c k hth' =>
    rcases eq_or_ne t t' with rfl | hne
    · obtain rfl := Option.some.inj (hth₁.symm.trans hth')
      exact ⟨_, Sys.setThread_self _, hend _ hP₁⟩
    · exact ⟨th₁, by rw [Sys.setThread_of_ne hne]; exact hth₁, hP₁⟩
  | tick ms => exact ⟨th₁, hth₁, hP₁⟩

/-- What holds of a new thread and what it has to do, and is kept by each of its commands,
holds of every thread that is alive. -/
lemma forall_programs {ok : Sys → Event → Prop} {P : Local → Service Response → Prop}
    (h : Runs cfg ok Sys.initial s) (hnew : ∀ req, P { req } (req.program cfg))
    (hrun : ∀ (s : Sys) t choice l c k s₁, ∀ r : Except Exn c.Ret, Runs cfg ok Sys.initial s →
      ok s (.run t choice) → s.threads t = some ⟨l, .call c k, true⟩ →
      s.respond t l.tx c choice = some (s₁, r) → P l (.call c k) → P (l.after s.seq c r) (k r))
    {th : Thread} (hth : s.threads t = some th) (halive : th.alive = true) :
    P th.state th.prog := by
  revert t th
  refine h.invariant (I := fun s => ∀ {t th}, s.threads t = some th → th.alive = true →
    P th.state th.prog) (by simp [Sys.initial]) fun s e s' hreach hP hok hstep t th hth halive => ?_
  cases Sys.step_of_eq hstep with
  | spawn req =>
    rcases Sys.of_setThread hth with ⟨-, rfl⟩ | ⟨-, hold⟩
    · exact hnew req
    · exact hP hold halive
  | @run t' choice l c k s₁ r hth' hrespond =>
    rcases Sys.of_setThread hth with ⟨-, rfl⟩ | ⟨-, hold⟩
    · exact hrun s t' choice l c k s₁ r hreach hok hth' hrespond (hP hth' rfl)
    · rw [(Sys.served_of_eq hrespond).frame.1] at hold
      exact hP hold halive
  | crash hth' =>
    rcases Sys.of_setThread hth with ⟨-, rfl⟩ | ⟨-, hold⟩
    · cases halive
    · exact hP hold halive
  | tick ms => exact hP hth halive

/-! ## Identifiers -/

/-- The identifiers that the threads have come by, as `P` tells, are not new, and no two
threads share one. -/
structure Distinct (P : Local → ℕ → Prop) (s : Sys) : Prop where
  lt : ∀ t th id, s.threads t = some th → P th.state id → id < s.seq
  unique : ∀ t t' th th' id, s.threads t = some th → s.threads t' = some th' → P th.state id →
    P th'.state id → t = t'

section Distinct

variable {P : Local → ℕ → Prop}

lemma distinct_initial : Distinct P Sys.initial := by
  constructor <;> simp [Sys.initial]

lemma Distinct.setThread (h : Distinct P s) (s₁ : Sys) (t : Tid)
    (hframe : s₁.threads = s.threads ∧ s₁.seq = s.seq) {th : Thread}
    (hP : ∀ id, P th.state id → (∃ th₀, s.threads t = some th₀ ∧ P th₀.state id) ∨ id = s.seq) :
    Distinct P (s₁.setThread t th) := by
  obtain ⟨hthreads, hseq⟩ := hframe
  -- what a thread has now it has had before, or it is the thread that has moved
  have hcases {t' : Tid} {th' : Thread} {id : ℕ}
      (hth' : (s₁.setThread t th).threads t' = some th') (hid : P th'.state id) :
      (∃ th₀, s.threads t' = some th₀ ∧ P th₀.state id) ∨ (t' = t ∧ id = s.seq) := by
    rcases Sys.of_setThread hth' with ⟨rfl, rfl⟩ | ⟨-, hold⟩
    · exact (hP id hid).imp_right fun heq => ⟨rfl, heq⟩
    · exact Or.inl ⟨th', hthreads ▸ hold, hid⟩
  constructor
  · intro t' th' id hth' hid
    show id < s₁.seq + 1
    rw [hseq]
    rcases hcases hth' hid with ⟨th₀, hth₀, hid₀⟩ | ⟨-, rfl⟩
    · exact Nat.lt_succ_of_lt (h.lt t' th₀ id hth₀ hid₀)
    · exact Nat.lt_succ_self _
  · intro t₁ t₂ th₁ th₂ id hth₁ hth₂ hid₁ hid₂
    rcases hcases hth₁ hid₁ with ⟨th, hth, hid⟩ | ⟨rfl, rfl⟩ <;>
      rcases hcases hth₂ hid₂ with ⟨th', hth', hid'⟩ | ⟨heq, hid'⟩
    · exact h.unique t₁ t₂ th th' id hth hth' hid hid'
    · exact absurd (h.lt t₁ th id hth hid) (by rw [hid']; exact lt_irrefl _)
    · exact absurd (h.lt t₂ th' _ hth' hid') (lt_irrefl _)
    · exact heq.symm

/-- A command brings at most the new identifier. -/
lemma Distinct.step (h : Distinct P s) (hstep : s.step cfg e = some s')
    (hnew : ∀ req id, ¬ P { req } id) (hcrash : ∀ l id, P { l with tx := none } id → P l id)
    (hrun : ∀ t choice l c k s₁, ∀ r : Except Exn c.Ret,
      s.threads t = some ⟨l, .call c k, true⟩ → s.respond t l.tx c choice = some (s₁, r) →
      ∀ id, P (l.after s.seq c r) id → P l id ∨ id = s.seq) : Distinct P s' := by
  cases Sys.step_of_eq hstep with
  | spawn req => exact h.setThread s s.seq ⟨rfl, rfl⟩ fun id hid => absurd hid (hnew req id)
  | @run t choice l c k s₁ r hth hrespond =>
    have hserved := Sys.served_of_eq hrespond
    refine h.setThread s₁ t ⟨hserved.frame.1, hserved.frame.2.1⟩ fun id hid => ?_
    exact (hrun t choice l c k s₁ r hth hrespond id hid).imp_left fun hid => ⟨_, hth, hid⟩
  | @crash t l c k hth =>
    exact h.setThread { s with locks := s.locks.releaseAll t } t ⟨rfl, rfl⟩ fun id hid =>
      Or.inl ⟨_, hth, hcrash l id hid⟩
  | tick ms => exact ⟨h.lt, h.unique⟩

end Distinct

end FxExchange
