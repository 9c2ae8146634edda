import FxExchange.Proofs.Linearization
import FxExchange.Proofs.Locking

/-
# A call that is left alone

Where nobody else holds a lock, a call that is left alone never waits: it comes to its answer,
whatever the rates are.  What it answers is then what the bank says of the balances that it has
begun with: none of its commands collides with another call, and the balances are as they were
until it commits.
-/

namespace FxExchange

open LockOrder Service Transition
open Prog (throwIf wp_bind wp_command wp_mono wp_throwIf wp_tryCatch wp_tryFinally)

variable {cfg : Config} {s s' s₀ s₁ s₂ s₃ : Sys} {t : Tid} {e : Event} {es : List Event}
  {req : Request} {l : Local} {th : Thread} {c : Cmd} {r : Except Exn c.Ret}

/-- The next command of `t`, which does not fail. -/
def Solo (t : Tid) : Event → Prop
  | .run t' .ok => t' = t
  | .run t' (.rates _) => t' = t
  | _ => False

/-! ## It comes to an end -/

/-- Nothing that `t` needs is held by anybody else. -/
structure Sys.Quiet (s : Sys) (t : Tid) (l : Local) : Prop where
  rows : s.locks.rows.OnlyBy t
  keys : s.locks.keys.OnlyBy t
  /-- As long as it does not hold the wallet lock, the lock is free. -/
  free : l.trail.inLock = false → Custody.live (s.redis.locks l.req.userId) s.now = none

/-- A command of a call that is left alone is carried out, except that the rates come from the
provider. -/
lemma Sys.Quiet.exists_respond (h : s.Quiet t l) (hguard : guard cfg l c)
    (rates : VersionedRates) : ∃ choice s₁, ∃ r : Except Exn c.Ret,
      (choice = .ok ∨ choice = .rates rates) ∧ s.respond t l.tx c choice = some (s₁, r) := by
  have hok (hexec : ∃ x, s.exec t l.tx c = some x) : ∃ choice s₁, ∃ r : Except Exn c.Ret,
      (choice = .ok ∨ choice = .rates rates) ∧ s.respond t l.tx c choice = some (s₁, r) := by
    obtain ⟨⟨s₁, r⟩, hexec⟩ := hexec
    exact ⟨.ok, s₁, r, .inl rfl, hexec⟩
  cases c with
  | tx c =>
    obtain ⟨tx, htx, haborted, -⟩ := hguard
    have hsome : ∃ x, execTx s.db s.locks t s.seq tx c = some x := by
      cases c with
      | selectForUpdate a =>
        simp only [execTx, h.rows.not_heldByOther, Bool.false_eq_true, if_false]
        split
        · exact ⟨_, rfl⟩
        · split <;> exact ⟨_, rfl⟩
      | insertBalance a =>
        simp only [execTx, h.rows.not_heldByOther, Bool.false_eq_true, if_false]
        split <;> exact ⟨_, rfl⟩
      | insertJournal j =>
        simp only [execTx, h.keys.not_heldByOther, Bool.false_eq_true, if_false]
        split
        · exact ⟨_, rfl⟩
        · split <;> exact ⟨_, rfl⟩
      | updateBalance a v =>
        simp only [execTx, h.rows.not_heldByOther, Bool.false_eq_true, if_false]
        exact ⟨_, rfl⟩
      | _ => exact ⟨_, rfl⟩
    obtain ⟨x, hexec⟩ := hsome
    refine hok ⟨({ s with locks := x.1 }, x.2), ?_⟩
    rw [htx, Sys.exec_tx haborted, hexec]
    rfl
  | commit =>
    obtain ⟨tx, j, htx, hbooks⟩ := hguard
    refine hok ⟨({ s with
      db := s.db.apply tx, locks := s.locks.releaseAll t, commits := s.commits ++ [(t, tx)] },
      .ok ()), ?_⟩
    simp [exec, htx, hbooks.aborted]
  | redis c =>
    have hsome : ∃ x, execRedis s.redis s.now t c = some x := by
      cases c with
      | acquire u ttl =>
        obtain ⟨rfl, -, hinLock, -⟩ := hguard
        simp only [execRedis, h.free hinLock]
        exact ⟨_, rfl⟩
      | release u =>
        simp only [execRedis]
        split <;> exact ⟨_, rfl⟩
      | _ => exact ⟨_, rfl⟩
    obtain ⟨x, hexec⟩ := hsome
    refine hok ⟨({ s with redis := x.1 }, x.2), ?_⟩
    rw [exec, hexec]
    rfl
  | getRates => exact ⟨.rates rates, s, .ok rates, .inr rfl, rfl⟩
  | _ => exact hok ⟨_, rfl⟩

/-- A statement locks for its transaction. -/
lemma onlyBy_execTx {db : Database} {locks locks' : Locks} {seq : ℕ} {tx : Tx} {c : TxCmd}
    {r : Except Exn c.Ret} (hrows : locks.rows.OnlyBy t) (hkeys : locks.keys.OnlyBy t)
    (hexec : execTx db locks t seq tx c = some (locks', r)) :
    locks'.rows.OnlyBy t ∧ locks'.keys.OnlyBy t := by
  cases c with
  | selectForUpdate a =>
    simp only [execTx] at hexec
    split at hexec
    · split at hexec
      · cases hexec
      · cases hexec
        exact ⟨hrows.grant a, hkeys⟩
    · split at hexec <;> cases hexec <;> exact ⟨hrows, hkeys⟩
  | insertBalance a =>
    simp only [execTx] at hexec
    split at hexec
    · cases hexec
      exact ⟨hrows, hkeys⟩
    · split at hexec
      · cases hexec
      · cases hexec
        exact ⟨hrows.grant a, hkeys⟩
  | insertJournal j =>
    simp only [execTx] at hexec
    split at hexec
    · cases hexec
      exact ⟨hrows, hkeys⟩
    · split at hexec
      · cases hexec
        exact ⟨hrows, hkeys⟩
      · split at hexec
        · cases hexec
        · cases hexec
          exact ⟨hrows, hkeys.grant _⟩
  | updateBalance a v =>
    simp only [execTx] at hexec
    split at hexec
    · cases hexec
    · cases hexec
      exact ⟨hrows, hkeys⟩
  | _ =>
    cases hexec
    exact ⟨hrows, hkeys⟩

/-- What a call that is left alone needs stays its own. -/
lemma Sys.Quiet.respond (h : s.Quiet t l) (hguard : guard cfg l c) {choice : Choice}
    (hrespond : s.respond t l.tx c choice = some (s₁, r)) :
    (s₁.setThread t th).Quiet t (l.after s.seq c r) := by
  have hserved := Sys.served_of_eq hrespond
  have hlocks : s₁.locks.rows.OnlyBy t ∧ s₁.locks.keys.OnlyBy t := by
    cases hserved with
    | statement htx hexec => exact onlyBy_execTx h.rows h.keys hexec
    | commit htx haborted => exact ⟨h.rows.releaseAll, h.keys.releaseAll⟩
    | commitAborted htx haborted => exact ⟨h.rows.releaseAll, h.keys.releaseAll⟩
    | commitFailed => exact ⟨h.rows.releaseAll, h.keys.releaseAll⟩
    | rollback r => exact ⟨h.rows.releaseAll, h.keys.releaseAll⟩
    | _ => exact ⟨h.rows, h.keys⟩
  refine ⟨hlocks.1, hlocks.2, fun hout => ?_⟩
  rw [Local.after_req]
  show Custody.live (s₁.redis.locks l.req.userId) s₁.now = none
  by_cases hrelease : ∃ u, c = .redis (.release u)
  · -- the lock has been given back
    obtain ⟨u, rfl⟩ := hrelease
    obtain ⟨rfl, -, hheld⟩ := hguard
    cases hserved with
    | redis hexec =>
      simp only [execRedis] at hexec
      split at hexec
      · cases hexec
        simp [Custody.live]
      · cases hexec
        rw [Local.after, Local.afterError_inLock, hheld] at hout
        cases hout
    | failed =>
      rw [Local.after, Local.afterError_inLock, hheld] at hout
      cases hout
  · push Not at hrelease
    have hbefore : l.trail.inLock = false := by
      by_contra hheld
      rw [Local.after_inLock_of (Bool.eq_true_of_not_eq_false hheld) hrelease] at hout
      cases hout
    have hfree := h.free hbefore
    cases hserved with
    | @redis c redis r hexec =>
      cases c with
      | acquire u ttl =>
        simp only [execRedis] at hexec
        split at hexec
        · cases hexec
        · cases hexec
          cases hout
      | release u => exact absurd rfl (hrelease u)
      | _ =>
        cases hexec
        exact hfree
    | _ => exact hfree

/-- A call that is left alone comes to its answer. -/
lemma exists_answer_of_quiet (hreach : Reachable cfg s) {p : Service Response}
    (hth : s.threads t = some ⟨l, p, true⟩) (hquiet : s.Quiet t l) (rates : VersionedRates) :
    ∃ es s' th, (∀ e ∈ es, e = .run t .ok ∨ e = .run t (.rates rates)) ∧
      runAll (Sys.step cfg) anyStep s es = some s' ∧ s'.threads t = some th ∧
      th.answer.isSome := by
  induction p generalizing s l with
  | pure a => exact ⟨[], s, _, by simp, rfl, hth, rfl⟩
  | throw x => exact ⟨[], s, _, by simp, rfl, hth, rfl⟩
  | call c k ih =>
    have hguard := (inv_of_reachable hreach).guard hth
    obtain ⟨choice, s₁, r, hchoice, hrespond⟩ := hquiet.exists_respond hguard rates
    have hstep : s.step cfg (.run t choice) = some _ := Sys.step_respond hth hrespond
    obtain ⟨es, s', th, hes, hrun, hth', hanswer⟩ := ih r (hreach.tail trivial hstep)
      (Sys.setThread_self _) (hquiet.respond hguard hrespond)
    refine ⟨.run t choice :: es, s', th, ?_, ?_, hth', hanswer⟩
    · rintro e (_ | ⟨_, he⟩)
      · exact hchoice.imp (congrArg _) (congrArg _)
      · exact hes e he
    · rw [runAll, if_pos (show anyStep s _ from trivial), hstep, Option.bind_some, hrun]

/-! ## What is inserted was missing -/

/-- A row that a command has found missing. -/
inductive Missing
  | wallet (u : UserId)
  | row (a : Account)
  deriving DecidableEq

/-- What an answer says to be missing. -/
def missing : (c : Cmd) → Except Exn c.Ret → Option Missing
  | .pool (.findWallet u), .ok false => some (.wallet u)
  | .tx (.selectForUpdate a), .ok none => some (.row a)
  | _, _ => none

/-- The row that a command inserts, of those that are looked for before. -/
def Cmd.inserts : Cmd → Option Missing
  | .pool (.saveWallet u) => some (.wallet u)
  | .tx (.insertBalance a) => some (.row a)
  | _ => none

/-- A row is inserted right after it has been found missing. -/
def noting : Discipline Cmd.Ret Exn (Option Missing) where
  guard m c := ∀ x, c.inserts = some x → m = some x
  outcome _ c r m' := m' = missing c r

section Heeds

variable {α β : Type} {u : UserId}

/-- The program keeps to that, whatever has been missing before. -/
def Heeds (p : Service α) : Prop := ∀ m, p.wp noting (fun _ _ => True) m

lemma heeds_bind {p : Service α} {f : α → Service β} (hp : Heeds p) (hf : ∀ a, Heeds (f a)) :
    Heeds (p >>= f) := by
  intro m
  refine wp_bind.mpr (wp_mono (fun m' r _ => ?_) (hp m))
  cases r with
  | ok a => exact hf a m'
  | error e => trivial

lemma heeds_tryCatch {p : Service α} {h : Exn → Service α} (hp : Heeds p) (hh : ∀ e, Heeds (h e)) :
    Heeds (p.tryCatch h) := by
  intro m
  refine wp_tryCatch.mpr (wp_mono (fun m' r _ => ?_) (hp m))
  cases r with
  | ok a => trivial
  | error e => exact hh e m'

lemma heeds_tryFinally {p : Service α} {q : Service Unit} (hp : Heeds p) (hq : Heeds q) :
    Heeds (p.tryFinally q) := by
  intro m
  refine wp_tryFinally.mpr (wp_mono (fun m' r _ => ?_) (hp m))
  refine wp_mono (fun m'' r' _ => ?_) (hq m')
  cases r' <;> trivial

lemma heeds_issue (hc : c.inserts = none) : Heeds (issue c) := by
  intro m
  refine wp_command.mpr ⟨fun x hx => ?_, fun r m' _ => trivial⟩
  rw [hc] at hx
  cases hx

lemma heeds_throwIf {p : Prop} [Decidable p] {e : Exn} : Heeds (throwIf p e) :=
  fun _ => wp_throwIf.mpr ⟨fun _ => trivial, fun _ => trivial⟩

lemma heeds_pure (a : α) : Heeds (Pure.pure a : Service α) := fun _ => trivial

lemma heeds_throw (e : Exn) : Heeds (.throw e : Service α) := fun _ => trivial

lemma heeds_immediate {p : Service α} (hp : Immediate p) : Heeds p := by
  rcases hp with ⟨a, rfl⟩ | ⟨e, rfl⟩
  · exact heeds_pure a
  · exact heeds_throw e

/-! ### The parts of the operations -/

lemma heeds_lockOrCreateBalance {a : Account} : Heeds (lockOrCreateBalance a) := by
  intro m
  refine wp_bind.mpr (wp_command.mpr ⟨fun x hx => (by cases hx), fun r m' hm' => ?_⟩)
  cases r with
  | error e => trivial
  | ok found =>
    cases found with
    | some v => trivial
    | none =>
      -- the row has just been found missing
      refine wp_bind.mpr (wp_command.mpr ⟨fun x hx => ?_, fun r m'' _ => ?_⟩)
      · rw [hm', ← hx]
        rfl
      · cases r <;> trivial

lemma heeds_findOrCreateWallet : Heeds (findOrCreateWallet u) := by
  intro m
  refine wp_bind.mpr (wp_command.mpr ⟨fun x hx => (by cases hx), fun r m' hm' => ?_⟩)
  cases r with
  | error e => trivial
  | ok found =>
    cases found with
    | true => trivial
    | false =>
      refine wp_command.mpr ⟨fun x hx => ?_, fun r m'' _ => trivial⟩
      rw [hm', ← hx]
      rfl

lemma heeds_lockBalance {c : Currency} : Heeds (lockBalance c) := by
  refine heeds_bind (heeds_issue rfl) fun found => ?_
  cases found with
  | some v => exact heeds_pure v
  | none => exact heeds_throw _

lemma heeds_recordJournalEntry {options : RecordJournalOptions} :
    Heeds (recordJournalEntry options) := by
  refine heeds_bind (heeds_issue rfl) fun _ => heeds_bind (heeds_issue rfl) fun _ => ?_
  refine heeds_bind (heeds_issue rfl) fun _ => heeds_bind (heeds_issue rfl) fun found => ?_
  cases found with
  | some j => exact heeds_pure j
  | none => exact heeds_throw _

lemma heeds_dropWalletCache : Heeds (dropWalletCache u) :=
  heeds_tryCatch (heeds_issue rfl) fun _ => heeds_pure ()

lemma heeds_inTransaction {failure : String} {rejected : Exn → Service Unit} {body : Service α}
    (hbody : Heeds body) (hrejected : ∀ e, Heeds (rejected e)) :
    Heeds (inTransaction failure rejected body) := by
  refine heeds_tryCatch hbody fun e => ?_
  refine heeds_bind (heeds_issue rfl) fun _ => heeds_bind (hrejected e) fun _ => ?_
  cases e <;> exact heeds_throw _

lemma heeds_acquire {action : Service α} (haction : Heeds action) :
    Heeds (acquire cfg u action) := by
  refine heeds_bind (heeds_tryCatch (heeds_issue rfl) fun _ => heeds_throw _) fun _ => ?_
  exact heeds_tryFinally haction (heeds_tryCatch (heeds_issue rfl) fun _ => heeds_pure ())

/-! ### The operations -/

lemma heeds_lookup {k : String} {f : Option JournalEntry → Service α}
    (hf : ∀ found, Heeds (f found)) : Heeds (findByIdempotencyKey u k >>= f) :=
  heeds_bind (heeds_issue rfl) hf

lemma heeds_fundWallet {currency k : String} {amount : JsNumber} :
    Heeds (fundWallet cfg u currency amount k) := by
  refine heeds_bind (heeds_immediate (immediate_requireSupported _)) fun c => ?_
  refine heeds_bind (heeds_immediate (immediate_requirePositiveInteger _)) fun a => ?_
  refine heeds_lookup fun existing => ?_
  cases existing with
  | some journal =>
    dsimp only
    split
    · exact heeds_pure _
    · exact heeds_throw _
    · exact heeds_throw _
  | none =>
    refine heeds_acquire (heeds_lookup fun replay => ?_)
    split
    · exact heeds_pure _
    refine heeds_bind heeds_findOrCreateWallet fun _ => heeds_bind (heeds_issue rfl) fun _ => ?_
    refine heeds_inTransaction ?_ fun _ => heeds_pure ()
    refine heeds_bind heeds_lockOrCreateBalance fun _ => heeds_bind heeds_lockBalance fun _ => ?_
    refine heeds_bind heeds_throwIf fun _ => heeds_bind heeds_recordJournalEntry fun _ => ?_
    refine heeds_bind (heeds_issue rfl) fun _ => heeds_bind (heeds_issue rfl) fun _ => ?_
    exact heeds_bind (heeds_issue rfl) fun _ => heeds_bind heeds_dropWalletCache fun _ =>
      heeds_pure _

/-- The rows of an exchange: `rest` is what comes after they have been locked. -/
lemma heeds_exchange {f t : Currency} {short : Option ℤ → Prop}
    [∀ found, Decidable (short found)] {e : Exn} {rest : Option ℤ → ℤ → ℤ → ℤ → Service α}
    (hrest : ∀ fromBalance toBalance houseFrom houseTo,
      Heeds (rest fromBalance toBalance houseFrom houseTo)) :
    Heeds (do
      let fromBalance ← selectForUpdate ⟨.user u, f⟩
      throwIf (short fromBalance) e
      let toBalance ← lockOrCreateBalance ⟨.user u, t⟩
      let houseFrom ← lockBalance f
      let houseTo ← lockBalance t
      rest fromBalance toBalance houseFrom houseTo) := by
  refine heeds_bind (heeds_issue rfl) fun _ => heeds_bind heeds_throwIf fun _ => ?_
  refine heeds_bind heeds_lockOrCreateBalance fun _ => heeds_bind heeds_lockBalance fun _ => ?_
  exact heeds_bind heeds_lockBalance fun _ => hrest _ _ _ _

/-- The four balances of an exchange are written. -/
lemma heeds_writes {f t : Currency} {v₁ v₂ v₃ v₄ : ℤ} {rest : Service α} (hrest : Heeds rest) :
    Heeds (do
      updateBalance ⟨.user u, f⟩ v₁
      updateBalance ⟨.user u, t⟩ v₂
      updateBalance ⟨.house, f⟩ v₃
      updateBalance ⟨.house, t⟩ v₄
      rest) := by
  refine heeds_bind (heeds_issue rfl) fun _ => heeds_bind (heeds_issue rfl) fun _ => ?_
  exact heeds_bind (heeds_issue rfl) fun _ => heeds_bind (heeds_issue rfl) fun _ => hrest

lemma heeds_convertFunds {from_ to_ k : String} {amount : JsNumber} {context : ConvertContext} :
    Heeds (convertFunds cfg u from_ to_ amount k context) := by
  refine heeds_bind heeds_throwIf fun _ => ?_
  refine heeds_bind (heeds_immediate (immediate_requireSupported _)) fun f => ?_
  refine heeds_bind (heeds_immediate (immediate_requireSupported _)) fun t => ?_
  refine heeds_bind (heeds_immediate (immediate_requirePositiveInteger _)) fun a => ?_
  refine heeds_lookup fun existing => ?_
  cases existing with
  | some journal =>
    dsimp only
    split
    · exact heeds_pure _
    · exact heeds_throw _
    · exact heeds_throw _
  | none =>
    refine heeds_acquire (heeds_bind (heeds_issue rfl) fun rates => ?_)
    refine heeds_bind (heeds_immediate (immediate_rateOf _ _)) fun _ => ?_
    refine heeds_bind (heeds_immediate (immediate_rateOf _ _)) fun _ => ?_
    refine heeds_bind heeds_throwIf fun _ => heeds_bind heeds_findOrCreateWallet fun _ => ?_
    refine heeds_bind (heeds_issue rfl) fun _ => ?_
    refine heeds_inTransaction (heeds_exchange fun _ _ _ _ => ?_) fun _ => heeds_pure ()
    refine heeds_bind heeds_throwIf fun _ => heeds_bind heeds_recordJournalEntry fun _ => ?_
    exact heeds_writes (heeds_bind (heeds_issue rfl) fun _ =>
      heeds_bind heeds_dropWalletCache fun _ => heeds_pure _)

lemma heeds_consumeQuote {q : QuoteId} : Heeds (consumeQuote q u) := by
  refine heeds_bind (heeds_tryCatch (heeds_issue rfl) fun _ => ?_) fun raw => ?_
  · refine heeds_bind (heeds_issue rfl) fun found => ?_
    cases found with
    | none => exact heeds_pure none
    | some quote => exact heeds_bind (heeds_issue rfl) fun _ => heeds_pure _
  · cases raw with
    | none => exact heeds_pure none
    | some parsed =>
      dsimp only
      split
      · refine heeds_bind (heeds_bind (heeds_issue rfl) fun time => ?_) fun _ => heeds_pure none
        dsimp only
        split
        · exact heeds_tryCatch (heeds_issue rfl) fun _ => heeds_pure ()
        · exact heeds_pure ()
      · exact heeds_pure _

lemma heeds_executeTrade {q : QuoteId} {k : String} : Heeds (executeTrade cfg u q k) := by
  refine heeds_lookup fun existing => ?_
  cases existing with
  | some journal =>
    dsimp only
    split
    · exact heeds_pure _
    · exact heeds_throw _
    · exact heeds_throw _
  | none =>
    refine heeds_bind heeds_consumeQuote fun found => ?_
    cases found with
    | none => exact heeds_throw _
    | some quote =>
      refine heeds_acquire (heeds_bind heeds_findOrCreateWallet fun _ => ?_)
      refine heeds_bind (heeds_issue rfl) fun _ => ?_
      refine heeds_inTransaction (heeds_exchange fun _ _ _ _ => ?_) fun _ => ?_
      · refine heeds_bind heeds_throwIf fun _ => heeds_bind (heeds_issue rfl) fun _ => ?_
        refine heeds_bind heeds_recordJournalEntry fun _ => heeds_writes ?_
        refine heeds_bind (heeds_issue rfl) fun _ => heeds_bind (heeds_issue rfl) fun _ => ?_
        exact heeds_bind (heeds_issue rfl) fun _ => heeds_bind heeds_dropWalletCache fun _ =>
          heeds_pure _
      · exact heeds_tryCatch (heeds_bind (heeds_issue rfl) fun _ => heeds_pure ()) fun _ =>
          heeds_pure ()

/-- Every operation inserts a row of these only right after it has found it missing. -/
lemma heeds_program (hkey : req.key.isSome) : Heeds (req.program cfg) := by
  cases req with
  | fundWallet u c a k => exact heeds_bind heeds_fundWallet fun _ => heeds_pure _
  | convertFunds u f t a k context => exact heeds_bind heeds_convertFunds fun _ => heeds_pure _
  | executeTrade u q k => exact heeds_bind heeds_executeTrade fun _ => heeds_pure _
  | _ => simp [Request.key] at hkey

end Heeds

/-! ## Nothing collides -/

/-- The row is missing in the database. -/
def Missing.In (db : Database) : Missing → Prop
  | .wallet u => u ∉ db.wallets
  | .row a => a ∉ db.rows

/-- What an answer says to be missing is missing afterwards. -/
lemma missing_respond (hserved : s.Served t l.tx c s₁ r) {x : Missing}
    (hx : missing c r = some x) : x.In s₁.db := by
  cases hserved with
  | pool c =>
    cases c with
    | findWallet u =>
      by_cases hu : u ∈ s.db.wallets
      · simp [missing, execPool, hu] at hx
      · simp only [missing, execPool, hu, decide_false, Option.some.injEq] at hx
        subst hx
        exact hu
    | findByIdempotencyKey u k | findWalletBalances u => simp [missing] at hx
    | saveWallet u | saveOrder o => simp [missing] at hx
  | @statement c y locks r htx hexec =>
    cases c with
    | selectForUpdate b =>
      simp only [execTx] at hexec
      split at hexec
      · split at hexec
        · cases hexec
        · cases hexec
          cases hx
      · rename_i hb
        split at hexec
        · cases hexec
          cases hx
        · cases hexec
          obtain rfl := Option.some.inj hx
          exact hb
    | _ => simp [missing] at hx
  | failed c e =>
    cases c with
    | pool c => cases c <;> cases hx
    | tx c => cases c <;> cases hx
    | _ => cases hx
  | _ => simp [missing] at hx

/-- A row that is missing can be inserted, and so can a journal under a key that is free. -/
lemma not_collides (h : Reachable cfg s) {k : Except Exn c.Ret → Service Response}
    (hth : s.threads t = some ⟨l, .call c k, true⟩) (hinserts : ∀ x, c.inserts = some x → x.In s.db)
    (hjournal : ∀ j, c = .tx (.insertJournal j) →
      s.db.findByIdempotencyKey j.userId j.idempotencyKey = none) :
    ¬ ∃ s₁, s.exec t l.tx c = some (s₁, .error .uniqueViolation) := by
  rintro ⟨s₁, hexec⟩
  have hinv := inv_of_reachable h
  have hguard := hinv.guard hth
  rcases Sys.exec_error hguard (rowGuard_of_reachable h hth) hexec with
    ⟨h, -⟩ | ⟨-, hcollide⟩ | ⟨h, -⟩
  · cases h
  · cases c with
    | pool c =>
      cases c with
      | saveWallet u =>
        have hu : u ∉ s.db.wallets := hinserts _ rfl
        simp [Sys.exec, execPool, hu] at hexec
      | _ => exact hcollide
    | tx c =>
      obtain ⟨tx, htx, haborted, hguard⟩ := hguard
      rw [htx, Sys.exec_tx haborted] at hexec
      obtain ⟨⟨locks, r⟩, hstatement, heq⟩ := Option.map_eq_some_iff.mp hexec
      obtain rfl : r = .error .uniqueViolation := (Prod.mk.inj heq).2
      cases c with
      | insertBalance a =>
        have ha : a ∉ s.db.rows := hinserts _ rfl
        have hcreated : a ∉ tx.created := Tx.notMem_created hguard.1.notMem
        simp only [execTx, ha, hcreated, or_self, if_false] at hstatement
        split at hstatement <;> cases hstatement
      | insertJournal j =>
        have hfree := hjournal j rfl
        have hown : s.locks.keys (j.userId, j.idempotencyKey) ≠ some t := by
          intro hheld
          obtain ⟨tx', htx', hmem⟩ := (hinv.ledger.keyLocks _ t).mp hheld
          obtain rfl := Option.some.inj (((Sys.txOf_eq hth).trans htx).symm.trans htx')
          rw [hguard.2.2.1] at hmem
          cases hmem
        simp only [execTx, hfree, Option.isSome_none, hown, or_self, Bool.false_eq_true,
          if_false] at hstatement
        split at hstatement
        · cases hstatement
        · split at hstatement <;> cases hstatement
      | _ => exact hcollide
    | _ => exact hcollide
  · cases h

/-! ## What has changed since -/

/-- What a call that is left alone has made of the state that it has begun with. -/
inductive Since (s₁ : Sys) (t : Tid) (s₂ : Sys) : Prop
  | untouched (hrows : s₂.db.rows = s₁.db.rows) (hamount : s₂.db.amount = s₁.db.amount)
      (hjournals : s₂.db.journals = s₁.db.journals) (hcommits : s₂.commits = s₁.commits)
  | booked {tx : Tx} {j : JournalEntry} (hcommit : (t, tx) ∈ s₂.commits)
      (hjournals : tx.journals = [j]) (hbook : s₁.db.bank.book j.instruction = .ok s₂.db.bank)

lemma bank_eq_of {db db' : Database} (hamount : db'.amount = db.amount)
    (hjournals : db'.journals = db.journals) : db'.bank = db.bank := by
  rw [Database.bank, Database.bank, hamount, hjournals]

/-- What a look-up of a key is answered. -/
lemma found_of_served {tx : Option Tx} {u : UserId} {k : String}
    {r : Except Exn (Cmd.pool (.findByIdempotencyKey u k)).Ret} {found : Option JournalEntry}
    (hserved : s.Served t tx (.pool (.findByIdempotencyKey u k)) s₁ r) (hr : r = .ok found) :
    s.db.findByIdempotencyKey u k = found := by
  cases hserved with
  | pool c => exact Except.ok.inj hr
  | failed c e => cases hr

namespace Span

variable {es₁ es₂ : List Event}

/-- A solo step is one of the thread. -/
lemma solo_step (hsolo : Solo t e) (hstep : s.step cfg e = some s') :
    ∃ l c k choice s₁, ∃ r : Except Exn c.Ret, e = .run t choice ∧
      s.threads t = some ⟨l, .call c k, true⟩ ∧ s.respond t l.tx c choice = some (s₁, r) ∧
      s' = s₁.setThread t ⟨l.after s.seq c r, k r, true⟩ := by
  cases Sys.step_of_eq hstep with
  | spawn req => exact hsolo.elim
  | @run t' choice l c k s₁ r hth hrespond =>
    obtain rfl : t' = t := by
      cases choice with
      | ok => exact hsolo
      | fail => exact hsolo.elim
      | rates r => exact hsolo
    exact ⟨l, c, k, choice, s₁, r, rfl, hth, hrespond, rfl⟩
  | crash hth => exact hsolo.elim
  | tick ms => exact hsolo.elim

/-- Nothing changes before the call commits, and nothing afterwards. -/
lemma since (h : Span cfg s₀ req s₁ es s th) (hsolo : ∀ e ∈ es, Solo s₀.seq e)
    (hes : es = es₁ ++ es₂) (hrun : runAll (Sys.step cfg) anyStep s₁ es₁ = some s₂) :
    Since s₁ s₀.seq s₂ := by
  refine invariant_of_runAll (I := Since s₁ s₀.seq) hrun (.untouched rfl rfl rfl rfl)
    fun es₃ e es₄ s₃ s₄ hes₁ hrun₁ hI hstep => ?_
  have hreach := h.reachable_of_runAll hrun₁
  obtain ⟨l, c, k, choice, s₃', r, rfl, hth, hrespond, rfl⟩ :=
    solo_step (hsolo e (by simp [hes, hes₁])) hstep
  have hbank := bank_step hreach hstep
  cases hI with
  | untouched hrows hamount hjournals hcommits =>
    rcases hbank with ⟨-, hsame⟩ | ⟨t', choice', tx, j, heq, hcarries⟩
    · cases (inv_of_reachable hreach).booking hth (Sys.served_of_eq hrespond) with
      | none hrows' hamount' hjournals' hcommits' =>
        exact .untouched (hrows'.trans hrows) (hamount'.trans hamount)
          (hjournals'.trans hjournals) (hcommits'.trans hcommits)
      | commit htx hbooks hdb hcommits' hl' =>
        exact absurd (hcommits'.symm.trans hsame) (by simp)
    · obtain ⟨rfl, -⟩ := Event.run.inj heq
      refine .booked (by rw [hcarries.commits]; simp) hcarries.journals ?_
      rw [← bank_eq_of hamount hjournals]
      exact hcarries.book
  | booked hcommit hjournals hbook =>
    rcases hbank with ⟨hsame, hcommits⟩ | ⟨t', choice', tx', j', heq, hcarries⟩
    · exact .booked (hcommits ▸ hcommit) hjournals (hsame ▸ hbook)
    · -- a call commits once
      obtain ⟨rfl, -⟩ := Event.run.inj heq
      have hnodup := (history_of_reachable (hreach.tail trivial hstep)).nodup
      rw [hcarries.commits, List.map_append, List.nodup_append] at hnodup
      exact absurd rfl (hnodup.2.2 _ (List.mem_map_of_mem hcommit) _ (List.mem_singleton_self _))

/-- What the call has found missing is missing, and so is the journal under its key, until it
commits. -/
lemma careful (h : Span cfg s₀ req s₁ es s th) (hsolo : ∀ e ∈ es, Solo s₀.seq e)
    (hkey : req.key.isSome) (hes : es = es₁ ++ es₂)
    (hrun : runAll (Sys.step cfg) anyStep s₁ es₁ = some s₂) {p : Service Response}
    (hth : s₂.threads s₀.seq = some ⟨l, p, true⟩) :
    l.req = req ∧ (∃ m, p.wp noting (fun _ _ => True) m ∧ ∀ x, m = some x → x.In s₂.db) ∧
      (l.trail.missed = true → ∀ k, req.key = some k →
        s₁.db.findByIdempotencyKey req.userId k = none ∨ ∃ tx, (s₀.seq, tx) ∈ s₂.commits) := by
  refine invariant_of_runAll (I := fun s₂ => ∀ l p, s₂.threads s₀.seq = some ⟨l, p, true⟩ →
    l.req = req ∧ (∃ m, p.wp noting (fun _ _ => True) m ∧ ∀ x, m = some x → x.In s₂.db) ∧
      (l.trail.missed = true → ∀ k, req.key = some k →
        s₁.db.findByIdempotencyKey req.userId k = none ∨ ∃ tx, (s₀.seq, tx) ∈ s₂.commits))
    hrun (fun l p hth => ?_) (fun es₃ e es₄ s₃ s₄ hes₁ hrun₁ hI hstep l p hth => ?_) l p hth
  · rw [h.spawned, Sys.setThread_self] at hth
    obtain ⟨rfl, rfl, -⟩ := Thread.mk.inj (Option.some.inj hth)
    exact ⟨rfl, ⟨none, heeds_program hkey none, by simp⟩, by simp⟩
  · have hreach := h.reachable_of_runAll hrun₁
    have hsplit : es = es₃ ++ (e :: es₄ ++ es₂) := by rw [hes, hes₁, List.append_assoc]
    have hsince := h.since hsolo hsplit hrun₁
    have hmono (tx : Tx) (htx : (s₀.seq, tx) ∈ s₃.commits) : (s₀.seq, tx) ∈ s₄.commits :=
      commits_mono (Transition.Runs.refl.tail trivial hstep) htx
    obtain ⟨l₀, c, k, choice, s₃', r, rfl, hth₀, hrespond, rfl⟩ :=
      solo_step (hsolo e (by simp [hes, hes₁])) hstep
    rw [Sys.setThread_self] at hth
    obtain ⟨rfl, rfl, -⟩ := Thread.mk.inj (Option.some.inj hth)
    obtain ⟨hreq, ⟨m, hwp, -⟩, hmissed⟩ := hI _ _ hth₀
    have hserved := Sys.served_of_eq hrespond
    refine ⟨Local.after_req.trans hreq, ⟨missing c r, hwp.2 r _ rfl, fun x hx =>
      missing_respond hserved hx⟩, fun hafter key hreqkey => ?_⟩
    have hkept (hold : l₀.trail.missed = true) :
        s₁.db.findByIdempotencyKey req.userId key = none ∨
          ∃ tx, (s₀.seq, tx) ∈ (s₃'.setThread s₀.seq ⟨l₀.after s₃.seq c r, k r, true⟩).commits :=
      (hmissed hold key hreqkey).imp_right fun htx => htx.imp hmono
    by_cases hlookup : ∃ u k', c = .pool (.findByIdempotencyKey u k')
    · obtain ⟨u, k', rfl⟩ := hlookup
      obtain ⟨rfl, hkey', -⟩ := (inv_of_reachable hreach).guard hth₀
      obtain rfl : key = k' := Option.some.inj (hreqkey.symm.trans (hreq ▸ hkey'))
      cases r with
      | error x => exact hkept hafter
      | ok found =>
        simp only [Local.after, Local.afterOk] at hafter
        split at hafter
        · exact hkept hafter
        · -- the look-up has found nothing
          obtain rfl : found = none := Option.isNone_iff_eq_none.mp hafter
          have hnone : s₃.db.findByIdempotencyKey req.userId key = none := by
            rw [← hreq]
            exact found_of_served hserved rfl
          cases hsince with
          | untouched hrows hamount hjournals hcommits =>
            left
            rw [Database.findByIdempotencyKey, hjournals] at hnone
            exact hnone
          | booked hcommit hjournals hbook => exact .inr ⟨_, hmono _ hcommit⟩
    · push Not at hlookup
      rw [(Local.after_missed hlookup).1] at hafter
      exact hkept hafter

/-- The database refuses a row of the call for its constraints. -/
def RefusesRow (t : Tid) (s : Sys) (e : Event) : Prop :=
  ∃ l c k choice, e = .run t choice ∧ s.threads t = some ⟨l, .call c k, true⟩ ∧
    c.checks = false

/-- Where a call that is left alone has not committed, all that can hinder it is the constraint
on a row. -/
lemma refusesRow_of_hindered (h : Span cfg s₀ req s₁ es s th) (hsolo : ∀ e ∈ es, Solo s₀.seq e)
    (hkey : req.key.isSome) (hes : es = es₁ ++ e :: es₂)
    (hrun : runAll (Sys.step cfg) anyStep s₁ es₁ = some s₂)
    (hhindered : s₂.Hindered s₀.seq e) : RefusesRow s₀.seq s₂ e := by
  obtain ⟨l, c, k, choice, s₃, x, rfl, hth, htried, hrespond⟩ := hhindered
  refine ⟨l, c, k, choice, rfl, hth, ?_⟩
  have hreach := h.reachable_of_runAll hrun
  have hinv := inv_of_reachable hreach
  have hhist := history_of_reachable hreach
  obtain ⟨hreq, ⟨m, hwp, hm⟩, hmissed⟩ := h.careful hsolo hkey hes hrun hth
  have hexec : s₂.exec s₀.seq l.tx c = some (s₃, .error x) := by
    have halone : Solo s₀.seq (.run s₀.seq choice) := hsolo _ (by simp [hes])
    cases choice with
    | ok => exact hrespond
    | fail => exact halone.elim
    | rates rates =>
      cases c with
      | getRates => cases hrespond
      | _ => cases hrespond
  rcases Sys.exec_error (hinv.guard hth) (rowGuard_of_reachable hreach hth) hexec with
    ⟨rfl, hstatement⟩ | ⟨rfl, -⟩ | ⟨-, hchecks⟩
  · -- of the commands to Redis only those fail whose failure is caught
    cases c with
    | redis c =>
      obtain ⟨⟨redis, r⟩, hredis, heq⟩ := Option.map_eq_some_iff.mp hexec
      obtain rfl : r = .error .unavailable := (Prod.mk.inj heq).2
      cases c with
      | release u => cases htried
      | acquire u ttl =>
        simp only [execRedis] at hredis
        split at hredis <;> cases hredis
      | _ => cases hredis
    | getRates | now | uuid => cases hexec
    | _ => exact absurd trivial hstatement
  · refine absurd ⟨s₃, hexec⟩ (not_collides hreach hth (fun x hx => hm x (hwp.1 x hx)) ?_)
    rintro j rfl
    obtain ⟨tx, htx, -, huser, hk, -, hcommitted⟩ := hinv.guard hth
    rw [hreq] at huser hk
    have huncommitted (tx' : Tx) : (s₀.seq, tx') ∉ s₂.commits := by
      intro hcommit
      obtain ⟨th', -, hth', hbooked, -⟩ := hhist.booked _ hcommit
      obtain rfl := Option.some.inj (hth.symm.trans hth')
      rw [hhist.booked_eq_none hth htx] at hbooked
      cases hbooked
    rcases hmissed hcommitted.1 _ hk with hnone | ⟨tx', hcommit⟩
    · cases h.since hsolo hes hrun with
      | untouched hrows hamount hjournals hcommits =>
        rw [huser, Database.findByIdempotencyKey, hjournals]
        exact hnone
      | booked hcommit hjournals hbook => exact absurd hcommit (huncommitted _)
    · exact absurd hcommit (huncommitted tx')
  · exact hchecks

/-- What was so, while the balances were as they were at first. -/
def soloEvidence (cfg : Config) (s : Sys) (es : List Event) (t : Tid) : Evidence where
  seen P := Passes (Sys.step cfg) anyStep s es fun s₂ => s₂.db.amount = s.db.amount ∧ P s₂
  hindered := Takes (Sys.step cfg) anyStep s es fun s₂ e _ => RefusesRow t s₂ e
  mono hPQ h := h.mono fun s₂ hs₂ => ⟨hs₂.1, hPQ s₂ hs₂.2⟩

end Span

/-- A call that begins where no lock is held, and is left alone, comes to its answer, and the
answer is exact: a success is what the bank does with the instruction on the state before, or the
journal was there already; a failure leaves everything as it was, and its cause is that the bank
refuses the instruction on that state, that the call has nothing valid to ask for, or a row that
the database refuses. -/
theorem left_alone (h₀ : Reachable cfg s₀) (hrows : ∀ a, s₀.locks.rows a = none)
    (hkeys : ∀ key, s₀.locks.keys key = none)
    (hfree : Custody.live (s₀.redis.locks req.userId) s₀.now = none)
    (hspawn : s₀.step cfg (.spawn req) = some s₁) (hkey : req.key.isSome) :
    (∀ rates es s, (∀ e ∈ es, Solo s₀.seq e) → runAll (Sys.step cfg) anyStep s₁ es = some s →
      ∃ es' s' th, (∀ e ∈ es', e = .run s₀.seq .ok ∨ e = .run s₀.seq (.rates rates)) ∧
        runAll (Sys.step cfg) anyStep s es' = some s' ∧ s'.threads s₀.seq = some th ∧
        th.answer.isSome) ∧
    ∀ es s th, (∀ e ∈ es, Solo s₀.seq e) → Span cfg s₀ req s₁ es s th →
      (∀ r, th.operation = some r →
        s₀.db.bank.book r.journal.instruction = .ok s.db.bank ∨
        (s.db.bank = s₀.db.bank ∧ r.journal ∈ s₀.db.journals ∧
          req.key = some r.journal.idempotencyKey)) ∧
      ∀ x, th.failure = some x → s.db.bank = s₀.db.bank ∧
        Cause (Span.soloEvidence cfg s₁ es s₀.seq) req th.state.trail.hand th.state.trail.rates
          x := by
  have hreach : Reachable cfg s₁ := h₀.tail trivial hspawn
  have hspawned : s₁ = s₀.setThread s₀.seq { state := { req }, prog := req.program cfg } :=
    (Option.some.inj hspawn).symm
  refine ⟨fun rates es s hsolo hrun => ?_, fun es s th hsolo h => ?_⟩
  · have hkeep : ∃ l p, s.threads s₀.seq = some ⟨l, p, true⟩ ∧ s.Quiet s₀.seq l := by
      refine invariant_of_runAll (I := fun s => ∃ l p, s.threads s₀.seq = some ⟨l, p, true⟩ ∧
        s.Quiet s₀.seq l) hrun ?_ fun es₁ e es₂ s₂ s₃ hes hrun₁ hI hstep => ?_
      · refine ⟨{ req }, req.program cfg, by rw [hspawned, Sys.setThread_self], ?_⟩
        rw [hspawned]
        refine ⟨fun a t' ht' => ?_, fun key t' ht' => ?_, fun _ => hfree⟩
        · exact absurd ((hrows a).symm.trans ht') (by simp)
        · exact absurd ((hkeys key).symm.trans ht') (by simp)
      · obtain ⟨l, p, hth, hquiet⟩ := hI
        obtain ⟨l₀, c, k, choice, s₂', r, rfl, hth₀, hrespond, rfl⟩ :=
          Span.solo_step (hsolo e (by simp [hes])) hstep
        obtain ⟨rfl, rfl, -⟩ := Thread.mk.inj (Option.some.inj (hth.symm.trans hth₀))
        have hinv := inv_of_reachable (hreach.trans (runs_of_runAll hrun₁))
        exact ⟨_, _, Sys.setThread_self _, hquiet.respond (hinv.guard hth₀) hrespond⟩
    obtain ⟨l, p, hth, hquiet⟩ := hkeep
    exact exists_answer_of_quiet (hreach.trans (runs_of_runAll hrun)) hth hquiet rates
  · have hbank : s₁.db.bank = s₀.db.bank := by rw [hspawned]; rfl
    have hreach' := h.reachable_of_runAll h.run
    have hhist := history_of_reachable hreach'
    have hcommitted {tx : Tx} (hcommit : (s₀.seq, tx) ∈ s.commits) :
        th.state.trail.booked = some tx := by
      obtain ⟨th', -, hth', hbooked, -⟩ := hhist.booked _ hcommit
      obtain rfl := Option.some.inj (h.thread.symm.trans hth')
      exact hbooked
    -- where the call has booked nothing, nothing has changed at any time
    have huntouched (hnone : th.state.trail.booked = none) {es₁ es₂ : List Event} {s₂ : Sys}
        (hes : es = es₁ ++ es₂) (hrun : runAll (Sys.step cfg) anyStep s₁ es₁ = some s₂) :
        s₂.db.amount = s₁.db.amount ∧ s₂.db.journals = s₁.db.journals := by
      cases h.since hsolo hes hrun with
      | untouched hrows hamount hjournals hcommits => exact ⟨hamount, hjournals⟩
      | booked hcommit hjournals hbook =>
        have hlater : Transition.Runs (Sys.step cfg) anyStep s₂ s := by
          have hall := h.run
          rw [hes, runAll_append, hrun] at hall
          exact runs_of_runAll hall
        exact absurd ((hcommitted (commits_mono hlater hcommit)).symm.trans hnone) (by simp)
    have hkept (hnone : th.state.trail.booked = none) : s.db.bank = s₀.db.bank := by
      obtain ⟨hamount, hjournals⟩ := huntouched hnone (List.append_nil es).symm h.run
      exact (bank_eq_of hamount hjournals).trans hbank
    refine ⟨fun r hr => ?_, fun x hx => ?_⟩
    · have hanswer := Thread.answer_of_operation hr
      obtain ⟨-, -, -, ⟨tx, hbooked, hjournals⟩ | ⟨hnone, hfound⟩⟩ :=
        (inv_of_reachable hreach').answer h.thread hanswer
      · left
        rw [← hbank]
        cases h.since hsolo (List.append_nil es).symm h.run with
        | untouched hrows hamount hjournals hcommits =>
          have hcommit := (hhist.closed _ th tx h.thread hbooked).2
          rw [hcommits] at hcommit
          exact absurd hcommit (h.not_committed tx)
        | booked hcommit hjournals' hbook =>
          obtain rfl := Option.some.inj (hbooked.symm.trans (hcommitted hcommit))
          rw [hjournals'] at hjournals
          obtain rfl := List.singleton_inj.mp hjournals
          exact hbook
      · obtain ⟨-, hk, es₁, es₂, s₂, hes, hrun, hmem⟩ :=
          h.found hfound (Span.alive_of_answer hanswer)
        rw [(huntouched hnone hes hrun).2, hspawned] at hmem
        exact .inr ⟨hkept hnone, hmem, hk⟩
    · obtain ⟨-, hnone, -⟩ := (inv_of_reachable hreach').answer h.thread
        (Thread.answer_of_failure hx)
      refine ⟨hkept hnone, h.cause hkey hx (fun es₁ es₂ s₂ P hes hrun hP =>
        ⟨es₁, es₂, s₂, hes, hrun, (huntouched hnone hes hrun).1, hP⟩) ?_⟩
      intro es₁ e es₂ s₂ s₃ hes hrun hstep hhindered
      exact ⟨es₁, e, es₂, s₂, s₃, hes, hrun, hstep,
        h.refusesRow_of_hindered hsolo hkey hes hrun hhindered⟩

/-- The first call of all, a funding. -/
theorem left_alone_funded : ∃ s₁ s th r,
    Span {} .initial (.fundWallet 1 "USD" (.integer 500) "k") s₁ (serve 1 18) s th ∧
    th.operation = some r ∧
    Sys.initial.db.bank.book r.journal.instruction = .ok s.db.bank := by
  have hplay : ((Sys.initial.step {} (.spawn (.fundWallet 1 "USD" (.integer 500) "k"))).any
      fun s₁ => (runAll (Sys.step {}) anyStep s₁ (serve 1 18)).any fun s =>
        (s.threads 1).any fun th => th.operation.isSome) = true := by decide +kernel
  simp only [Option.any_eq_true, Option.isSome_iff_exists] at hplay
  obtain ⟨s₁, hspawn, s, hrun, th, hth, r, hr⟩ := hplay
  have hspan : Span {} .initial (.fundWallet 1 "USD" (.integer 500) "k") s₁ (serve 1 18) s th :=
    ⟨.refl, hspawn, hrun, hth⟩
  have hsolo : ∀ e ∈ serve 1 18, Solo Sys.initial.seq e := by
    intro e he
    obtain rfl := List.eq_of_mem_replicate he
    exact rfl
  have hexact := (left_alone .refl (fun _ => rfl) (fun _ => rfl) rfl hspawn rfl).2 _ s th hsolo
    hspan
  refine ⟨s₁, s, th, r, hspan, hr, ?_⟩
  rcases hexact.1 r hr with hbook | ⟨-, hmem, -⟩
  · exact hbook
  · cases hmem

end FxExchange
