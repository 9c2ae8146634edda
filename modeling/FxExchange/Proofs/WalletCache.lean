import FxExchange.Proofs.Atomicity

/-
# The wallet cache

`getWallet` answers from Redis where it can; otherwise it reads the database and stores what
it has read.  An operation drops the stored wallet after its commit.  What is stored is
up to date: the database has had these balances since the operations that are over.  It stays so
as long as nobody stands between its reading and its storing with old balances while the
cache is dropped, and nobody learns of a booking whose operation has not dropped it yet.
-/

namespace FxExchange

open Service Transition
open Prog (Issues wp_bind wp_mono wp_command wp_tryCatch wp_tryFinally wp_of_issues tryCatch)

variable {cfg : Config} {s s' s₀ s₁ : Sys} {t : Tid} {e : Event} {u : UserId}
  {w : WalletResponse} {α β : Type}

/-! ## What makes the cache stale -/

namespace Cmd

/-- The command drops the stored wallet of the user. -/
def drops (u : UserId) : Cmd → Bool
  | .redis (.delWallet u') => u' = u
  | _ => false

/-- What the command stores as the wallet of the user. -/
def stores (u : UserId) : Cmd → Option WalletResponse
  | .redis (.setWallet u' w _) => if u' = u then some w else none
  | _ => none

/-- The key of the user that the command looks up. -/
def looksUp (u : UserId) : Cmd → Option String
  | .pool (.findByIdempotencyKey u' k) => if u' = u then some k else none
  | _ => none

end Cmd

namespace Sys

/-- The balances are those of the database. -/
abbrev Current (s : Sys) (u : UserId) (w : WalletResponse) : Prop :=
  ∀ c ∈ supportedCurrencies, w.balances c = s.db.balancesOf u c

/-- Whoever is about to store a wallet of the user has the balances of the database. -/
abbrev PendingCurrent (s : Sys) (u : UserId) : Prop :=
  ∀ t < s.seq, ∀ th ∈ s.threads t, ∀ w ∈ th.next.bind (Cmd.stores u), s.Current u w

/-- The stored wallet, if there is one, has the balances of the database. -/
abbrev StoredCurrent (s : Sys) (u : UserId) : Prop :=
  ∀ w ∈ Custody.live (s.redis.wallets u) s.now, s.Current u w

/-- An operation of the user with this key is about to drop the stored wallet. -/
abbrev Undropped (s : Sys) (u : UserId) (k : String) : Prop :=
  ∃ t < s.seq, ∃ th ∈ s.threads t, th.state.req.userId = u ∧ th.state.req.key = some k ∧
    th.next.any (Cmd.drops u) = true

/-- The command does not drop the stored wallet of the user while somebody is about to store
old balances; and it does not look up a key whose operation is about to drop the stored
wallet while old balances are stored or about to be. -/
def KeepsCoherent (s : Sys) (u : UserId) (c : Cmd) : Prop :=
  (c.drops u = true → s.PendingCurrent u) ∧
    ∀ k ∈ c.looksUp u, s.Undropped u k → s.PendingCurrent u ∧ s.StoredCurrent u

instance (s : Sys) (u : UserId) (c : Cmd) : Decidable (s.KeepsCoherent u c) :=
  inferInstanceAs (Decidable (_ ∧ _))

end Sys

/-- The wallet cache of the user is kept coherent, and nothing goes wrong with a drop of the
stored wallet. -/
def Coherent (u : UserId) (s : Sys) : Event → Prop
  | .run t .fail => ∀ c ∈ s.next t, s.KeepsCoherent u c ∧ c.drops u = false
  | .run t _ => ∀ c ∈ s.next t, s.KeepsCoherent u c
  | .crash t => ∀ c ∈ s.next t, c.drops u = false
  | _ => True

instance (u : UserId) (s : Sys) : DecidablePred (Coherent u s)
  | .run t .fail => inferInstanceAs (Decidable (∀ c ∈ s.next t, _ ∧ _))
  | .run t .ok => inferInstanceAs (Decidable (∀ c ∈ s.next t, _))
  | .run t (.rates _) => inferInstanceAs (Decidable (∀ c ∈ s.next t, _))
  | .crash t => inferInstanceAs (Decidable (∀ c ∈ s.next t, _))
  | .spawn _ => isTrue trivial
  | .tick _ => isTrue trivial

lemma Coherent.run {choice : Choice} (h : Coherent u s (.run t choice)) {c : Cmd}
    (hc : s.next t = some c) :
    s.KeepsCoherent u c ∧ (c.drops u = true → choice ≠ .fail) := by
  cases choice with
  | fail =>
    obtain ⟨hkeeps, hdrops⟩ := h c hc
    refine ⟨hkeeps, fun htrue => ?_⟩
    rw [hdrops] at htrue
    cases htrue
  | _ => exact ⟨h c hc, fun _ => Choice.noConfusion⟩

/-! ## The operations -/

/-- How far an operation is: its caller has a wallet for sure, it has committed and not
dropped the stored wallet yet. -/
inductive Stage
  | start | ready | committed
  deriving DecidableEq

namespace Stage

/-- What is issued at a stage. -/
def allows (u : UserId) : Stage → Cmd → Prop
  | x, .redis (.delWallet u') => x = .committed ∧ u' = u
  | x, .commit => x = .ready
  | x, _ => x ≠ .committed

/-- The stage after a command and its answer. -/
def after : Stage → (c : Cmd) → Except Exn c.Ret → Stage
  | _, .pool (.findWallet _), .ok true => .ready
  | _, .pool (.saveWallet _), .ok _ => .ready
  | _, .commit, .ok _ => .committed
  | .committed, .redis (.delWallet _), _ => .ready
  | x, _, _ => x

end Stage

/-- The wallet row comes before the transaction, and the drop of the stored wallet
immediately after it. -/
def writing (u : UserId) : Discipline Cmd.Ret Exn Stage where
  guard := Stage.allows u
  outcome x c r x' := x' = x.after c r

/-- Nothing is left to drop. -/
def Dropped (x : Stage) (_ : Except Exn α) : Prop := x ≠ .committed

/-- The commands that do not matter for the stage of an operation. -/
def Cmd.neutral : Cmd → Bool
  | .pool (.findWallet _) => false
  | .pool (.saveWallet _) => false
  | .commit => false
  | .redis (.delWallet _) => false
  | _ => true

section Writing

variable {x : Stage}

lemma Stage.of_neutral {c : Cmd} (hc : c.neutral = true) (hx : x ≠ .committed) :
    x.allows u c ∧ ∀ r, x.after c r = x := by
  cases c with
  | pool c =>
    cases c <;>
      first
      | exact absurd hc Bool.false_ne_true
      | exact ⟨hx, fun r => by cases x <;> rfl⟩
  | redis c =>
    cases c <;>
      first
      | exact absurd hc Bool.false_ne_true
      | exact ⟨hx, fun r => by cases x <;> rfl⟩
  | commit => cases hc
  | _ => exact ⟨hx, fun r => by cases x <;> rfl⟩

lemma Stage.start_after_error {c : Cmd} {e : Exn} : start.after c (.error e) = .start := by
  cases c <;> (try rename_i c; cases c) <;> rfl

/-- A neutral program keeps the stage. -/
lemma wp_neutral {p : Service α} (hp : p.Issues fun c => c.neutral = true)
    (hx : x ≠ .committed) : p.wp (writing u) (fun x' _ => x' = x) x := by
  refine wp_of_issues (I := fun x' => x' = x) hp rfl ?_
  rintro _ c hc rfl
  obtain ⟨hallows, hafter⟩ := Stage.of_neutral hc hx
  exact ⟨hallows, fun r x' hx' => hx'.trans (hafter r)⟩

lemma wp_neutral_bind {p : Service α} {f : α → Service β}
    (hp : p.Issues fun c => c.neutral = true) (hx : x ≠ .committed)
    (hf : ∀ a, (f a).wp (writing u) Dropped x) : (p >>= f).wp (writing u) Dropped x := by
  refine wp_bind.mpr (wp_mono (fun x' r hx' => ?_) (wp_neutral hp hx))
  subst hx'
  cases r with
  | ok a => exact hf a
  | error e => exact hx

/-- The end of a transaction. -/
lemma wp_commit_drop {a : α} :
    (commitTransaction >>= fun _ => dropWalletCache u >>= fun _ => (Pure.pure a : Service α)).wp
      (writing u) Dropped .ready := by
  refine wp_bind.mpr (wp_command.mpr ⟨rfl, ?_⟩)
  rintro (e | ⟨⟩) x' rfl
  · exact Stage.noConfusion
  · refine wp_bind.mpr (wp_tryCatch.mpr (wp_command.mpr ⟨⟨rfl, rfl⟩, ?_⟩))
    rintro (e | a) x'' rfl <;> exact Stage.noConfusion

lemma wp_findOrCreate {f : Unit → Service β} (hx : x ≠ .committed)
    (hf : (f ()).wp (writing u) Dropped .ready) :
    (findOrCreateWallet u >>= f).wp (writing u) Dropped x := by
  refine wp_bind.mpr (wp_bind.mpr (wp_command.mpr ⟨hx, ?_⟩))
  rintro (e | found) x' rfl
  · exact hx
  cases found with
  | true => exact hf
  | false =>
    refine wp_command.mpr ⟨hx, ?_⟩
    rintro (e | a) x'' rfl
    · exact hx
    · exact hf

lemma wp_transaction {failure : String} {rejected : Exn → Service Unit} {body : Service α}
    (hrejected : ∀ e, (rejected e).Issues fun c => c.neutral = true)
    (hbody : body.wp (writing u) Dropped x) :
    (inTransaction failure rejected body).wp (writing u) Dropped x := by
  refine wp_tryCatch.mpr (wp_mono (fun x' r hx' => ?_) hbody)
  cases r with
  | ok a => exact hx'
  | error e =>
    refine wp_neutral_bind (Prog.issues_command rfl) hx' fun _ => ?_
    refine wp_neutral_bind (hrejected e) hx' fun _ => ?_
    cases e <;> exact hx'

lemma wp_locked {action : Service α} (hx : x ≠ .committed)
    (haction : action.wp (writing u) Dropped x) :
    (acquire cfg u action).wp (writing u) Dropped x := by
  refine wp_neutral_bind (Prog.issues_tryCatch (Prog.issues_command rfl) fun _ => trivial) hx
    fun _ => ?_
  refine wp_tryFinally.mpr (wp_mono (fun x' r hx' => ?_) haction)
  refine wp_mono (fun x'' r' hx'' => ?_) (wp_neutral (u := u)
    (Prog.issues_tryCatch (Prog.issues_command rfl) fun _ => trivial) hx')
  subst hx''
  cases r' <;> exact hx'

end Writing

lemma writing_fundWallet {currency : String} {amount : JsNumber} {k : String} :
    (fundWallet cfg u currency amount k).wp (writing u) Dropped .start := by
  have hstart : Stage.start ≠ .committed := Stage.noConfusion
  have hready : Stage.ready ≠ .committed := Stage.noConfusion
  refine wp_neutral_bind issues_requireSupported hstart fun c => ?_
  refine wp_neutral_bind issues_requirePositiveInteger hstart fun a => ?_
  refine wp_neutral_bind (Prog.issues_command rfl) hstart fun existing => ?_
  cases existing with
  | some journal => dsimp only; split <;> exact hstart
  | none =>
    refine wp_locked hstart (wp_neutral_bind (Prog.issues_command rfl) hstart fun replay => ?_)
    split
    · exact hstart
    refine wp_findOrCreate hstart (wp_neutral_bind (Prog.issues_command rfl) hready fun _ => ?_)
    refine wp_transaction (fun _ => trivial) ?_
    have htx (c : TxCmd) : (Cmd.tx c).neutral = true := rfl
    refine wp_neutral_bind (issues_lockOrCreateBalance htx) hready fun _ => ?_
    refine wp_neutral_bind (issues_lockBalance htx) hready fun _ => ?_
    refine wp_neutral_bind Prog.issues_throwIf hready fun _ => ?_
    refine wp_neutral_bind (issues_recordJournalEntry htx) hready fun _ => ?_
    refine wp_neutral_bind (Prog.issues_command rfl) hready fun _ => ?_
    refine wp_neutral_bind (Prog.issues_command rfl) hready fun _ => ?_
    exact wp_commit_drop

lemma writing_convertFunds {from_ to_ : String} {amount : JsNumber} {k : String}
    {context : ConvertContext} :
    (convertFunds cfg u from_ to_ amount k context).wp (writing u) Dropped .start := by
  have hstart : Stage.start ≠ .committed := Stage.noConfusion
  have hready : Stage.ready ≠ .committed := Stage.noConfusion
  refine wp_neutral_bind Prog.issues_throwIf hstart fun _ => ?_
  refine wp_neutral_bind issues_requireSupported hstart fun f => ?_
  refine wp_neutral_bind issues_requireSupported hstart fun t => ?_
  refine wp_neutral_bind issues_requirePositiveInteger hstart fun a => ?_
  refine wp_neutral_bind (Prog.issues_command rfl) hstart fun existing => ?_
  cases existing with
  | some journal => dsimp only; split <;> exact hstart
  | none =>
    refine wp_locked hstart (wp_neutral_bind (Prog.issues_command rfl) hstart fun rates => ?_)
    refine wp_neutral_bind issues_rateOf hstart fun _ => ?_
    refine wp_neutral_bind issues_rateOf hstart fun _ => ?_
    refine wp_neutral_bind Prog.issues_throwIf hstart fun _ => ?_
    refine wp_findOrCreate hstart (wp_neutral_bind (Prog.issues_command rfl) hready fun _ => ?_)
    refine wp_transaction (fun _ => trivial) ?_
    have htx (c : TxCmd) : (Cmd.tx c).neutral = true := rfl
    refine wp_neutral_bind (Prog.issues_command rfl) hready fun _ => ?_
    refine wp_neutral_bind Prog.issues_throwIf hready fun _ => ?_
    refine wp_neutral_bind (issues_lockOrCreateBalance htx) hready fun _ => ?_
    refine wp_neutral_bind (issues_lockBalance htx) hready fun _ => ?_
    refine wp_neutral_bind (issues_lockBalance htx) hready fun _ => ?_
    refine wp_neutral_bind Prog.issues_throwIf hready fun _ => ?_
    refine wp_neutral_bind (issues_recordJournalEntry htx) hready fun _ => ?_
    refine wp_neutral_bind (Prog.issues_command rfl) hready fun _ => ?_
    refine wp_neutral_bind (Prog.issues_command rfl) hready fun _ => ?_
    refine wp_neutral_bind (Prog.issues_command rfl) hready fun _ => ?_
    refine wp_neutral_bind (Prog.issues_command rfl) hready fun _ => ?_
    exact wp_commit_drop

lemma writing_executeTrade {q : QuoteId} {k : String} :
    (executeTrade cfg u q k).wp (writing u) Dropped .start := by
  have hstart : Stage.start ≠ .committed := Stage.noConfusion
  have hready : Stage.ready ≠ .committed := Stage.noConfusion
  refine wp_neutral_bind (Prog.issues_command rfl) hstart fun existing => ?_
  cases existing with
  | some journal => dsimp only; split <;> exact hstart
  | none =>
    have hconsume : (consumeQuote q u).Issues fun c => c.neutral = true := by
      refine issues_consumeQuote ?_ rfl
      rintro c (rfl | rfl | rfl | ⟨quote, ex, rfl⟩) <;> rfl
    refine wp_neutral_bind hconsume hstart fun found => ?_
    cases found with
    | none => exact hstart
    | some quote =>
      refine wp_locked hstart (wp_findOrCreate hstart ?_)
      refine wp_neutral_bind (Prog.issues_command rfl) hready fun _ => ?_
      refine wp_transaction (fun e => ?_) ?_
      · exact Prog.issues_tryCatch (Prog.issues_bind (Prog.issues_command rfl) fun _ => trivial)
          fun _ => trivial
      have htx (c : TxCmd) : (Cmd.tx c).neutral = true := rfl
      refine wp_neutral_bind (Prog.issues_command rfl) hready fun _ => ?_
      refine wp_neutral_bind Prog.issues_throwIf hready fun _ => ?_
      refine wp_neutral_bind (issues_lockOrCreateBalance htx) hready fun _ => ?_
      refine wp_neutral_bind (issues_lockBalance htx) hready fun _ => ?_
      refine wp_neutral_bind (issues_lockBalance htx) hready fun _ => ?_
      refine wp_neutral_bind Prog.issues_throwIf hready fun _ => ?_
      refine wp_neutral_bind (Prog.issues_command rfl) hready fun _ => ?_
      refine wp_neutral_bind (issues_recordJournalEntry htx) hready fun _ => ?_
      refine wp_neutral_bind (Prog.issues_command rfl) hready fun _ => ?_
      refine wp_neutral_bind (Prog.issues_command rfl) hready fun _ => ?_
      refine wp_neutral_bind (Prog.issues_command rfl) hready fun _ => ?_
      refine wp_neutral_bind (Prog.issues_command rfl) hready fun _ => ?_
      refine wp_neutral_bind (Prog.issues_command rfl) hready fun _ => ?_
      refine wp_neutral_bind (Prog.issues_command rfl) hready fun _ => ?_
      exact wp_commit_drop

/-- The operations keep to it, whatever they are answered. -/
lemma writing_program (cfg : Config) {req : Request} (hkey : req.key.isSome) :
    (req.program cfg).wp (writing req.userId) Dropped .start := by
  have hanswer {p : Service OperationResponse}
      (hp : p.wp (writing req.userId) Dropped .start) :
      (p >>= fun r => (pure (.operation r) : Service Response)).wp (writing req.userId)
        Dropped .start :=
    wp_bind.mpr (wp_mono (fun x r hx => by cases r <;> exact hx) hp)
  cases req with
  | fundWallet u c a k => exact hanswer writing_fundWallet
  | convertFunds u f t a k ctx => exact hanswer writing_convertFunds
  | executeTrade u q k => exact hanswer writing_executeTrade
  | _ => cases hkey

/-! ## Wallet rows -/

/-- Balance rows belong to wallets that are there, and so do operations that have made sure
of it. -/
structure Founded (s : Sys) : Prop where
  rows : ∀ u c, (⟨.user u, c⟩ : Account) ∈ s.db.rows → u ∈ s.db.wallets
  operations : ∀ t th, s.threads t = some th → th.alive = true → th.state.req.key.isSome →
    ∃ x, th.prog.wp (writing th.state.req.userId) Dropped x ∧
      (x ≠ .start → th.state.req.userId ∈ s.db.wallets)

lemma founded_initial : Founded Sys.initial where
  rows u c := by simp [Sys.initial, Database.migrated, Database.houseRows]
  operations := by simp [Sys.initial]

lemma wallets_subset (h : Reachable cfg s) {l : Local} {c : Cmd} {choice : Choice}
    {k : Except Exn c.Ret → Service Response} {r : Except Exn c.Ret}
    (hth : s.threads t = some ⟨l, .call c k, true⟩)
    (hrespond : s.respond t l.tx c choice = some (s₁, r)) : s.db.wallets ⊆ s₁.db.wallets := by
  rcases wallets_run h hth hrespond with hsame | ⟨-, hinsert⟩
  · rw [hsame]
  · rw [hinsert]
    exact Finset.subset_insert _ _

/-- Only a commit brings new balance rows. -/
lemma Sys.Served.rows_eq {tx : Option Tx} {c : Cmd} {r : Except Exn c.Ret}
    (h : s.Served t tx c s₁ r) :
    (c = .commit ∧ ∃ x, tx = some x ∧ s₁.db = s.db.apply x) ∨ s₁.db.rows = s.db.rows := by
  cases h with
  | pool c => exact Or.inr (execPool_frame s.db s.seq c).1
  | commit htx haborted => exact Or.inl ⟨rfl, _, htx, rfl⟩
  | _ => exact Or.inr rfl

/-- The rows that an operation inserts for users are those of its caller. -/
lemma Books.user_of_created {req : Request} {hand : Option Quote} {tx : Tx} {j : JournalEntry}
    (h : Books req hand tx j) {c : Currency} (hc : (⟨.user u, c⟩ : Account) ∈ tx.created) :
    u = req.userId := by
  obtain ⟨k, hk, haccount⟩ := List.mem_map.mp hc
  have hmem : (k.account, k.amount) ∈ j.legs.map fun e => (e.account, e.balanceBefore) :=
    h.locks.mem_iff.mp (List.mem_map_of_mem (List.mem_filter.mp hk).1)
  obtain ⟨e, he, heq⟩ := List.mem_map.mp hmem
  have hwallet : e.walletId = .user u := by
    rw [← (Prod.mk.inj heq).1] at haccount
    exact congrArg Account.walletId haccount
  rcases h.carries.owner he with hhouse | howner
  · rw [hwallet] at hhouse
    cases hhouse
  · rw [hwallet] at howner
    exact WalletId.user.inj howner

/-- An operation is past its start when its caller has a wallet. -/
lemma mem_wallets_of_after (h : Reachable cfg s) {l : Local} {c : Cmd} {choice : Choice}
    {k : Except Exn c.Ret → Service Response} {r : Except Exn c.Ret}
    (hth : s.threads t = some ⟨l, .call c k, true⟩)
    (hrespond : s.respond t l.tx c choice = some (s₁, r)) {x : Stage}
    (hallows : x.allows l.req.userId c) (hx : x ≠ .start → l.req.userId ∈ s.db.wallets)
    (hafter : x.after c r ≠ .start) : l.req.userId ∈ s₁.db.wallets := by
  have huses := uses_of_reachable h hth
  have hsub := wallets_subset h hth hrespond
  by_cases hstart : x = .start
  swap
  · exact hsub (hx hstart)
  subst hstart
  cases Sys.served_of_eq hrespond with
  | pool c =>
    cases c with
    | findWallet u =>
      obtain rfl : u = l.req.userId := huses
      by_contra hnot
      have hnot' : l.req.userId ∉ s.db.wallets := fun hmem => hnot (hsub hmem)
      exact hafter (by simp [execPool, hnot', Stage.after])
    | saveWallet u =>
      obtain rfl : u = l.req.userId := huses
      by_cases hmem : l.req.userId ∈ s.db.wallets
      · exact hsub hmem
      · simp [execPool, hmem]
    | _ => exact absurd rfl hafter
  | commit => cases hallows
  | commitAborted => cases hallows
  | failed c e => exact absurd Stage.start_after_error hafter
  | @redis c redis r hexec => cases c <;> exact absurd rfl hafter
  | _ => exact absurd rfl hafter

lemma Founded.step (h : Founded s) (hreach : Reachable cfg s) (hstep : s.step cfg e = some s') :
    Founded s' := by
  have hinv := inv_of_reachable hreach
  cases Sys.step_of_eq hstep with
  | spawn req =>
    refine ⟨h.rows, fun t th hth halive hkey => ?_⟩
    rcases Sys.of_setThread hth with ⟨-, rfl⟩ | ⟨-, hold⟩
    · exact ⟨.start, writing_program cfg hkey, fun hne => absurd rfl hne⟩
    · exact h.operations t th hold halive hkey
  | @run t choice l c k s₁ r hth hrespond =>
    have hserved := Sys.served_of_eq hrespond
    have hsub := wallets_subset hreach hth hrespond
    constructor
    · intro u c' hrow
      change (⟨.user u, c'⟩ : Account) ∈ s₁.db.rows at hrow
      rcases hserved.rows_eq with ⟨rfl, tx, htx, hdb⟩ | hsame
      · rw [hdb] at hrow
        rcases Finset.mem_union.mp hrow with hold | hnew
        · exact hsub (h.rows u c' hold)
        -- an inserted row is one of the caller, who has a wallet
        obtain ⟨tx', j, htx', hbooks⟩ := hinv.guard hth
        obtain rfl := Option.some.inj (htx.symm.trans htx')
        obtain rfl := hbooks.user_of_created (List.mem_toFinset.mp hnew)
        obtain ⟨x, ⟨hallows, -⟩, hx⟩ :=
          h.operations t _ hth rfl (by rw [hbooks.key]; rfl)
        obtain rfl : x = .ready := hallows
        exact hsub (hx Stage.noConfusion)
      · rw [hsame] at hrow
        exact hsub (h.rows u c' hrow)
    · intro t' th' hth' halive hkey
      rcases Sys.of_setThread hth' with ⟨rfl, rfl⟩ | ⟨-, hold⟩
      · simp only [Local.after_req] at hkey ⊢
        obtain ⟨x, ⟨hallows, hnext⟩, hx⟩ := h.operations _ _ hth rfl hkey
        exact ⟨x.after c r, hnext r _ rfl, mem_wallets_of_after hreach hth hrespond hallows hx⟩
      · rw [hserved.frame.1] at hold
        obtain ⟨x, hwp, hx⟩ := h.operations t' th' hold halive hkey
        exact ⟨x, hwp, fun hne => hsub (hx hne)⟩
  | @crash t l c k hth =>
    refine ⟨h.rows, fun t' th' hth' halive hkey => ?_⟩
    rcases Sys.of_setThread hth' with ⟨-, rfl⟩ | ⟨-, hold⟩
    · cases halive
    · exact h.operations t' th' hold halive hkey
  | tick ms => exact ⟨h.rows, h.operations⟩

lemma founded_of_reachable (h : Reachable cfg s) : Founded s :=
  h.invariant founded_initial fun _ _ _ hrun hfounded _ hstep => hfounded.step hrun hstep

/-! ## The readings -/

/-- The wallet that the request has answered. -/
def Thread.wallet (th : Thread) : Option WalletResponse :=
  match th.answer with
  | some (.ok (.wallet w)) => some w
  | _ => none

lemma Thread.answer_of_wallet {th : Thread} (h : th.wallet = some w) :
    th.answer = some (.ok (.wallet w)) := by
  unfold wallet at h
  split at h
  · rename_i w' hanswer
    rw [hanswer, Option.some.inj h]
  · cases h

/-- How far a reading is: it has nothing yet, it is about to store a wallet, or it has its
answer. -/
inductive Reader
  | start
  | holds (w : WalletResponse)
  | has (w : WalletResponse)

namespace Reader

/-- What a reader issues. -/
def allows (u : UserId) : Reader → Cmd → Prop
  | start, .redis (.getWallet u') => u' = u
  | start, .pool (.findWalletBalances u') => u' = u
  | start, .pool (.saveWallet u') => u' = u
  | holds w, .redis (.setWallet u' w' _) => u' = u ∧ w' = w
  | _, _ => False

/-- Where a reader is after a command and its answer. -/
def after : Reader → (c : Cmd) → Except Exn c.Ret → Reader
  | start, .redis (.getWallet _), .ok (some w) => has w
  | start, .pool (.findWalletBalances _), .ok (some w) => holds w
  | start, .pool (.saveWallet u), .ok _ =>
    holds { walletId := .user u, userId := u, balances := fun _ => none }
  | holds w, .redis (.setWallet _ _ _), _ => has w
  | x, _, _ => x

/-- What a reader has answered. -/
def Answers : Reader → Except Exn Response → Prop
  | x, .ok (.wallet w) => x = has w
  | _, .ok _ => False
  | _, .error _ => True

end Reader

/-- A wallet is stored right after it was read, and the answer is what was found in Redis or
stored there. -/
def reading (u : UserId) : Discipline Cmd.Ret Exn Reader where
  guard := Reader.allows u
  outcome x c r x' := x' = x.after c r

lemma reading_program (cfg : Config) (u : UserId) :
    ((Request.getWallet u).program cfg).wp (reading u) Reader.Answers .start := by
  have hstore (w : WalletResponse) :
      (tryCatch (issue (.redis (.setWallet u w 3600))) (fun _ => pure ()) >>= fun _ =>
        (pure w : Service WalletResponse)).wp (reading u)
          (Prog.andThen (reading u) Reader.Answers fun w => pure (.wallet w)) (.holds w) := by
    refine wp_bind.mpr (wp_tryCatch.mpr (wp_command.mpr ⟨⟨rfl, rfl⟩, ?_⟩))
    rintro (e | a) x rfl <;> rfl
  refine wp_bind.mpr (wp_bind.mpr (wp_tryCatch.mpr (wp_command.mpr ⟨rfl, ?_⟩)))
  rintro (e | _ | w) x rfl
  case ok.some => rfl
  -- no wallet is stored, or Redis has failed
  all_goals
    refine wp_bind.mpr (wp_command.mpr ⟨rfl, ?_⟩)
    rintro (e | _ | w) x rfl
    · trivial
    · refine wp_bind.mpr (wp_command.mpr ⟨rfl, ?_⟩)
      rintro (e | a) x rfl
      · trivial
      · exact hstore _
    · exact hstore w

/-- Who has answered a wallet has it. -/
lemma Reader.has_of_answer {x : Reader} {th : Thread}
    (hp : th.prog.wp (reading u) Answers x) (h : th.answer = some (.ok (.wallet w))) :
    x = has w := by
  obtain ⟨l, prog, alive⟩ := th
  cases prog <;> cases alive <;> cases h
  exact hp

/-- Who is about to store a wallet holds it. -/
lemma Reader.holds_of_stores {x : Reader} {l : Local} {p : Service Response}
    (hp : p.wp (reading u) Answers x) (h : w ∈ (Thread.mk l p true).next.bind (Cmd.stores u)) :
    x = holds w := by
  cases p with
  | pure a => cases h
  | throw e => cases h
  | call c k =>
    have hallows := hp.1
    cases c with
    | redis c =>
      cases c with
      | setWallet u' w' ex =>
        cases x with
        | holds w₀ =>
          obtain ⟨rfl, rfl⟩ := hallows
          have hw : w' = w := by simpa [Thread.next, Cmd.stores] using h
          rw [hw]
        | _ => exact hallows.elim
      | _ => cases h
    | _ => cases h

/-- What a command of a reading comes to: the wallet is found in Redis, or read from the
database, or stored, or nothing has come of it. -/
inductive Reader.Moved (s : Sys) (u : UserId) (c : Cmd) : Reader → Prop
  | hit {w : WalletResponse} (hlive : Custody.live (s.redis.wallets u) s.now = some w) :
    Moved s u c (has w)
  | read {w : WalletResponse} (hw : w.balances = s.db.balancesOf u) : Moved s u c (holds w)
  | stored {w : WalletResponse} (hc : c.stores u = some w) : Moved s u c (has w)
  | miss : Moved s u c start

lemma Reader.moved (h : Founded s) {x : Reader} {tx : Option Tx} {c : Cmd}
    {r : Except Exn c.Ret} (hserved : s.Served t tx c s₁ r) (hallows : x.allows u c) :
    Moved s u c (x.after c r) := by
  cases x with
  | has w => cases c <;> exact hallows.elim
  | holds w =>
    cases c with
    | redis c =>
      cases c with
      | setWallet u' w' ex =>
        obtain ⟨rfl, rfl⟩ := hallows
        exact .stored (if_pos rfl)
      | _ => exact hallows.elim
    | _ => exact hallows.elim
  | start =>
    cases hserved with
    | failed c e =>
      cases c with
      | redis c => cases c <;> first | exact hallows.elim | exact .miss
      | pool c => cases c <;> first | exact hallows.elim | exact .miss
      | _ => exact hallows.elim
    | @redis c redis r hexec =>
      cases c with
      | getWallet u' =>
        obtain rfl : u' = u := hallows
        cases hexec
        cases hlive : Custody.live (s.redis.wallets u') s.now with
        | none => exact .miss
        | some w => exact .hit hlive
      | _ => exact hallows.elim
    | pool c =>
      cases c with
      | findWalletBalances u' =>
        obtain rfl : u' = u := hallows
        by_cases hmem : u' ∈ s.db.wallets
        · simp only [execPool, if_pos hmem]
          exact .read rfl
        · simp only [execPool, if_neg hmem]
          exact .miss
      | saveWallet u' =>
        obtain rfl : u' = u := hallows
        by_cases hmem : u' ∈ s.db.wallets
        · simp only [execPool, if_pos hmem]
          exact .miss
        · simp only [execPool, if_neg hmem]
          -- a user without a wallet has no balances
          exact .read (funext fun c => (if_neg fun hrow => hmem (h.rows u' c hrow)).symm)
      | _ => exact hallows.elim
    | _ => exact hallows.elim

/-! ## Up to date -/

/-- A journal of the user that somebody may know of: its operation has dropped the stored
wallet since it has booked, or a look-up has found it. -/
def Sys.Known (s : Sys) (u : UserId) (j : JournalEntry) : Prop :=
  j ∈ s.db.journals ∧ j.userId = u ∧
    ((∀ t th tx, s.threads t = some th → th.state.trail.booked = some tx → j ∈ tx.journals →
        th.next.any (Cmd.drops u) = false) ∨
      ∃ t th, s.threads t = some th ∧ th.state.trail.found = some j)

/-- The database has had the balances of `w` at some time, and all that is known now was
booked by then. -/
def UpToDate (cfg : Config) (u : UserId) (s : Sys) (w : WalletResponse) : Prop :=
  ∃ σ, Reachable cfg σ ∧ Runs cfg anyStep σ s ∧ w.balances = σ.db.balancesOf u ∧
    ∀ j, s.Known u j → j ∈ σ.db.journals

lemma upToDate_of_read (h : Reachable cfg s) (hw : w.balances = s.db.balancesOf u) :
    UpToDate cfg u s w := ⟨s, h, .refl, hw, fun _ hj => hj.1⟩

/-- What was up to date stays so unless more becomes known. -/
lemma UpToDate.step (h : UpToDate cfg u s w) (hstep : s.step cfg e = some s')
    (hknown : ∀ j, s'.Known u j → s.Known u j) : UpToDate cfg u s' w := by
  obtain ⟨σ, hreach, hrun, hw, hσ⟩ := h
  exact ⟨σ, hreach, hrun.tail trivial hstep, hw, fun j hj => hσ j (hknown j hj)⟩

lemma Thread.alive_of_answer {th : Thread} {a : Except Exn Response} (h : th.answer = some a) :
    th.alive = true := by
  obtain ⟨l, prog, alive⟩ := th
  cases prog <;> cases alive <;> first | rfl | cases h

/-- A thread that has answered has no command to issue. -/
lemma Thread.next_of_answer {th : Thread} {a : Except Exn Response} (h : th.answer = some a) :
    th.next = none := by
  obtain ⟨l, prog, alive⟩ := th
  cases prog <;> cases alive <;> first | rfl | cases h

/-- What an operation that has succeeded hands out is known. -/
lemma known_of_answer (h : Reachable cfg s) {th : Thread} (hth : s.threads t = some th)
    {r : OperationResponse} (hr : th.operation = some r) (hu : th.state.req.userId = u) :
    s.Known u r.journal := by
  have hanswer := Thread.answer_of_operation hr
  obtain ⟨hmem, huser, -⟩ := journal_of_answer h hth hanswer
  refine ⟨hmem, huser.trans hu, ?_⟩
  obtain ⟨-, -, -, ⟨tx, hbooked, hjournals⟩ | ⟨-, hfound⟩⟩ :=
    (inv_of_reachable h).answer hth hanswer
  · refine Or.inl fun t' th' tx' hth' hbooked' hj => ?_
    obtain ⟨-, hcommit⟩ := (history_of_reachable h).closed t th tx hth hbooked
    obtain ⟨-, hcommit'⟩ := (history_of_reachable h).closed t' th' tx' hth' hbooked'
    obtain ⟨_, j, -, -, hbooks⟩ := (history_of_reachable h).booked _ hcommit'
    have hjournals' : tx'.journals = [j] := hbooks.journals
    obtain rfl : r.journal = j := by simpa [hjournals'] using hj
    obtain ⟨rfl, -⟩ := journal_eq h hcommit hcommit' hjournals hjournals' rfl
    obtain rfl := Option.some.inj (hth.symm.trans hth')
    rw [Thread.next_of_answer hanswer]
    rfl
  · exact Or.inr ⟨t, th, hth, hfound⟩

/-- Only the look-up of the key tells what is found. -/
lemma Local.after_found_of {l : Local} {seq : ℕ} {c : Cmd}
    (hc : ∀ u k, c ≠ .pool (.findByIdempotencyKey u k)) {r : Except Exn c.Ret} :
    (l.after seq c r).trail.found = l.trail.found := by
  cases c <;> (try rename_i c; cases c) <;> cases r <;> first | rfl | exact absurd rfl (hc _ _)

/-- A journal that is about to be committed is the first of its user and key. -/
lemma Ledger.userKey_notMem {db : Database} {locks : Locks} {txs : Tid → Option Tx}
    {req : Request} {hand : Option Quote} {tx : Tx} {j : JournalEntry} (h : Ledger db locks txs)
    (htx : txs t = some tx) (hbooks : Books req hand tx j) :
    j.userKey ∉ db.journals.map JournalEntry.userKey := by
  have hunique : ((db.journals ++ tx.journals).map JournalEntry.userKey).Nodup :=
    (h.sheet_apply htx hbooks).unique
  rw [hbooks.journals, List.map_append] at hunique
  exact fun hj => List.disjoint_of_nodup_append hunique hj (by simp)

/-- A thread that has committed drops the stored wallet next. -/
lemma drops_of_commit (h : Reachable cfg s) {l : Local} {c : Cmd} {choice : Choice}
    {k : Except Exn c.Ret → Service Response} {r : Except Exn c.Ret}
    (hth : s.threads t = some ⟨l, .call c k, true⟩)
    (hrespond : s.respond t l.tx c choice = some (s₁, r)) {tx : Tx} {j : JournalEntry}
    (htx : l.tx = some tx) (hbooks : Books l.req l.trail.hand tx j)
    (hl : l.after s.seq c r = l.committed tx) :
    (Thread.mk (l.after s.seq c r) (k r) true).next.any (Cmd.drops l.req.userId) = true := by
  have hbooked : l.trail.booked ≠ some tx := by
    rw [(history_of_reachable h).booked_eq_none hth htx]
    exact (Option.some_ne_none _).symm
  have hbooked' : (l.after s.seq c r).trail.booked = some tx := by rw [hl]; rfl
  by_cases hc : c = .commit
  swap
  · exact absurd ((Local.after_booked hc).symm.trans hbooked') hbooked
  subst hc
  cases r with
  | error e => exact absurd hbooked' hbooked
  | ok a =>
    obtain ⟨x, ⟨hallows, hnext⟩, -⟩ :=
      (founded_of_reachable h).operations t _ hth rfl (by rw [hbooks.key]; rfl)
    have hwp := hnext (.ok a) _ rfl
    change (k (.ok a)).wp (writing l.req.userId) Dropped .committed at hwp
    cases hk : k (.ok a) with
    | pure a => exact absurd rfl (hk ▸ hwp)
    | throw e => exact absurd rfl (hk ▸ hwp)
    | call c k' =>
      rw [hk] at hwp
      obtain ⟨hallows, -⟩ := hwp
      cases c with
      | redis c =>
        cases c with
        | delWallet u' => simpa [Thread.next, Cmd.drops] using hallows.2
        | _ => exact absurd rfl hallows
      | commit => cases hallows
      | pool c => cases c <;> exact absurd rfl hallows
      | _ => exact absurd rfl hallows

/-- Who has booked a journal and has nothing to drop now has had nothing to drop before, if
that is so of the thread that has moved. -/
lemma dropped_of_setThread {th th₁ : Thread} {j : JournalEntry} (hth : s.threads t = some th)
    (hthreads : s₁.threads = s.threads)
    (hself : ∀ tx, th.state.trail.booked = some tx → th.next.any (Cmd.drops u) = false)
    (h : ∀ t' th' tx, (s₁.setThread t th₁).threads t' = some th' →
      th'.state.trail.booked = some tx → j ∈ tx.journals → th'.next.any (Cmd.drops u) = false) :
    ∀ t' th' tx, s.threads t' = some th' → th'.state.trail.booked = some tx →
      j ∈ tx.journals → th'.next.any (Cmd.drops u) = false := by
  intro t' th' tx hth' hbooked hj
  rcases eq_or_ne t' t with rfl | hne
  · obtain rfl := Option.some.inj (hth.symm.trans hth')
    exact hself tx hbooked
  · refine h t' th' tx ?_ hbooked hj
    rw [Sys.setThread_of_ne hne, hthreads]
    exact hth'

/-- Nothing more is known after a commit: the thread has still to drop the stored wallet. -/
lemma known_of_commit (h : Reachable cfg s) {l : Local} {c : Cmd} {choice : Choice}
    {k : Except Exn c.Ret → Service Response} {r : Except Exn c.Ret}
    (hth : s.threads t = some ⟨l, .call c k, true⟩)
    (hrespond : s.respond t l.tx c choice = some (s₁, r)) {tx : Tx} {j' : JournalEntry}
    (htx : l.tx = some tx) (hbooks : Books l.req l.trail.hand tx j') (hdb : s₁.db = s.db.apply tx)
    (hl' : l.after s.seq c r = l.committed tx) {j : JournalEntry}
    (hj : (s₁.setThread t ⟨l.after s.seq c r, k r, true⟩).Known u j) : s.Known u j := by
  have hinv := inv_of_reachable h
  have hhist := history_of_reachable h
  have hframe := (Sys.served_of_eq hrespond).frame
  obtain ⟨hmem, hu, hknown⟩ := hj
  have hfound {t' : Tid} {th' : Thread}
      (hth' : (s₁.setThread t ⟨l.after s.seq c r, k r, true⟩).threads t' = some th')
      (hfound : th'.state.trail.found = some j) :
      ∃ t th, s.threads t = some th ∧ th.state.trail.found = some j := by
    rcases Sys.of_setThread hth' with ⟨rfl, rfl⟩ | ⟨-, hold⟩
    · refine ⟨_, _, hth, ?_⟩
      change (l.after s.seq c r).trail.found = some j at hfound
      rw [hl'] at hfound
      exact hfound
    · exact ⟨t', th', hframe.1 ▸ hold, hfound⟩
  have hmem' : j ∈ s.db.journals := by
    change j ∈ s₁.db.journals at hmem
    rw [hdb] at hmem
    rcases List.mem_append.mp hmem with hold | hnew
    · exact hold
    exfalso
    obtain rfl : j = j' := by simpa [hbooks.journals] using hnew
    rcases hknown with hdropped | ⟨t', th', hth', hfound'⟩
    · have hfalse := hdropped t _ tx (Sys.setThread_self _) (by rw [hl']; rfl) hnew
      obtain rfl := hbooks.userId.symm.trans hu
      rw [drops_of_commit h hth hrespond htx hbooks hl'] at hfalse
      cases hfalse
    · obtain ⟨t₀, th₀, hth₀, hfound₀⟩ := hfound hth' hfound'
      exact hinv.ledger.userKey_notMem ((Sys.txOf_eq hth).trans htx) hbooks
        (List.mem_map_of_mem (hhist.found t₀ th₀ j hth₀ hfound₀).1)
  refine ⟨hmem', hu, hknown.imp (dropped_of_setThread hth hframe.1 fun tx' hbooked => ?_) ?_⟩
  · exact absurd ((hhist.booked_eq_none hth htx).symm.trans hbooked) (by simp)
  · rintro ⟨t', th', hth', hfound'⟩
    exact hfound hth' hfound'

/-- What a look-up finds is known, unless its operation has still to drop the stored
wallet. -/
lemma known_of_lookup (h : Reachable cfg s) {j : JournalEntry} (hmem : j ∈ s.db.journals)
    (hu : j.userId = u) (hnot : ¬ s.Undropped u j.idempotencyKey) : s.Known u j := by
  have hhist := history_of_reachable h
  refine ⟨hmem, hu, Or.inl fun t₁ th₁ tx₁ hth₁ hbooked₁ hj₁ => ?_⟩
  by_contra hdropping
  obtain ⟨th₂, j₂, hth₂, -, hbooks⟩ := hhist.booked _ (hhist.closed t₁ th₁ tx₁ hth₁ hbooked₁).2
  obtain rfl := Option.some.inj (hth₁.symm.trans hth₂)
  have hjournals₁ : tx₁.journals = [j₂] := hbooks.journals
  obtain rfl : j = j₂ := by simpa [hjournals₁] using hj₁
  exact hnot ⟨t₁, (inv_of_reachable h).lt_seq hth₁, th₁, hth₁, hbooks.userId.symm.trans hu,
    hbooks.key, Bool.eq_true_of_not_eq_false hdropping⟩

/-- Nothing more is known after a command, unless the stored wallet is dropped, or a key is
looked up whose operation has not dropped it yet. -/
lemma known_of_run (h : Reachable cfg s) {l : Local} {c : Cmd} {choice : Choice}
    {k : Except Exn c.Ret → Service Response} {r : Except Exn c.Ret}
    (hth : s.threads t = some ⟨l, .call c k, true⟩)
    (hrespond : s.respond t l.tx c choice = some (s₁, r)) (hdrops : c.drops u = false)
    (hlooks : ∀ key ∈ c.looksUp u, ¬ s.Undropped u key) {j : JournalEntry}
    (hj : (s₁.setThread t ⟨l.after s.seq c r, k r, true⟩).Known u j) : s.Known u j := by
  have hinv := inv_of_reachable h
  have hserved := Sys.served_of_eq hrespond
  cases hinv.booking hth hserved with
  | commit htx hbooks hdb hcommits hl' =>
    exact known_of_commit h hth hrespond htx hbooks hdb hl' hj
  | none hrows hamount hjournals hcommits hbooked hhand =>
    obtain ⟨hmem, hu, hknown⟩ := hj
    change j ∈ s₁.db.journals at hmem
    rw [hjournals] at hmem
    rcases hknown with hdropped | ⟨t', th', hth', hfound⟩
    · exact ⟨hmem, hu, Or.inl (dropped_of_setThread hth hserved.frame.1 (fun _ _ => hdrops)
        hdropped)⟩
    rcases Sys.of_setThread hth' with ⟨rfl, rfl⟩ | ⟨hne, hold⟩
    swap
    · exact ⟨hmem, hu, Or.inr ⟨t', th', hserved.frame.1 ▸ hold, hfound⟩⟩
    by_cases hc : ∀ u' key, c ≠ .pool (.findByIdempotencyKey u' key)
    · rw [Local.after_found_of hc] at hfound
      exact ⟨hmem, hu, Or.inr ⟨t', _, hth, hfound⟩⟩
    push Not at hc
    obtain ⟨u', key, rfl⟩ := hc
    rcases Local.after_found hfound (hinv.guard hth) hserved with hold | ⟨-, huser, hkey⟩
    · exact ⟨hmem, hu, Or.inr ⟨t', _, hth, hold⟩⟩
    obtain ⟨rfl, hkey', -⟩ := hinv.guard hth
    obtain rfl : key = j.idempotencyKey := Option.some.inj (hkey'.symm.trans hkey)
    exact known_of_lookup h hmem hu (hlooks j.idempotencyKey (if_pos (huser.symm.trans hu)))

lemma known_of_spawn (h : Reachable cfg s) {th : Thread} (hbooked : th.state.trail.found = none)
    {j : JournalEntry} (hj : (s.setThread s.seq th).Known u j) : s.Known u j := by
  obtain ⟨hmem, hu, hknown⟩ := hj
  refine ⟨hmem, hu, ?_⟩
  rcases hknown with hdropped | ⟨t, th', hth, hfound⟩
  · refine Or.inl fun t th' tx hth => hdropped t th' tx ?_
    rw [Sys.setThread_of_ne ((inv_of_reachable h).lt_seq hth).ne]
    exact hth
  · rcases Sys.of_setThread hth with ⟨-, rfl⟩ | ⟨-, hold⟩
    · rw [hbooked] at hfound
      cases hfound
    · exact Or.inr ⟨t, th', hold, hfound⟩

/-- Nothing more is known after a process has died, unless it was to drop the stored
wallet. -/
lemma known_of_crash {l : Local} {c : Cmd} {k : Except Exn c.Ret → Service Response}
    (hth : s.threads t = some ⟨l, .call c k, true⟩) (hdrops : c.drops u = false)
    {j : JournalEntry} (hj : ({ s with locks := s.locks.releaseAll t }.setThread t
      ⟨{ l with tx := none }, .call c k, false⟩).Known u j) : s.Known u j := by
  obtain ⟨hmem, hu, hknown⟩ := hj
  refine ⟨hmem, hu, ?_⟩
  rcases hknown with hdropped | ⟨t', th', hth', hfound⟩
  · have hthreads : ({ s with locks := s.locks.releaseAll t } : Sys).threads = s.threads := rfl
    exact Or.inl (dropped_of_setThread hth hthreads (fun _ _ => hdrops) hdropped)
  · rcases Sys.of_setThread hth' with ⟨rfl, rfl⟩ | ⟨-, hold⟩
    · exact Or.inr ⟨_, _, hth, hfound⟩
    · exact Or.inr ⟨t', th', hold, hfound⟩

/-! ## The cache stays up to date -/

/-- What is stored, and what is about to be, is up to date, and `P` holds of what the
readings answer. -/
structure Cached (cfg : Config) (u : UserId) (P : Tid → WalletResponse → Prop) (s : Sys) :
    Prop where
  readings : ∀ t th, s.threads t = some th → th.alive = true → th.state.req = .getWallet u →
    ∃ x, th.prog.wp (reading u) Reader.Answers x ∧
      (∀ w ∈ th.next.bind (Cmd.stores u), UpToDate cfg u s w) ∧ ∀ w, x = .has w → P t w
  stored : ∀ w, Custody.live (s.redis.wallets u) s.now = some w → UpToDate cfg u s w

/-- The stored wallet after a command, if a drop has not failed. -/
lemma Sys.stored_of_respond {tx : Option Tx} {c : Cmd} {choice : Choice} {r : Except Exn c.Ret}
    (h : s.respond t tx c choice = some (s₁, r)) (hchoice : c.drops u = true → choice ≠ .fail) :
    (s₁.redis.wallets u = s.redis.wallets u ∧ c.drops u = false) ∨
    (s₁.redis.wallets u = none ∧ c.drops u = true) ∨
    ∃ w deadline, c.stores u = some w ∧ s₁.redis.wallets u = some (w, deadline) := by
  have hserved := served_of_eq h
  cases c with
  | redis c =>
    cases choice with
    | fail =>
      cases h
      refine Or.inl ⟨rfl, ?_⟩
      by_contra hdrops
      exact hchoice (Bool.eq_true_of_not_eq_false hdrops) rfl
    | rates rates => cases h
    | ok =>
      obtain ⟨⟨redis, r'⟩, hexec, heq⟩ := Option.map_eq_some_iff.mp h
      cases heq
      cases c with
      | setWallet u' w ex =>
        cases hexec
        rcases eq_or_ne u u' with rfl | hne
        · exact Or.inr (Or.inr ⟨w, _, if_pos rfl, Function.update_self ..⟩)
        · exact Or.inl ⟨Function.update_of_ne hne _ _, rfl⟩
      | delWallet u' =>
        cases hexec
        rcases eq_or_ne u u' with rfl | hne
        · exact Or.inr (Or.inl ⟨Function.update_self .., decide_eq_true rfl⟩)
        · exact Or.inl ⟨Function.update_of_ne hne _ _, decide_eq_false hne.symm⟩
      | acquire u' ttl =>
        simp only [execRedis] at hexec
        split at hexec <;> cases hexec
        exact Or.inl ⟨rfl, rfl⟩
      | release u' =>
        simp only [execRedis] at hexec
        split at hexec <;> cases hexec <;> exact Or.inl ⟨rfl, rfl⟩
      | _ =>
        cases hexec
        exact Or.inl ⟨rfl, rfl⟩
  | _ =>
    refine Or.inl ⟨?_, rfl⟩
    cases hserved <;> rfl

/-- The balances of a user after a command that is not a commit. -/
lemma Sys.Served.balancesOf {tx : Option Tx} {c : Cmd} {r : Except Exn c.Ret}
    (h : s.Served t tx c s₁ r) (hc : c ≠ .commit) :
    s₁.db.balancesOf u = s.db.balancesOf u := by
  cases h with
  | pool c =>
    obtain ⟨hrows, hamount, -⟩ := execPool_frame s.db s.seq c
    unfold Database.balancesOf
    simp only [hrows, hamount]
  | commit htx haborted => exact absurd rfl hc
  | _ => rfl

/-- Who is about to store a wallet reads it for its request. -/
lemma getWallet_of_stores (h : Reachable cfg s) {th : Thread} (hth : s.threads t = some th)
    (hw : w ∈ th.next.bind (Cmd.stores u)) : th.alive = true ∧ th.state.req = .getWallet u := by
  obtain ⟨l, prog, alive⟩ := th
  cases alive with
  | false => cases prog <;> cases hw
  | true =>
    refine ⟨rfl, ?_⟩
    cases prog with
    | pure a => cases hw
    | throw e => cases hw
    | call c k =>
      have huses := uses_of_reachable h hth
      cases c with
      | redis c =>
        cases c with
        | setWallet u' w' ex =>
          by_cases hu : u' = u
          · exact hu ▸ huses
          · simp [Thread.next, Cmd.stores, hu] at hw
        | _ => cases hw
      | _ => cases hw

variable {P P' : Tid → WalletResponse → Prop}

/-- The thread that has moved, if it reads the wallet. -/
lemma Cached.moved (h : Cached cfg u P s) (hreach : Reachable cfg s) {l : Local} {c : Cmd}
    {choice : Choice} {k : Except Exn c.Ret → Service Response} {r : Except Exn c.Ret}
    (hth : s.threads t = some ⟨l, .call c k, true⟩)
    (hrespond : s.respond t l.tx c choice = some (s₁, r)) (hreq : l.req = .getWallet u)
    (hstep : s.step cfg (.run t choice) = some s') (hdb : s'.db = s₁.db)
    (hnew : ∀ w, UpToDate cfg u s w → P' t w) :
    ∃ x, (k r).wp (reading u) Reader.Answers x ∧
      (∀ w ∈ (Thread.mk (l.after s.seq c r) (k r) true).next.bind (Cmd.stores u),
        UpToDate cfg u s' w) ∧ ∀ w, x = .has w → P' t w := by
  obtain ⟨x, ⟨hallows, hnext⟩, hpending, -⟩ := h.readings t _ hth rfl hreq
  have hwp := hnext r _ rfl
  have hmoved := Reader.moved (founded_of_reachable hreach) (Sys.served_of_eq hrespond) hallows
  refine ⟨x.after c r, hwp, fun w hw => ?_, fun w hw => ?_⟩
  · have hholds := Reader.holds_of_stores hwp hw
    rw [hholds] at hmoved
    cases hmoved with
    | read hread =>
      refine upToDate_of_read (hreach.tail trivial hstep) ?_
      rw [hread, hdb, (Sys.served_of_eq hrespond).balancesOf]
      rintro rfl
      cases x <;> exact hallows.elim
  · rw [hw] at hmoved
    cases hmoved with
    | hit hlive => exact hnew w (h.stored w hlive)
    | stored hc => exact hnew w (hpending w hc)

/-- The stored wallet is dropped, or a key is looked up, while everything is current: so it
stays up to date. -/
lemma upToDate_of_current (h : Reachable cfg s') (hdb : s'.db.balancesOf u = s.db.balancesOf u)
    (hw : s.Current u w) : UpToDate cfg u s' w :=
  upToDate_of_read h (by rw [hdb]; exact funext fun c => hw c (mem_supportedCurrencies c))

/-- A command does not store a wallet when it drops one or looks up a key. -/
lemma stores_eq_none {c : Cmd} (hc : c.drops u = true ∨ (c.looksUp u).isSome) :
    c.stores u = none ∧ c ≠ .commit := by
  cases c with
  | redis c =>
    cases c <;> first | exact ⟨rfl, Cmd.noConfusion⟩ | rcases hc with hc | hc <;> cases hc
  | pool c => exact ⟨rfl, Cmd.noConfusion⟩
  | _ => rcases hc with hc | hc <;> cases hc

/-- What is about to be stored, and what is stored, after a command. -/
lemma Cached.kept (h : Cached cfg u P s) (hreach : Reachable cfg s) {l : Local} {c : Cmd}
    {choice : Choice} {k : Except Exn c.Ret → Service Response} {r : Except Exn c.Ret}
    (hth : s.threads t = some ⟨l, .call c k, true⟩)
    (hfail : c.drops u = true → choice ≠ .fail)
    (hrespond : s.respond t l.tx c choice = some (s₁, r)) (hok : s.KeepsCoherent u c)
    (hstep : s.step cfg (.run t choice) = some s')
    (hs' : s' = s₁.setThread t ⟨l.after s.seq c r, k r, true⟩) :
    (∀ t th w, s.threads t = some th → w ∈ th.next.bind (Cmd.stores u) → UpToDate cfg u s' w) ∧
      ∀ w, Custody.live (s'.redis.wallets u) s'.now = some w → UpToDate cfg u s' w := by
  have hreach' : Reachable cfg s' := hreach.tail trivial hstep
  have hserved := Sys.served_of_eq hrespond
  have hredis : s'.redis = s₁.redis := by rw [hs']; rfl
  have hnow : s'.now = s.now := by rw [hs']; exact hserved.frame.2.2
  have hlt {t : Tid} {th : Thread} (hth : s.threads t = some th) : t < s.seq :=
    (inv_of_reachable hreach).lt_seq hth
  have hwallets := Sys.stored_of_respond (u := u) hrespond hfail
  rw [← hredis] at hwallets
  -- what is current now is up to date after a drop or a look-up
  have hcurrent {w : WalletResponse} (hc : c.drops u = true ∨ (c.looksUp u).isSome)
      (hw : s.Current u w) : UpToDate cfg u s' w := by
    refine upToDate_of_current hreach' ?_ hw
    rw [hs']
    exact hserved.balancesOf (stores_eq_none hc).2
  by_cases hdrops : c.drops u = true
  · refine ⟨fun t' th' w hth' hw =>
      hcurrent (Or.inl hdrops) (hok.1 hdrops t' (hlt hth') th' hth' w hw), fun w hw => ?_⟩
    rcases hwallets with ⟨-, hfalse⟩ | ⟨hnone, -⟩ | ⟨w', d, hstores, -⟩
    · rw [hdrops] at hfalse
      cases hfalse
    · rw [hnone] at hw
      cases hw
    · rw [(stores_eq_none (Or.inl hdrops)).1] at hstores
      cases hstores
  by_cases hlooks : ∃ key ∈ c.looksUp u, s.Undropped u key
  · obtain ⟨key, hkey, hundropped⟩ := hlooks
    obtain ⟨hpending, hstored⟩ := hok.2 key hkey hundropped
    have hlooksUp : (c.looksUp u).isSome := Option.isSome_iff_exists.mpr ⟨key, hkey⟩
    refine ⟨fun t' th' w hth' hw =>
      hcurrent (Or.inr hlooksUp) (hpending t' (hlt hth') th' hth' w hw), fun w hw => ?_⟩
    rcases hwallets with ⟨hsame, -⟩ | ⟨-, htrue⟩ | ⟨w', d, hstores, -⟩
    · rw [hsame, hnow] at hw
      exact hcurrent (Or.inr hlooksUp) (hstored w hw)
    · exact absurd htrue hdrops
    · rw [(stores_eq_none (Or.inr hlooksUp)).1] at hstores
      cases hstores
  · -- nothing more is known
    have hknown (j : JournalEntry) (hj : s'.Known u j) : s.Known u j :=
      known_of_run hreach hth hrespond (Bool.eq_false_of_not_eq_true hdrops)
        (fun key hkey hundropped => hlooks ⟨key, hkey, hundropped⟩) (hs' ▸ hj)
    have hpending (t' : Tid) (th' : Thread) (w : WalletResponse) (hth' : s.threads t' = some th')
        (hw : w ∈ th'.next.bind (Cmd.stores u)) : UpToDate cfg u s w := by
      obtain ⟨halive, hreq⟩ := getWallet_of_stores hreach hth' hw
      obtain ⟨x, -, hpending, -⟩ := h.readings t' th' hth' halive hreq
      exact hpending w hw
    refine ⟨fun t' th' w hth' hw => (hpending t' th' w hth' hw).step hstep hknown,
      fun w hw => ?_⟩
    rcases hwallets with ⟨hsame, -⟩ | ⟨-, htrue⟩ | ⟨w', d, hstores, hset⟩
    · rw [hsame, hnow] at hw
      exact (h.stored w hw).step hstep hknown
    · exact absurd htrue hdrops
    · rw [hset, Custody.live_eq_some_iff] at hw
      obtain ⟨deadline, heq, -⟩ := hw
      cases heq
      exact (hpending t _ w hth hstores).step hstep hknown

lemma Cached.step (h : Cached cfg u P s) (hreach : Reachable cfg s) (hok : Coherent u s e)
    (hstep : s.step cfg e = some s')
    (hnew : ∀ t th w, s.threads t = some th → UpToDate cfg u s w → P' t w)
    (hkeep : ∀ t w, P t w → P' t w) : Cached cfg u P' s' := by
  have hinv := inv_of_reachable hreach
  have hstep' := hstep
  cases Sys.step_of_eq hstep with
  | spawn req =>
    have hknown (j : JournalEntry) :
        (s.setThread s.seq { state := { req }, prog := req.program cfg }).Known u j →
          s.Known u j := known_of_spawn hreach rfl
    refine ⟨fun t th hth halive hreq => ?_, fun w hw => (h.stored w hw).step hstep hknown⟩
    rcases Sys.of_setThread hth with ⟨-, rfl⟩ | ⟨-, hold⟩
    · obtain rfl : req = .getWallet u := hreq
      have hwp := reading_program cfg u
      refine ⟨.start, hwp, fun w hw => ?_, fun w hw => ?_⟩
      · cases Reader.holds_of_stores hwp hw
      · cases hw
    · obtain ⟨x, hwp, hpending, hanswer⟩ := h.readings t th hold halive hreq
      exact ⟨x, hwp, fun w hw => (hpending w hw).step hstep hknown,
        fun w hw => hkeep t w (hanswer w hw)⟩
  | @run t choice l c k s₁ r hth hrespond =>
    obtain ⟨hclear, hfail⟩ := hok.run (c := c) (by simp [Sys.next, hth, Thread.next])
    obtain ⟨hpending, hstored⟩ := h.kept hreach hth hfail hrespond hclear hstep rfl
    refine ⟨fun t' th' hth' halive hreq => ?_, hstored⟩
    rcases Sys.of_setThread hth' with ⟨rfl, rfl⟩ | ⟨-, hold⟩
    · rw [Local.after_req] at hreq
      exact h.moved hreach hth hrespond hreq hstep rfl fun w => hnew _ _ w hth
    · rw [(Sys.served_of_eq hrespond).frame.1] at hold
      obtain ⟨x, hwp, -, hanswer⟩ := h.readings t' th' hold halive hreq
      exact ⟨x, hwp, fun w hw => hpending t' th' w hold hw,
        fun w hw => hkeep t' w (hanswer w hw)⟩
  | @crash t l c k hth =>
    have hknown (j : JournalEntry) := known_of_crash (u := u) (j := j) hth
      (hok c (by simp [Sys.next, hth, Thread.next]))
    refine ⟨fun t' th' hth' halive hreq => ?_, fun w hw => (h.stored w hw).step hstep hknown⟩
    rcases Sys.of_setThread hth' with ⟨-, rfl⟩ | ⟨-, hold⟩
    · cases halive
    · obtain ⟨x, hwp, hpending, hanswer⟩ := h.readings t' th' hold halive hreq
      exact ⟨x, hwp, fun w hw => (hpending w hw).step hstep hknown,
        fun w hw => hkeep t' w (hanswer w hw)⟩
  | tick ms =>
    refine ⟨fun t th hth halive hreq => ?_, fun w hw => ?_⟩
    · obtain ⟨x, hwp, hpending, hanswer⟩ := h.readings t th hth halive hreq
      exact ⟨x, hwp, fun w hw => (hpending w hw).step hstep fun j hj => hj,
        fun w hw => hkeep t w (hanswer w hw)⟩
    · obtain ⟨deadline, hentry, hlt⟩ := Custody.live_eq_some_iff.mp hw
      refine (h.stored w (Custody.live_eq_some_iff.mpr ⟨deadline, hentry, ?_⟩)).step hstep
        fun j hj => hj
      exact lt_of_le_of_lt (Nat.le_add_right _ _) hlt

lemma cached_initial : Cached cfg u P Sys.initial where
  readings := by simp [Sys.initial]
  stored w hw := by cases hw

/-! ## Reading after an operation -/

/-- A thread that has answered stays as it is. -/
lemma thread_of_answer (hs : Reachable cfg s) (h : Runs cfg anyStep s s') {th : Thread}
    (hth : s.threads t = some th) {a : Except Exn Response} (ha : th.answer = some a) :
    s'.threads t = some th := by
  have hnext := Thread.next_of_answer ha
  refine h.invariant (I := fun s' => s'.threads t = some th) hth fun s₁ e s₂ hrun hth _ hstep => ?_
  have hmoves {t' : Tid} {l : Local} {c : Cmd} {k : Except Exn c.Ret → Service Response}
      (hth' : s₁.threads t' = some ⟨l, .call c k, true⟩) : t ≠ t' := by
    rintro rfl
    obtain rfl := Option.some.inj (hth.symm.trans hth')
    cases hnext
  cases Sys.step_of_eq hstep with
  | spawn req =>
    rw [Sys.setThread_of_ne ((inv_of_reachable (hs.trans hrun)).lt_seq hth).ne]
    exact hth
  | run hth' hrespond =>
    rw [Sys.setThread_of_ne (hmoves hth'), (Sys.served_of_eq hrespond).frame.1]
    exact hth
  | crash hth' =>
    rw [Sys.setThread_of_ne (hmoves hth')]
    exact hth
  | tick ms => exact hth

/-- The wallet shows the balances of a state in which all operations of the user that have
succeeded by `s₀` are booked. -/
def Shows (cfg : Config) (u : UserId) (s₀ s : Sys) (w : WalletResponse) : Prop :=
  ∃ σ, Reachable cfg σ ∧ Runs cfg anyStep σ s ∧ w.balances = σ.db.balancesOf u ∧
    ∀ t th r, s₀.threads t = some th → th.state.req.userId = u → th.operation = some r →
      r.journal ∈ σ.db.journals

/-- While the cache is kept coherent, a wallet that is read after an operation has succeeded
shows it. -/
theorem wallet_shows_operations (h₀ : Runs cfg (Coherent u) Sys.initial s₀)
    (h : Runs cfg (Coherent u) s₀ s) {th : Thread} (hnew : s₀.threads t = none)
    (hth : s.threads t = some th) (hreq : th.state.req = .getWallet u)
    (hanswer : th.answer = some (.ok (.wallet w))) : Shows cfg u s₀ s w := by
  have hreach₀ := reachable_of_runs h₀
  have hcached₀ : Cached cfg u (fun _ _ => True) s₀ :=
    h₀.invariant cached_initial fun _ _ _ hrun hcached hok hstep =>
      hcached.step (reachable_of_runs hrun) hok hstep (fun _ _ _ _ _ => trivial)
        fun _ _ _ => trivial
  let P (s : Sys) (t : Tid) (w : WalletResponse) : Prop :=
    s₀.threads t = none → Shows cfg u s₀ s w
  have hcached : Cached cfg u (P s) s := by
    refine h.invariant (I := fun s => Cached cfg u (P s) s) ⟨fun t th hth halive hreq => ?_,
      hcached₀.stored⟩ fun s₁ e s₂ hrun hcached hok hstep => ?_
    · obtain ⟨x, hwp, hpending, -⟩ := hcached₀.readings t th hth halive hreq
      refine ⟨x, hwp, hpending, fun w _ hnone => ?_⟩
      rw [hnone] at hth
      cases hth
    have hrun' : Runs cfg anyStep s₀ s₁ := hrun.mono fun _ _ _ => trivial
    have hreach₁ : Reachable cfg s₁ := hreach₀.trans hrun'
    refine hcached.step hreach₁ hok hstep (fun t th w _ hw _ => ?_) fun t w hP hnone => ?_
    · obtain ⟨σ, hσ, hrunσ, hbalances, hknown⟩ := hw
      refine ⟨σ, hσ, hrunσ.tail trivial hstep, hbalances, fun t th r hth hu hr => ?_⟩
      have hth₁ := thread_of_answer hreach₀ hrun' hth (Thread.answer_of_operation hr)
      exact hknown _ (known_of_answer hreach₁ hth₁ hr hu)
    · obtain ⟨σ, hσ, hrunσ, hrest⟩ := hP hnone
      exact ⟨σ, hσ, hrunσ.tail trivial hstep, hrest⟩
  obtain ⟨x, hwp, -, hP⟩ := hcached.readings t th hth (Thread.alive_of_answer hanswer) hreq
  exact hP w (Reader.has_of_answer hwp hanswer) hnew

/-- The user is funded, and then reads the wallet from the database. -/
theorem wallet_shows_operations_funded : ∃ s₀ s th th' r w, Reachable {} s₀ ∧
    Runs {} anyStep s₀ s ∧ s₀.threads 1 = some th ∧ th.operation = some r ∧
    s.threads 20 = some th' ∧ th'.answer = some (.ok (.wallet w)) ∧ Shows {} 1 s₀ s w := by
  have hplay : (runAll (Sys.step {}) (Coherent 1) Sys.initial fundRun).any (fun s₀ =>
      (s₀.threads 1).any (fun th => th.operation.isSome) ∧ (s₀.threads 20).isNone ∧
      (runAll (Sys.step {}) (Coherent 1) s₀ (.spawn (.getWallet 1) :: serve 20 3)).any fun s =>
        (s.threads 20).any fun th => th.state.req = .getWallet 1 ∧ th.wallet.isSome) = true := by
    decide +kernel
  obtain ⟨s₀, hrun₀, hs₀⟩ := exists_of_runAll hplay
  simp only [Bool.decide_and, Bool.and_eq_true, decide_eq_true_eq, Option.any_eq_true] at hs₀
  obtain ⟨⟨th, hth, hr⟩, hnew, s, hplay', th', hth', hreq, hw⟩ := hs₀
  have hrun := runs_of_runAll hplay'
  obtain ⟨r, hr⟩ := Option.isSome_iff_exists.mp hr
  obtain ⟨w, hw⟩ := Option.isSome_iff_exists.mp hw
  have hanswer := Thread.answer_of_wallet hw
  exact ⟨s₀, s, th, th', r, w, reachable_of_runs hrun₀, hrun.mono fun _ _ _ => trivial, hth, hr,
    hth', hanswer,
    wallet_shows_operations hrun₀ hrun (Option.isNone_iff_eq_none.mp hnew) hth' hreq hanswer⟩

/-! ## A stale cache -/

lemma rows_subset (h : Runs cfg anyStep s s') : s.db.rows ⊆ s'.db.rows := by
  refine h.invariant (I := fun s' => s.db.rows ⊆ s'.db.rows) subset_rfl
    fun s₁ e s₂ _ hsub _ hstep => hsub.trans ?_
  cases Sys.step_of_eq hstep with
  | run hth hrespond =>
    rcases (Sys.served_of_eq hrespond).rows_eq with ⟨-, tx, -, hdb⟩ | hsame
    · have hsub : s₁.db.rows ⊆ s₁.db.rows ∪ tx.created.toFinset := Finset.subset_union_left
      exact hsub.trans (by rw [Sys.setThread, hdb]; rfl)
    · exact hsame.superset
  | _ => exact subset_rfl

/-- The accounts of a booked journal have rows. -/
lemma mem_rows_of_journal (h : Reachable cfg s) {j : JournalEntry} (hj : j ∈ s.db.journals)
    {e : LedgerEntryInput} (he : e ∈ j.legs) : e.account ∈ s.db.rows := by
  obtain ⟨t, th, tx, hth, hcommit, -, hbooks⟩ := (history_of_reachable h).books_of_mem hj
  obtain ⟨s₀, s₁, htook, -, hputs⟩ := exists_putsIn h hth hcommit hbooks.journals
  exact rows_subset htook.run (hputs.rows e he)

/-- A reading has found the wallet of the user empty and is about to store that, when the
user is funded. -/
def staleRun : List Event :=
  .spawn (.getWallet 1) :: (serve 1 3 ++
    .spawn (.fundWallet 1 "USD" (.integer 500) "fund") :: serve 5 17)

/-- It stores it, and the next reading finds it. -/
def staleRead : List Event := .run 1 .ok :: .spawn (.getWallet 1) :: serve 24 1

/-- Although nothing fails, a wallet that is read after a funding has succeeded can be
without it. -/
theorem wallet_misses_funding : ¬ ∀ s₀ s t th w, Runs {} NoFailure Sys.initial s₀ →
    Runs {} NoFailure s₀ s → s₀.threads t = none → s.threads t = some th →
    th.state.req = .getWallet 1 → th.answer = some (.ok (.wallet w)) → Shows {} 1 s₀ s w := by
  intro hclaim
  have hplay : (runAll (Sys.step {}) NoFailure Sys.initial staleRun).any (fun s₀ =>
      (s₀.threads 5).any (fun th => th.state.req.userId = 1 ∧ th.operation.any fun r =>
        r.journal.legs.any fun e => e.account = ⟨.user 1, .usd⟩) ∧ (s₀.threads 24).isNone ∧
      (runAll (Sys.step {}) NoFailure s₀ staleRead).any fun s =>
        (s.threads 24).any fun th => th.state.req = .getWallet 1 ∧
          th.wallet.any fun w => w.balances .usd = none) = true := by decide +kernel
  obtain ⟨s₀, hrun₀, hs₀⟩ := exists_of_runAll hplay
  simp only [Bool.decide_and, Bool.and_eq_true, decide_eq_true_eq, Option.any_eq_true,
    List.any_eq_true] at hs₀
  obtain ⟨⟨th, hth, hu, r, hr, e, he, haccount⟩, hnew, s, hplay', th', hth', hreq, w, hw, hnone⟩ :=
    hs₀
  obtain ⟨σ, hσ, -, hbalances, hshown⟩ := hclaim s₀ s 24 th' w hrun₀ (runs_of_runAll hplay')
    (Option.isNone_iff_eq_none.mp hnew) hth' hreq (Thread.answer_of_wallet hw)
  have hrow := mem_rows_of_journal hσ (hshown 5 th r hth hu hr) he
  rw [hbalances, Database.balancesOf, if_pos (haccount ▸ hrow)] at hnone
  cases hnone

end FxExchange
