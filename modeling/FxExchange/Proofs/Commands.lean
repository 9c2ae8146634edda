import FxExchange.Proofs.Invariant

/-
# The commands of the requests

Which commands a service function can come to issue, whatever it is answered.
-/

namespace FxExchange

open Service
open Prog (Issues issues_bind issues_command issues_tryCatch issues_tryFinally issues_throwIf
  issues_mono)

variable {cfg : Config} {s : Sys} {t : Tid} {S : Cmd → Prop} {α : Type}

/-! ## The parts that the operations share -/

lemma issues_rateOf {rates : VersionedRates} {c : Currency} : (rateOf rates c).Issues S := by
  unfold rateOf
  split
  · trivial
  · split <;> trivial

lemma issues_requireSupported {value : String} : (requireSupported value).Issues S := by
  unfold requireSupported
  split <;> trivial

lemma issues_requirePositiveInteger {amount : JsNumber} :
    (requirePositiveInteger amount).Issues S := by
  unfold requirePositiveInteger
  split
  · trivial
  · split <;> trivial

lemma issues_acquire {u : UserId} {action : Service α}
    (hacquire : S (.redis (.acquire u cfg.lockTtl))) (hrelease : S (.redis (.release u)))
    (haction : action.Issues S) : (acquire cfg u action).Issues S := by
  refine issues_bind (issues_tryCatch (issues_command hacquire) fun _ => trivial) fun _ => ?_
  exact issues_tryFinally haction (issues_tryCatch (issues_command hrelease) fun _ => trivial)

lemma issues_findOrCreateWallet {u : UserId} (hfind : S (.pool (.findWallet u)))
    (hsave : S (.pool (.saveWallet u))) : (findOrCreateWallet u).Issues S := by
  refine issues_bind (issues_command hfind) fun found => ?_
  cases found with
  | true => trivial
  | false => exact issues_command hsave

lemma issues_inTransaction {failure : String} {rejected : Exn → Service Unit}
    {body : Service α} (hbody : body.Issues S) (hrollback : S .rollback)
    (hrejected : ∀ e, (rejected e).Issues S) : (inTransaction failure rejected body).Issues S := by
  refine issues_tryCatch hbody fun e => issues_bind (issues_command hrollback) fun _ =>
    issues_bind (hrejected e) fun _ => ?_
  cases e <;> trivial

lemma issues_dropWalletCache {u : UserId} (hdel : S (.redis (.delWallet u))) :
    (dropWalletCache u).Issues S := issues_tryCatch (issues_command hdel) fun _ => trivial

section Transaction

variable (htx : ∀ c, S (.tx c))
include htx

lemma issues_lockBalance {c : Currency} : (lockBalance c).Issues S := by
  refine issues_bind (issues_command (htx _)) fun found => ?_
  cases found <;> trivial

lemma issues_lockOrCreateBalance {a : Account} : (lockOrCreateBalance a).Issues S := by
  refine issues_bind (issues_command (htx _)) fun found => ?_
  cases found with
  | none => exact issues_bind (issues_command (htx _)) fun _ => trivial
  | some v => trivial

lemma issues_recordJournalEntry {options : RecordJournalOptions} :
    (recordJournalEntry options).Issues S := by
  refine issues_bind (issues_command (htx _)) fun id => ?_
  refine issues_bind (issues_command (htx _)) fun _ => ?_
  refine issues_bind (issues_command (htx _)) fun _ => ?_
  refine issues_bind (issues_command (htx _)) fun found => ?_
  cases found <;> trivial

variable {u : UserId} (hcommit : S .commit) (hdel : S (.redis (.delWallet u)))
include hcommit hdel

lemma issues_fundWalletTx {c : Currency} {amount : ℤ} {k : String} :
    (fundWalletTx u c amount k).Issues S := by
  refine issues_bind (issues_lockOrCreateBalance htx) fun _ => ?_
  refine issues_bind (issues_lockBalance htx) fun _ => ?_
  refine issues_bind issues_throwIf fun _ => ?_
  refine issues_bind (issues_recordJournalEntry htx) fun _ => ?_
  refine issues_bind (issues_command (htx _)) fun _ => ?_
  refine issues_bind (issues_command (htx _)) fun _ => ?_
  exact issues_bind (issues_command hcommit) fun _ =>
    issues_bind (issues_dropWalletCache hdel) fun _ => trivial

lemma issues_convertFundsTx {c : Conversion} {k : String} {purpose : TransactionPurpose} :
    (convertFundsTx u c k purpose).Issues S := by
  refine issues_bind (issues_command (htx _)) fun _ => ?_
  refine issues_bind issues_throwIf fun _ => ?_
  refine issues_bind (issues_lockOrCreateBalance htx) fun _ => ?_
  refine issues_bind (issues_lockBalance htx) fun _ => ?_
  refine issues_bind (issues_lockBalance htx) fun _ => ?_
  refine issues_bind issues_throwIf fun _ => ?_
  refine issues_bind (issues_recordJournalEntry htx) fun _ => ?_
  refine issues_bind (issues_command (htx _)) fun _ => ?_
  refine issues_bind (issues_command (htx _)) fun _ => ?_
  refine issues_bind (issues_command (htx _)) fun _ => ?_
  refine issues_bind (issues_command (htx _)) fun _ => ?_
  exact issues_bind (issues_command hcommit) fun _ =>
    issues_bind (issues_dropWalletCache hdel) fun _ => trivial

lemma issues_executeTradeTx {quote : Quote} {k : String} (hnow : S .now) :
    (executeTradeTx u quote k).Issues S := by
  refine issues_bind (issues_command (htx _)) fun _ => ?_
  refine issues_bind issues_throwIf fun _ => ?_
  refine issues_bind (issues_lockOrCreateBalance htx) fun _ => ?_
  refine issues_bind (issues_lockBalance htx) fun _ => ?_
  refine issues_bind (issues_lockBalance htx) fun _ => ?_
  refine issues_bind issues_throwIf fun _ => ?_
  refine issues_bind (issues_command (htx _)) fun _ => ?_
  refine issues_bind (issues_recordJournalEntry htx) fun _ => ?_
  refine issues_bind (issues_command (htx _)) fun _ => ?_
  refine issues_bind (issues_command (htx _)) fun _ => ?_
  refine issues_bind (issues_command (htx _)) fun _ => ?_
  refine issues_bind (issues_command (htx _)) fun _ => ?_
  refine issues_bind (issues_command hnow) fun _ => ?_
  refine issues_bind (issues_command (htx _)) fun _ => ?_
  exact issues_bind (issues_command hcommit) fun _ =>
    issues_bind (issues_dropWalletCache hdel) fun _ => trivial

end Transaction

/-! ## The requests -/

/-- The commands of a request, as far as they are for some requests only or name a user. -/
def Request.Uses (req : Request) : Cmd → Prop
  | .pool (.findWallet u) => u = req.userId
  | .pool (.saveWallet u) => u = req.userId
  | .pool (.findWalletBalances u) => req = .getWallet u
  | .pool (.saveOrder _) => ∃ u q k, req = .executeTrade u q k
  | .redis (.set q _ _) => req.Redeems q ∨ req.key = none
  | .redis (.getWallet u) => req = .getWallet u
  | .redis (.setWallet u _ _) => req = .getWallet u
  | .redis (.delWallet u) => u = req.userId ∧ req.key.isSome
  | .redis (.acquire u _) => u = req.userId ∧ req.key.isSome
  | .redis (.release u) => u = req.userId ∧ req.key.isSome
  | .tx _ => req.key.isSome
  | .startTransaction => req.key.isSome
  | .commit => req.key.isSome
  | .rollback => req.key.isSome
  | _ => True

/-- Neither a command for the wallet lock nor the drawing of an id. -/
def Cmd.plain : Cmd → Bool
  | .redis (.acquire _ _) => false
  | .redis (.release _) => false
  | .uuid => false
  | _ => true

lemma Cmd.ne_uuid {c : Cmd} (h : c.plain = true) : c ≠ .uuid := by
  rintro rfl
  cases h

lemma issues_consumeQuote {q : QuoteId} {u : UserId} (hredis : ∀ c, c = .getdel q ∨ c = .get q ∨
    c = .del q ∨ (∃ quote ex, c = .set q quote ex) → S (.redis c)) (hnow : S .now) :
    (consumeQuote q u).Issues S := by
  have hcommand (c : RedisCmd) (hc : c = .getdel q ∨ c = .get q ∨ c = .del q ∨
      ∃ quote ex, c = .set q quote ex) : (issue (.redis c)).Issues S :=
    issues_command (hredis c hc)
  refine issues_bind (issues_tryCatch (hcommand _ (by simp)) fun _ => ?_) fun raw => ?_
  · refine issues_bind (hcommand _ (by simp)) fun found => ?_
    cases found with
    | none => trivial
    | some quote => exact issues_bind (hcommand _ (by simp)) fun _ => trivial
  · cases raw with
    | none => trivial
    | some parsed =>
      dsimp only
      split
      · refine issues_bind (issues_bind (issues_command hnow) fun time => ?_) fun _ => trivial
        dsimp only
        split
        · exact issues_tryCatch (hcommand _ (by simp)) fun _ => trivial
        · trivial
      · trivial

/-- The redemption of a quote is up to the requests that redeem it. -/
lemma consumeQuote_uses {req : Request} {q : QuoteId} {u : UserId}
    (hS : ∀ c, req.Uses c → c ≠ .uuid → S c) (hq : req.Redeems q) :
    (consumeQuote q u).Issues S := by
  refine issues_consumeQuote ?_ (hS _ trivial Cmd.noConfusion)
  rintro c (rfl | rfl | rfl | ⟨quote, ex, rfl⟩)
  · exact hS _ trivial Cmd.noConfusion
  · exact hS _ trivial Cmd.noConfusion
  · exact hS _ trivial Cmd.noConfusion
  · exact hS _ (Or.inl hq) Cmd.noConfusion

/-- The actions under the wallet lock leave the lock alone. -/
lemma issues_fundWalletLocked {u : UserId} {value : String} {n : JsNumber} {currency : Currency}
    {amount : ℤ} {k : String}
    (hS : ∀ c, (Request.fundWallet u value n k).Uses c → c.plain = true → S c) :
    (fundWalletLocked u currency amount k).Issues S := by
  refine issues_bind (issues_command (hS _ trivial rfl)) fun replay => ?_
  split
  · trivial
  · refine issues_bind (issues_findOrCreateWallet (hS _ rfl rfl) (hS _ rfl rfl)) fun _ => ?_
    refine issues_bind (issues_command (hS _ rfl rfl)) fun _ => ?_
    refine issues_inTransaction ?_ (hS _ rfl rfl) fun _ => trivial
    have htx (c : TxCmd) : S (.tx c) := hS _ rfl rfl
    exact issues_fundWalletTx htx (hS _ rfl rfl) (hS _ ⟨rfl, rfl⟩ rfl)

lemma issues_convertFundsLocked {u : UserId} {from_ to_ : String} {n : JsNumber} {f t : Currency}
    {amount : ℤ} {k : String} {context : ConvertContext}
    (hS : ∀ c, (Request.convertFunds u from_ to_ n k context).Uses c → c.plain = true → S c) :
    (convertFundsLocked u f t amount k context).Issues S := by
  refine issues_bind (issues_command (hS _ trivial rfl)) fun rates => ?_
  refine issues_bind issues_rateOf fun _ => issues_bind issues_rateOf fun _ => ?_
  refine issues_bind issues_throwIf fun _ => ?_
  refine issues_bind (issues_findOrCreateWallet (hS _ rfl rfl) (hS _ rfl rfl)) fun _ => ?_
  refine issues_bind (issues_command (hS _ rfl rfl)) fun _ => ?_
  refine issues_inTransaction ?_ (hS _ rfl rfl) fun _ => trivial
  have htx (c : TxCmd) : S (.tx c) := hS _ rfl rfl
  exact issues_convertFundsTx htx (hS _ rfl rfl) (hS _ ⟨rfl, rfl⟩ rfl)

lemma issues_executeTradeLocked {u : UserId} {q : QuoteId} {quote : Quote} {k : String}
    (hS : ∀ c, (Request.executeTrade u q k).Uses c → c.plain = true → S c) :
    (executeTradeLocked u quote k).Issues S := by
  refine issues_bind (issues_findOrCreateWallet (hS _ rfl rfl) (hS _ rfl rfl)) fun _ => ?_
  refine issues_bind (issues_command (hS _ rfl rfl)) fun _ => ?_
  refine issues_inTransaction ?_ (hS _ rfl rfl) fun _ => ?_
  · have htx (c : TxCmd) : S (.tx c) := hS _ rfl rfl
    exact issues_executeTradeTx htx (hS _ rfl rfl) (hS _ ⟨rfl, rfl⟩ rfl) (hS _ trivial rfl)
  · refine issues_tryCatch (issues_bind (issues_command ?_) fun _ => trivial) fun _ => trivial
    exact hS _ ⟨u, q, k, rfl⟩ rfl

lemma issues_fundWallet {u : UserId} {currency : String} {amount : JsNumber} {k : String}
    (hS : ∀ c, (Request.fundWallet u currency amount k).Uses c → c ≠ .uuid → S c) :
    (fundWallet cfg u currency amount k).Issues S := by
  refine issues_bind issues_requireSupported fun c => ?_
  refine issues_bind issues_requirePositiveInteger fun a => ?_
  refine issues_bind (issues_command (hS _ trivial Cmd.noConfusion)) fun existing => ?_
  cases existing with
  | some journal => dsimp only; split <;> trivial
  | none =>
    exact issues_acquire (hS _ ⟨rfl, rfl⟩ Cmd.noConfusion) (hS _ ⟨rfl, rfl⟩ Cmd.noConfusion)
      (issues_fundWalletLocked fun c hc hplain => hS c hc (Cmd.ne_uuid hplain))

lemma issues_convertFunds {u : UserId} {from_ to_ : String} {amount : JsNumber} {k : String}
    {context : ConvertContext}
    (hS : ∀ c, (Request.convertFunds u from_ to_ amount k context).Uses c → c ≠ .uuid → S c) :
    (convertFunds cfg u from_ to_ amount k context).Issues S := by
  refine issues_bind issues_throwIf fun _ => ?_
  refine issues_bind issues_requireSupported fun f => ?_
  refine issues_bind issues_requireSupported fun t => ?_
  refine issues_bind issues_requirePositiveInteger fun a => ?_
  refine issues_bind (issues_command (hS _ trivial Cmd.noConfusion)) fun existing => ?_
  cases existing with
  | some journal => dsimp only; split <;> trivial
  | none =>
    exact issues_acquire (hS _ ⟨rfl, rfl⟩ Cmd.noConfusion) (hS _ ⟨rfl, rfl⟩ Cmd.noConfusion)
      (issues_convertFundsLocked fun c hc hplain => hS c hc (Cmd.ne_uuid hplain))

lemma issues_createQuote {u : UserId} {from_ to_ : String} {amount : ℤ} :
    (createQuote cfg u from_ to_ amount).Issues (Request.createQuote u from_ to_ amount).Uses := by
  refine issues_bind issues_throwIf fun _ => ?_
  refine issues_bind issues_requireSupported fun f => ?_
  refine issues_bind issues_requireSupported fun t => ?_
  refine issues_bind issues_throwIf fun _ => ?_
  refine issues_bind (issues_command trivial) fun rates => ?_
  refine issues_bind issues_rateOf fun _ => issues_bind issues_rateOf fun _ => ?_
  refine issues_bind issues_throwIf fun _ => ?_
  refine issues_bind (issues_command trivial) fun _ => ?_
  refine issues_bind (issues_command trivial) fun _ => ?_
  exact issues_bind (issues_command (Or.inr rfl)) fun _ => trivial

lemma issues_executeTrade {u : UserId} {q : QuoteId} {k : String}
    (hS : ∀ c, (Request.executeTrade u q k).Uses c → c ≠ .uuid → S c) :
    (executeTrade cfg u q k).Issues S := by
  refine issues_bind (issues_command (hS _ trivial Cmd.noConfusion)) fun existing => ?_
  cases existing with
  | some journal => dsimp only; split <;> trivial
  | none =>
    refine issues_bind (consumeQuote_uses hS rfl) fun found => ?_
    cases found with
    | none => trivial
    | some quote =>
      exact issues_acquire (hS _ ⟨rfl, rfl⟩ Cmd.noConfusion) (hS _ ⟨rfl, rfl⟩ Cmd.noConfusion)
        (issues_executeTradeLocked fun c hc hplain => hS c hc (Cmd.ne_uuid hplain))

lemma issues_getWallet {u : UserId}
    (hS : ∀ c, (Request.getWallet u).Uses c → c ≠ .uuid → S c) : (getWallet u).Issues S := by
  have hread : S (.redis (.getWallet u)) := hS _ rfl Cmd.noConfusion
  have hstore (w : WalletResponse) : S (.redis (.setWallet u w 3600)) := hS _ rfl Cmd.noConfusion
  refine issues_bind (issues_tryCatch (issues_command hread) fun _ => trivial) fun cached => ?_
  cases cached with
  | some wallet => trivial
  | none =>
    refine issues_bind (issues_command (hS _ rfl Cmd.noConfusion)) fun wallet => ?_
    cases wallet with
    | some wallet =>
      refine issues_bind trivial fun result => ?_
      exact issues_bind (issues_tryCatch (issues_command (hstore _)) fun _ => trivial)
        fun _ => trivial
    | none =>
      refine issues_bind (issues_command (hS _ rfl Cmd.noConfusion)) fun _ =>
        issues_bind trivial fun result => ?_
      exact issues_bind (issues_tryCatch (issues_command (hstore _)) fun _ => trivial)
        fun _ => trivial

/-- Only `createQuote` draws an id; the other requests issue their commands without. -/
lemma program_issues_of (cfg : Config) {req : Request}
    (hreq : ∀ u f t a, req ≠ .createQuote u f t a) (hS : ∀ c, req.Uses c → c ≠ .uuid → S c) :
    (req.program cfg).Issues S := by
  cases req with
  | fundWallet u c a k => exact issues_bind (issues_fundWallet hS) fun _ => trivial
  | convertFunds u f t a k ctx => exact issues_bind (issues_convertFunds hS) fun _ => trivial
  | createQuote u f t a => exact absurd rfl (hreq u f t a)
  | consumeQuote u q => exact issues_bind (consumeQuote_uses hS rfl) fun _ => trivial
  | executeTrade u q k => exact issues_bind (issues_executeTrade hS) fun _ => trivial
  | getWallet u => exact issues_bind (issues_getWallet hS) fun _ => trivial

theorem program_issues (cfg : Config) (req : Request) : (req.program cfg).Issues req.Uses := by
  by_cases hreq : ∃ u f t a, req = .createQuote u f t a
  · obtain ⟨u, f, t, a, rfl⟩ := hreq
    exact issues_bind issues_createQuote fun _ => trivial
  · push Not at hreq
    exact program_issues_of cfg hreq fun _ hc _ => hc

/-- The command that a thread issues is one of its request. -/
lemma uses_of_reachable (h : Reachable cfg s) {l : Local} {c : Cmd}
    {k : Except Exn c.Ret → Service Response} (hth : s.threads t = some ⟨l, .call c k, true⟩) :
    l.req.Uses c := by
  have hissues := forall_programs (P := fun l p => p.Issues l.req.Uses) h
    (fun req => program_issues cfg req)
    (fun s t choice l c k s₁ r _ _ _ _ hp => by rw [Local.after_req]; exact hp.2 r) hth rfl
  exact hissues.1

end FxExchange
