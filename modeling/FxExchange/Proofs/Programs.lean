import FxExchange.Proofs.Discipline

/-
# The parts of the programs

One rule for each function that the three operations are made of.  While a transaction is
open only the transaction of the request changes, so the rules speak of `l.withTx tx`.
-/

namespace FxExchange

open Service
open Prog (tryCatch tryFinally throwIf andThen orElse finallyDo wp_bind wp_tryCatch
  wp_tryFinally wp_throwIf wp_mono)

/-! ## States of a request -/

namespace Local

/-- The operation with this transaction. -/
def withTx (l : Local) (tx : Option Tx) : Local := { l with tx }

/-- The operation inside or outside of its lock. -/
def withInLock (l : Local) (inLock : Bool) : Local :=
  { l with trail := { l.trail with inLock } }

/-- The operation at this time. -/
def withClock (l : Local) (clock : ℕ) : Local := { l with trail := { l.trail with clock } }

/-- After a quote has been read from Redis, or not. -/
def withQuote (l : Local) (hand : Option Quote) (fellBack : Bool) (clock : ℕ) : Local :=
  { l with trail := { l.trail with hand, fellBack, clock } }

/-- After the commit of `tx`. -/
def committed (l : Local) (tx : Tx) : Local :=
  { l with tx := none, trail := { l.trail with booked := some tx } }

variable (l : Local) (tx tx' : Option Tx)

@[simp] lemma withTx_req : (l.withTx tx).req = l.req := rfl

@[simp] lemma withTx_tx : (l.withTx tx).tx = tx := rfl

@[simp] lemma withTx_trail : (l.withTx tx).trail = l.trail := rfl

@[simp] lemma withTx_withTx : (l.withTx tx).withTx tx' = l.withTx tx' := rfl

@[simp] lemma withTx_pair : (l.withTx tx).pair = l.pair := rfl

@[simp] lemma withTx_takes : (l.withTx tx).takes = l.takes := rfl

@[simp] lemma withTx_before : (l.withTx tx).Before = l.Before := rfl

end Local

namespace Tx

/-- The transaction after it has locked one more row. -/
def lock (tx : Tx) (k : RowLock) : Tx := { tx with locks := tx.locks ++ [k] }

/-- The transaction after it has written its journal. -/
def record (tx : Tx) (j : JournalEntry) (o : OutboxEntry) : Tx :=
  { tx with journals := [j], outbox := [o] }

/-- The transaction after it has rewritten a balance. -/
def write (tx : Tx) (a : Account) (v : ℤ) : Tx := { tx with updates := tx.updates ++ [(a, v)] }

lemma lockRow_of_notMem {tx : Tx} {k : RowLock} (h : ∀ k' ∈ tx.locks, k'.account ≠ k.account) :
    tx.lockRow k = tx.lock k := by
  rw [lockRow, if_neg, lock]
  simpa using h

end Tx

/-! ## Single commands -/

variable {cfg : Config} {nice : Prop} {α β : Type} {l : Local} {tx : Tx}
  {D : Discipline Cmd.Ret Exn Local}

/-- The rule of a command: its guard, and what follows from each answer. -/
lemma wp_issue {c : Cmd} {Q : Local → Except Exn c.Ret → Prop} (hguard : guard cfg l c)
    (hrow : rowGuard l c)
    (hok : ∀ seq a, Reply l c a → (nice → Admits l c (.ok a)) → Q (l.afterOk seq c a) (.ok a))
    (herr : ∀ e, (nice → Admits l c (.error e)) → Q (l.afterError c) (.error e)) :
    (issue c).wp (recording cfg nice) Q l := by
  refine Prog.wp_command.mpr ⟨⟨hguard, hrow⟩, ?_⟩
  rintro (e | a) l' ⟨⟨seq, rfl⟩, hreply, hnice⟩
  · exact herr e hnice
  · exact hok seq a (hreply a rfl) hnice

/-- The rule of a command that ends the request when it fails. -/
lemma wp_issue_bind {c : Cmd} {f : c.Ret → Service β} {Q : Local → Except Exn β → Prop}
    (hguard : guard cfg l c) (hrow : rowGuard l c)
    (hok : ∀ seq a, Reply l c a → (nice → Admits l c (.ok a)) →
      (f a).wp (recording cfg nice) Q (l.afterOk seq c a))
    (herr : ∀ e, (nice → Admits l c (.error e)) → Q (l.afterError c) (.error e)) :
    (issue c >>= f).wp (recording cfg nice) Q l :=
  wp_bind.mpr (wp_issue hguard hrow hok herr)

lemma wp_throwIf_bind {p : Prop} [Decidable p] {e : Exn} {f : Unit → Service β}
    {Q : Local → Except Exn β → Prop} (hthrow : p → Q l (.error e))
    (hgo : ¬ p → (f ()).wp D Q l) : (throwIf p e >>= f).wp D Q l :=
  wp_bind.mpr (wp_throwIf.mpr ⟨hthrow, hgo⟩)

/-! ## Inside a transaction -/

@[simp] lemma mayLock_withTx {t : Option Tx} {a : Account} :
    MayLock (l.withTx t) tx a ↔ MayLock l tx a :=
  ⟨fun h => ⟨h.updates, h.journals, h.own, h.notMem, h.before⟩,
    fun h => ⟨h.updates, h.journals, h.own, h.notMem, h.before⟩⟩

@[simp] lemma txGuard_withTx {t : Option Tx} {c : TxCmd} :
    txGuard (l.withTx t) tx c ↔ txGuard l tx c := by
  cases c with
  | selectForUpdate a => exact mayLock_withTx
  | insertBalance a => exact and_congr_left' mayLock_withTx
  | _ => exact Iff.rfl

@[simp] lemma txAdmits_withTx {t : Option Tx} {c : TxCmd} {r : Except Exn c.Ret} :
    txAdmits (l.withTx t) c r ↔ txAdmits l c r := by
  unfold txAdmits
  simp only [Local.withTx_takes]

/-- Whatever becomes of the transaction, the request may fail when it is disturbed. -/
def MayFail (nice : Prop) (l : Local) (Q : Local → Except Exn α → Prop) : Prop :=
  ∀ tx e, ¬ nice → Q (l.withTx tx) (.error e)

/-- The rule of a statement. -/
lemma wp_tx {c : TxCmd} {Q : Local → Except Exn c.Ret → Prop} (htx : tx.aborted = false)
    (hguard : txGuard l tx c) (hrow : rowGuard (l.withTx (some tx)) (.tx c))
    (hfail : MayFail nice l Q)
    (hok : ∀ seq a, TxReply tx c a → (nice → txAdmits l c (.ok a)) →
      Q (l.withTx (some (tx.afterOk seq c a))) (.ok a))
    (hnice : nice → ∀ e, ¬ txAdmits l c (.error e)) :
    (issue (.tx c)).wp (recording cfg nice) Q (l.withTx (some tx)) := by
  refine wp_issue ⟨tx, rfl, htx, txGuard_withTx.mpr hguard⟩ hrow (fun seq a hreply hn => ?_)
    fun e hn => ?_
  · obtain ⟨tx', htx', hreply⟩ := hreply
    obtain rfl := Option.some.inj htx'
    exact hok seq a hreply fun h => txAdmits_withTx.mp (hn h)
  · exact hfail _ e fun h => hnice h e (txAdmits_withTx.mp (hn h))

/-- A row is locked or, if the caller has none yet, inserted. -/
lemma wp_lockOrCreateBalance {a : Account} {Q : Local → Except Exn ℤ → Prop}
    (htx : tx.aborted = false) (hmay : MayLock l tx a) (hown : a.walletId = .user l.req.userId)
    (hfail : MayFail nice l Q)
    (hok : ∀ seq v created, 0 ≤ v → v ≤ seed →
      Q (l.withTx (some (tx.lock ⟨a, seq, v, created⟩))) (.ok v)) :
    (lockOrCreateBalance a).wp (recording cfg nice) Q (l.withTx (some tx)) := by
  refine wp_bind.mpr (wp_tx htx hmay trivial hfail (fun seq found hreply _ => ?_) fun _ _ => id)
  cases found with
  | some v =>
    obtain ⟨hnonneg, -, hle⟩ := hreply
    have := hok seq v false hnonneg hle
    rwa [← Tx.lockRow_of_notMem hmay.notMem] at this
  | none =>
    refine wp_bind.mpr (wp_tx htx ⟨hmay, hown⟩ trivial hfail (fun seq' _ _ _ => ?_) fun _ _ => id)
    have := hok seq' 0 true le_rfl (by decide)
    rwa [← Tx.lockRow_of_notMem hmay.notMem] at this

/-- A house row is there, unless the request is disturbed. -/
lemma wp_lockBalance {currency : Currency} {Q : Local → Except Exn ℤ → Prop}
    (htx : tx.aborted = false) (hmay : MayLock l tx ⟨.house, currency⟩)
    (hfail : MayFail nice l Q)
    (hok : ∀ seq v, 0 ≤ v → v ≤ seed →
      (∀ k ∈ tx.locks, k.account.currency = currency → k.amount + v ≤ seed) →
      (nice → ∀ x, l.takes ⟨.house, currency⟩ = some x → x ≤ v) →
      Q (l.withTx (some (tx.lock ⟨⟨.house, currency⟩, seq, v, false⟩))) (.ok v)) :
    (lockBalance currency).wp (recording cfg nice) Q (l.withTx (some tx)) := by
  refine wp_bind.mpr (wp_tx htx hmay trivial hfail (fun seq found hreply hn => ?_) fun _ _ => id)
  cases found with
  | some v =>
    obtain ⟨hnonneg, hsum, hle⟩ := hreply
    have := hok seq v hnonneg hle hsum hn
    rwa [← Tx.lockRow_of_notMem hmay.notMem] at this
  | none => exact hfail _ _ fun h => (hn h).2 rfl

/-- A row that the request has locked is rewritten. -/
lemma wp_updateBalance {a : Account} {v : ℤ} {f : Unit → Service β}
    {Q : Local → Except Exn β → Prop} (htx : tx.aborted = false)
    (hmem : ∃ k ∈ tx.locks, k.account = a) (hfail : MayFail nice l Q)
    (hv : 0 ≤ v ∧ fitsBigint v)
    (hok : (f ()).wp (recording cfg nice) Q (l.withTx (some (tx.write a v)))) :
    (updateBalance a v >>= f).wp (recording cfg nice) Q (l.withTx (some tx)) :=
  wp_bind.mpr (wp_tx htx hmem hv hfail (fun _ _ _ _ => hok) fun _ _ h => h hv)

/-- The row of a journal with its legs. -/
def RecordJournalOptions.saved (options : RecordJournalOptions) (id : Uuid) (createdAt : ℕ) :
    JournalEntry :=
  { options.toJournalData.row id createdAt with
    entries := options.entries.map fun e => { e with createdAt } }

@[simp] lemma RecordJournalOptions.saved_legs (options : RecordJournalOptions) (id : Uuid)
    (createdAt : ℕ) : (options.saved id createdAt).legs = options.entries := by
  simp [JournalEntry.legs, saved, Function.comp_def]

/-- The journal is written with its legs and its event, and read back. -/
lemma wp_recordJournalEntry {options : RecordJournalOptions} {f : JournalEntry → Service β}
    {Q : Local → Except Exn β → Prop} (htx : tx.aborted = false) (hjournals : tx.journals = [])
    (houtbox : tx.outbox = []) (huser : options.userId = l.req.userId)
    (hkey : l.req.key = some options.idempotencyKey) (hcommitted : l.Committed)
    (hfail : MayFail nice l Q) (hnice : nice → options.checks)
    (hrate : rowGuard l (.tx (.insertJournal options.toJournalData)))
    (hentries : options.entries.all LedgerEntryInput.checks)
    (hok : ∀ j id o, j = options.saved id tx.startedAt → o.eventType = "journal.created" →
      o.payload.journalId = j.id → o.payload.entries = j.legs →
      (f j).wp (recording cfg nice) Q (l.withTx (some (tx.record j o)))) :
    (recordJournalEntry options >>= f).wp (recording cfg nice) Q (l.withTx (some tx)) := by
  refine wp_bind.mpr (wp_bind.mpr (wp_tx htx ⟨huser, hkey, hjournals, hcommitted⟩ hrate hfail
    (fun _ jid _ _ => ?_) fun hn _ h => ?_))
  swap
  · exact absurd h (by simp [txAdmits, hnice hn])
  refine wp_bind.mpr (wp_tx htx trivial hentries hfail (fun _ _ _ _ => ?_) fun _ _ h => ?_)
  swap
  · exact absurd h (by simp [txAdmits, hentries])
  refine wp_bind.mpr (wp_tx htx trivial trivial hfail (fun _ oid _ _ => ?_) fun _ _ h => h)
  refine wp_bind.mpr (wp_tx htx trivial trivial hfail (fun _ found hreply _ => ?_) fun _ _ h => h)
  have hfound := hreply (options.saved jid tx.startedAt) (by
    simp [Tx.afterOk, hjournals, JournalData.row, RecordJournalOptions.saved])
  subst hfound
  have := hok (options.saved jid tx.startedAt) jid
    { id := oid, eventType := "journal.created"
      payload := { options.toJournalData with journalId := jid, entries := options.entries }
      status := .pending, retryCount := 0, createdAt := tx.startedAt }
    rfl rfl rfl (by simp)
  simpa [Tx.afterOk, Tx.record, hjournals, houtbox, JournalData.row,
    RecordJournalOptions.saved] using this

/-- The commit, and what follows it. -/
lemma wp_commit {u : UserId} {a : α} {j : JournalEntry} {Q : Local → Except Exn α → Prop}
    (hbooks : Books l.req l.trail.hand tx j) (hfail : MayFail nice l Q)
    (hok : Books l.req l.trail.hand tx j → Q (l.committed tx) (.ok a)) :
    (commitTransaction >>= fun _ => dropWalletCache u >>= fun _ => (Pure.pure a : Service α)).wp
      (recording cfg nice) Q (l.withTx (some tx)) := by
  refine wp_issue_bind ⟨tx, j, rfl, hbooks⟩ trivial (fun seq _ _ _ => ?_)
    fun e hn => hfail none e hn
  have hafter : (l.withTx (some tx)).afterOk seq .commit () = l.committed tx := by
    simp [Local.afterOk, Local.withTx, Local.committed, Option.filter, hbooks.aborted]
  rw [hafter]
  exact wp_bind.mpr (wp_tryCatch.mpr (wp_issue trivial trivial (fun _ _ _ _ => hok hbooks)
    fun _ _ => hok hbooks))

/-- A failed transaction is rolled back before its error is thrown. -/
lemma wp_inTransaction {failure : String} {rejected : Exn → Service Unit} {body : Service α}
    {Q : Local → Except Exn α → Prop}
    (hfail : ¬ nice → ∀ clock e, Q ((l.withClock clock).withTx none) (.error e))
    (hrejected : ¬ nice → ∀ clock error, (rejected error).wp (recording cfg nice)
      (fun l' _ => ∀ e, Q l' (.error e)) ((l.withClock clock).withTx none))
    (hbody : body.wp (recording cfg nice) (fun l' r => match r with
      | .ok a => Q l' (.ok a)
      | .error _ => ¬ nice ∧ ∃ clock tx, l' = (l.withClock clock).withTx tx) l) :
    (inTransaction failure rejected body).wp (recording cfg nice) Q l := by
  refine wp_tryCatch.mpr (wp_mono (fun l' r hr => ?_) hbody)
  cases r with
  | ok a => exact hr
  | error error =>
    obtain ⟨hn, clock, tx, rfl⟩ := hr
    refine wp_issue_bind trivial trivial (fun _ _ _ _ => ?_) fun e _ => hfail hn clock e
    refine wp_bind.mpr (wp_mono (fun l' r hr => ?_) (hrejected hn clock error))
    cases r with
    | error e => exact hr e
    | ok _ => cases error <;> exact hr _

/-! ## Around the transactions -/

lemma wp_requireSupported {value : String} {f : Currency → Service β}
    {Q : Local → Except Exn β → Prop}
    (hnone : supportedCurrency value = none → ∀ e, Q l (.error e))
    (hsome : ∀ c, supportedCurrency value = some c → (f c).wp D Q l) :
    (requireSupported value >>= f).wp D Q l := by
  refine wp_bind.mpr ?_
  unfold requireSupported
  split
  · rename_i c hc
    exact hsome c hc
  · rename_i hc
    exact hnone hc _

lemma wp_requirePositiveInteger {amount : JsNumber} {f : ℤ → Service β}
    {Q : Local → Except Exn β → Prop}
    (hnone : (¬ ∃ a, amount = .integer a ∧ 0 < a) → ∀ e, Q l (.error e))
    (hsome : ∀ a, amount = .integer a → 0 < a → (f a).wp D Q l) :
    (requirePositiveInteger amount >>= f).wp D Q l := by
  refine wp_bind.mpr ?_
  cases amount with
  | notInteger => exact hnone (by simp) _
  | integer n =>
    simp only [requirePositiveInteger]
    split
    · rename_i hle
      exact hnone (by simpa using hle) _
    · rename_i hpos
      exact hsome n rfl (not_le.mp hpos)

/-- The rate that the provider's answer has for a currency, if it has a usable one. -/
lemma wp_rateOf {rates : VersionedRates} {c : Currency} {f : ℚ → Service β}
    {Q : Local → Except Exn β → Prop}
    (hfail : (∀ table x, rates.rates = some table → parseRate (table c) ≠ .ok x) →
      ∀ e, Q l (.error e))
    (hok : ∀ table x, rates.rates = some table → parseRate (table c) = .ok x →
      (f x).wp D Q l) :
    (rateOf rates c >>= f).wp D Q l := by
  refine wp_bind.mpr ?_
  unfold rateOf
  cases hrates : rates.rates with
  | none => exact hfail (by simp [hrates]) _
  | some table =>
    dsimp only
    cases hparse : parseRate (table c) with
    | error message =>
      refine hfail (fun table' x htable hx => ?_) _
      obtain rfl := Option.some.inj (hrates.symm.trans htable)
      rw [hparse] at hx
      cases hx
    | ok x => exact hok table x hrates hparse

/-- The wallet row is there afterwards. -/
lemma wp_findOrCreateWallet {u : UserId} {f : Unit → Service β}
    {Q : Local → Except Exn β → Prop} (hfail : ¬ nice → ∀ e, Q l (.error e))
    (hok : (f ()).wp (recording cfg nice) Q l) :
    (findOrCreateWallet u >>= f).wp (recording cfg nice) Q l := by
  refine wp_bind.mpr (wp_issue_bind trivial trivial (fun _ found _ _ => ?_) fun e hn => hfail hn e)
  cases found with
  | true => exact hok
  | false => exact wp_issue trivial trivial (fun _ _ _ _ => hok) fun e hn => hfail hn e

/-- The action runs under the wallet lock, which is given back whatever its outcome. -/
lemma wp_acquire {u : UserId} {action : Service α} {Q : Local → Except Exn α → Prop}
    (hu : u = l.req.userId) (htx : l.tx = none) (hlock : l.trail.inLock = false)
    (hmissed : l.trail.missedInLock = false)
    (hbusy : ¬ nice → ∀ e, Q l (.error e))
    (haction : action.wp (recording cfg nice)
      (fun l' r => l'.req = l.req ∧ l'.tx = none ∧ l'.trail.inLock = true ∧
        ∀ inLock, Q (l'.withInLock inLock) r) (l.withInLock true)) :
    (acquire cfg u action).wp (recording cfg nice) Q l := by
  refine wp_bind.mpr (wp_tryCatch.mpr (wp_issue ⟨hu, htx, hlock, hmissed⟩ trivial
    (fun _ _ _ _ => ?_) fun _ hn => hbusy hn _))
  refine wp_tryFinally.mpr (wp_mono (fun l' r hr => ?_) haction)
  obtain ⟨hreq, htx', hlock', hQ⟩ := hr
  have hself : l' = l'.withInLock true := by
    rw [Local.withInLock, ← hlock']
  refine wp_tryCatch.mpr (wp_issue ⟨by rw [hreq, hu], htx', hlock'⟩ trivial
    (fun _ _ _ _ => hQ false) fun _ _ => ?_)
  have := hQ true
  rw [← hself] at this
  exact this

/-- A quote is put back under a time to live that reaches to its expiry. -/
lemma wp_restoreQuote {quote : Quote} {f : Unit → Service β} {Q : Local → Except Exn β → Prop}
    (hand : l.trail.hand = some quote) (howner : quote.userId ≠ l.req.userId)
    (htx : l.tx = none) (hbooked : l.trail.booked = none) (hrejected : l.trail.rejected = none)
    (hok : ∀ hand clock,
      (f ()).wp (recording cfg nice) Q (l.withQuote hand l.trail.fellBack clock))
    (hfail : ¬ nice → ∀ e, Q l (.error e)) :
    (restoreQuote quote.id quote >>= f).wp (recording cfg nice) Q l := by
  refine wp_bind.mpr (wp_issue_bind trivial trivial (fun _ (clock : ℕ) _ _ => ?_)
    fun e hn => hfail hn e)
  have hkeep := hok (some quote) clock
  rw [Local.withQuote, ← hand] at hkeep
  set remainingSeconds : ℤ := ⌈(((quote.expiresAt : ℤ) - clock : ℤ) : ℚ) / 1000⌉ with hceil
  show (if 0 < remainingSeconds then _ else _ : Service Unit).wp _ _ _
  have hreach : (quote.expiresAt : ℤ) - clock ≤ 1000 * remainingSeconds := by
    have hle := Int.le_ceil ((((quote.expiresAt : ℤ) - clock : ℤ) : ℚ) / 1000)
    rw [← hceil, div_le_iff₀ (by norm_num)] at hle
    have : (quote.expiresAt : ℤ) - clock ≤ remainingSeconds * 1000 := by exact_mod_cast hle
    linarith
  have hrounded : 1000 * remainingSeconds < (quote.expiresAt : ℤ) - clock + 1000 := by
    have hlt := Int.ceil_lt_add_one ((((quote.expiresAt : ℤ) - clock : ℤ) : ℚ) / 1000)
    rw [← hceil, ← sub_lt_iff_lt_add, lt_div_iff₀ (by norm_num)] at hlt
    have : (remainingSeconds - 1) * 1000 < (quote.expiresAt : ℤ) - clock := by exact_mod_cast hlt
    linarith
  split
  · rename_i hpos
    refine wp_tryCatch.mpr (wp_issue ⟨rfl, ⟨?_, ?_⟩, hbooked, hrejected, htx,
      Or.inl ⟨hand, howner⟩⟩ trivial (fun _ _ _ _ => ?_) fun _ _ => hkeep)
    · show quote.expiresAt ≤ clock + 1000 * remainingSeconds.toNat
      omega
    · show clock + 1000 * remainingSeconds.toNat < quote.expiresAt + 1000
      omega
    · have := hok none clock
      simpa [Local.afterOk, hand, Local.withQuote] using this
  · exact hkeep

/-- The call gets a quote of its own, unless it is disturbed. -/
lemma wp_consumeQuote {q : QuoteId} {u : UserId} {Q : Local → Except Exn (Option Quote) → Prop}
    (hu : u = l.req.userId) (hq : l.req.Redeems q) (hand : l.trail.hand = none)
    (huuid : l.trail.uuid = none) (hfellBack : l.trail.fellBack = false) (htx : l.tx = none)
    (hbooked : l.trail.booked = none) (hrejected : l.trail.rejected = none)
    (hfail : ¬ nice → ∀ hand fellBack clock e, Q (l.withQuote hand fellBack clock) (.error e))
    (hnone : ¬ nice → ∀ hand fellBack clock, Q (l.withQuote hand fellBack clock) (.ok none))
    (hsome : ∀ quote fellBack, quote.id = q → quote.userId = u → quote.Valid →
      (nice → checksExchangeRate (some (numberOfDecimal quote.effectiveRate)) ∧
        (numericColumn 18 10 quote.effectiveRate).isSome) →
      Q (l.withQuote (some quote) fellBack l.trail.clock) (.ok (some quote))) :
    (consumeQuote q u).wp (recording cfg nice) Q l := by
  -- what happens once the read-and-delete has found a quote
  have hfound (quote : Quote) (fellBack : Bool) (hid : quote.id = q) (hvalid : quote.Valid)
      (hn : nice → quote.userId = u ∧
        checksExchangeRate (some (numberOfDecimal quote.effectiveRate)) ∧
        (numericColumn 18 10 quote.effectiveRate).isSome) :
      (if quote.userId ≠ u then do
          restoreQuote q quote
          pure none
        else pure (some quote) : Service (Option Quote)).wp (recording cfg nice) Q
        (l.withQuote (some quote) fellBack l.trail.clock) := by
    split
    · rename_i hne
      have hdisturbed : ¬ nice := fun h => hne (hn h).1
      subst hid
      exact wp_restoreQuote rfl (hu ▸ hne) htx hbooked hrejected
        (fun hand clock => hnone hdisturbed hand fellBack clock)
        fun _ e => hfail hdisturbed _ _ _ e
    · rename_i howner
      exact hsome quote fellBack hid (not_not.mp howner) hvalid fun h => (hn h).2
  refine wp_bind.mpr (wp_tryCatch.mpr (wp_issue
    ⟨hq, hand, huuid, hfellBack, hbooked, hrejected⟩ trivial (fun _ found hreply hn => ?_)
    fun _ hn => ?_))
  · cases found with
    | none =>
      have hdisturbed : ¬ nice := fun h => by
        obtain ⟨_, habs, -⟩ := hn h
        exact absurd habs (by simp)
      have := hnone hdisturbed none l.trail.fellBack l.trail.clock
      exact this
    | some quote =>
      have := hfound quote l.trail.fellBack hreply.1 hreply.2 fun h => by
        obtain ⟨_, heq, hrest⟩ := hn h
        obtain rfl := Option.some.inj heq
        exact ⟨hu ▸ hrest.1, hrest.2⟩
      exact this
  · have hdisturbed : ¬ nice := hn
    have herr (e : Exn) := hfail hdisturbed l.trail.hand true l.trail.clock e
    refine wp_issue_bind ⟨hq, hand, huuid, rfl, hbooked, hrejected⟩ trivial
      (fun _ found hreply _ => ?_) fun e _ => herr e
    cases found with
    | none => exact hnone hdisturbed none true l.trail.clock
    | some quote =>
      refine wp_issue_bind ⟨hq, rfl⟩ trivial (fun _ _ _ _ => ?_)
        fun e _ => hfail hdisturbed (some quote) true l.trail.clock e
      exact hfound quote true hreply.1 hreply.2 fun h => absurd h hdisturbed

end FxExchange
