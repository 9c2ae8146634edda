import FxExchange.Proofs.Invariant

/-
# Deadlocks

Which transaction waits for which.  A request locks its own rows before those of the house,
and in each wallet the currency that it pays before the one that it gets; so transactions
cannot wait for each other in a circle, unless the pairs of currencies that they exchange
form one.
-/

namespace FxExchange

open LockOrder Transition

variable {cfg : Config} {s s' : Sys} {t : Tid}

/-! ## Waiting -/

/-- What a transaction can hold for itself: a balance row, or an idempotency key of a user. -/
inductive Resource
  | row (a : Account)
  | key (k : UserId × String)
  deriving DecidableEq, Repr

/-- The transaction that holds a resource. -/
def Locks.holder (locks : Locks) : Resource → Option Tid
  | .row a => locks.rows a
  | .key k => locks.keys k

/-- The resource that a statement needs. -/
def TxCmd.resource : TxCmd → Option Resource
  | .selectForUpdate a => some (.row a)
  | .insertBalance a => some (.row a)
  | .insertJournal j => some (.key (j.userId, j.idempotencyKey))
  | .updateBalance a _ => some (.row a)
  | _ => none

namespace Sys

/-- The resource that a thread has to wait for: its next statement cannot be executed. -/
def asks (s : Sys) (t : Tid) : Option Resource :=
  (s.threads t).bind fun
    | ⟨l, .call (.tx c) _, true⟩ => if (s.exec t l.tx (.tx c)).isNone then c.resource else none
    | _ => none

/-- The transaction of `t` waits for the one of `t'`. -/
def WaitsFor (s : Sys) : Tid → Tid → Prop :=
  LockOrder.WaitsFor (fun t r => s.asks t = some r) fun t r => s.locks.holder r = some t

/-- Some open transaction exchanges the first currency for the second one. -/
def Exchanges (s : Sys) (f g : Currency) : Prop :=
  ∃ t th, s.threads t = some th ∧ th.state.tx.isSome ∧ th.state.pair = some (f, g)

end Sys

/-! ## The order of resources -/

/-- The rows of the users come before those of the house, and these before the keys; in one
wallet the currencies are in the order `P`. -/
def Resource.Before (P : Currency → Currency → Prop) : Resource → Resource → Prop
  | .row a, .row b => (a.walletId ≠ .house ∧ b.walletId = .house) ∨
      (a.walletId = b.walletId ∧ P a.currency b.currency)
  | .row _, .key _ => True
  | .key _, _ => False

variable {P : Currency → Currency → Prop}

lemma Resource.Before.trans (hP : ∀ a b c, P a b → P b c → P a c) (r u v : Resource)
    (h : r.Before P u) (h' : u.Before P v) : r.Before P v := by
  cases r with
  | key k => exact h.elim
  | row a =>
    cases u with
    | key k => exact h'.elim
    | row b =>
      cases v with
      | key k => trivial
      | row c =>
        rcases h with ⟨ha, hb⟩ | ⟨hab, hP₁⟩ <;> rcases h' with ⟨hb', hc⟩ | ⟨hbc, hP₂⟩
        · exact absurd hb hb'
        · exact Or.inl ⟨ha, hbc ▸ hb⟩
        · exact Or.inl ⟨hab ▸ hb', hc⟩
        · exact Or.inr ⟨hab.trans hbc, hP _ _ _ hP₁ hP₂⟩

lemma Resource.Before.irrefl (hP : ∀ a, ¬ P a a) (r : Resource) : ¬ r.Before P r := by
  cases r with
  | key k => exact id
  | row a =>
    rintro (⟨hne, heq⟩ | ⟨-, h⟩)
    · exact hne heq
    · exact hP _ h

/-! ## The order in which resources are taken -/

/-- A statement does not wait for what its own transaction holds. -/
lemma holder_ne_of_execTx {db : Database} {locks : Locks} {seq : ℕ} {tx : Tx} {c : TxCmd}
    {r : Resource} (hexec : execTx db locks t seq tx c = none) (hr : c.resource = some r) :
    locks.holder r ≠ some t := by
  have hrow {a : Account} (hheld : locks.rows.heldByOther t a = true) : locks.rows a ≠ some t := by
    obtain ⟨t', ht', hne⟩ := Table.heldByOther_eq_true_iff.mp hheld
    rw [ht']
    exact fun heq => hne (Option.some.inj heq)
  cases c with
  | selectForUpdate a =>
    cases hr
    simp only [execTx] at hexec
    split at hexec
    · split at hexec
      · exact hrow ‹_›
      · cases hexec
    · split at hexec <;> cases hexec
  | insertBalance a =>
    cases hr
    simp only [execTx] at hexec
    split at hexec
    · cases hexec
    · split at hexec
      · exact hrow ‹_›
      · cases hexec
  | updateBalance a v =>
    cases hr
    simp only [execTx] at hexec
    split at hexec
    · exact hrow ‹_›
    · cases hexec
  | insertJournal j =>
    cases hr
    simp only [execTx] at hexec
    split at hexec
    · cases hexec
    split at hexec
    · cases hexec
    split at hexec
    · obtain ⟨t', ht', hne⟩ := Table.heldByOther_eq_true_iff.mp ‹_›
      intro heq
      exact hne (Option.some.inj (ht'.symm.trans heq))
    · cases hexec
  | _ => cases hr

/-- A thread that waits is about to issue a statement for a resource that it does not hold. -/
lemma Inv.of_asks (h : Inv cfg s) {r : Resource} (hr : s.asks t = some r) :
    ∃ th tx c, s.threads t = some th ∧ th.state.tx = some tx ∧ txGuard th.state tx c ∧
      c.resource = some r ∧ s.locks.holder r ≠ some t := by
  obtain ⟨th, hth, hask⟩ := Option.bind_eq_some_iff.mp hr
  split at hask
  · rename_i l c k
    split at hask
    · rename_i hnone
      obtain ⟨tx, htx, haborted, hguard⟩ := h.guard hth
      rw [htx, Sys.exec_tx haborted, Option.isNone_iff_eq_none, Option.map_eq_none_iff] at hnone
      exact ⟨_, tx, c, hth, htx, hguard, hask, holder_ne_of_execTx hnone hask⟩
    · cases hask
  · cases hask

/-- A thread waits only for resources that come after all that it holds. -/
lemma Inv.ordered (h : Inv cfg s) (t : Tid) (r u : Resource) (hr : s.locks.holder r = some t)
    (hu : s.asks t = some u) : r.Before (Relation.TransGen s.Exchanges) u := by
  obtain ⟨th, tx, c, hth, htx, hguard, hres, hne⟩ := h.of_asks hu
  have htxOf : s.txOf t = some tx := (Sys.txOf_eq hth).trans htx
  have hholds {a : Account} (hmem : ∃ k ∈ tx.locks, k.account = a) : s.locks.rows a = some t :=
    (h.ledger.rowLocks a t).mpr ⟨tx, htxOf, hmem⟩
  -- a row that the transaction may lock comes after the rows that it has locked
  have hafter {a b : Account} (hmay : MayLock th.state tx b) (ha : s.locks.rows a = some t) :
      Resource.Before (Relation.TransGen s.Exchanges) (.row a) (.row b) := by
    obtain ⟨tx', htx', k, hk, rfl⟩ := (h.ledger.rowLocks a t).mp ha
    obtain rfl := Option.some.inj (htxOf.symm.trans htx')
    rcases hmay.before k hk with hhouse | ⟨hw, hpair⟩
    · exact Or.inl hhouse
    · exact Or.inr ⟨hw, .single ⟨t, th, hth, by simp [htx], hpair⟩⟩
  -- a transaction that holds a key has written its journal
  have hkey {k : UserId × String} (hk : s.locks.keys k = some t) : tx.journals ≠ [] := by
    obtain ⟨tx', htx', hmem⟩ := (h.ledger.keyLocks k t).mp hk
    obtain rfl := Option.some.inj (htxOf.symm.trans htx')
    rintro hnil
    simp [hnil] at hmem
  cases c with
  | selectForUpdate b =>
    cases hres
    cases r with
    | row a => exact hafter hguard hr
    | key k => exact absurd hguard.journals (hkey hr)
  | insertBalance b =>
    cases hres
    cases r with
    | row a => exact hafter hguard.1 hr
    | key k => exact absurd hguard.1.journals (hkey hr)
  | insertJournal j =>
    cases hres
    cases r with
    | row a => trivial
    | key k => exact absurd hguard.2.2.1 (hkey hr)
  | updateBalance b v =>
    cases hres
    exact absurd (hholds hguard) hne
  | _ => cases hres

/-- While the currency pairs of the open exchanges form no circle, no transactions wait for
each other in a circle. -/
theorem deadlock_free (h : Reachable cfg s)
    (hpairs : ∀ c, ¬ Relation.TransGen s.Exchanges c c) (t : Tid) :
    ¬ Relation.TransGen s.WaitsFor t t :=
  no_cycle (Resource.Before.trans fun _ _ _ => Relation.TransGen.trans)
    (Resource.Before.irrefl hpairs) (fun _ _ _ hr hu => Option.some.inj (hr.symm.trans hu))
    (inv_of_reachable h).ordered t

/-- The first nine commands of a conversion whose user has no row of the target currency: the
last one locks the house's row of the source currency. -/
def lockHouse (t : Tid) : List Event :=
  serve t 2 ++ .run t (.rates parRates) :: serve t 6

/-- User 1 exchanges USD for EUR, and user 2 the same: it waits for the house's row of USD. -/
def alignedRun : List Event :=
  fundRun ++ .spawn (.fundWallet 2 "USD" (.integer 500) "fund") :: serve 20 18 ++
    .spawn (.convertFunds 1 "USD" "EUR" (.integer 100) "convert" .convert) :: lockHouse 39 ++
    .spawn (.convertFunds 2 "USD" "EUR" (.integer 100) "convert" .convert) ::
      (lockHouse 49).dropLast

/-- Two exchanges in one direction do not wait for each other in a circle. -/
theorem aligned_exchanges_wait : ∃ s, Reachable {} s ∧ s.WaitsFor 49 39 ∧
    ∀ t, ¬ Relation.TransGen s.WaitsFor t t := by
  have hplay : (runAll (Sys.step {}) anyStep Sys.initial alignedRun).any (fun s =>
      s.asks 49 = some (.row ⟨.house, .usd⟩) ∧ s.locks.rows ⟨.house, .usd⟩ = some 39 ∧
      ∀ t < s.seq, (s.threads t).all fun th => th.state.tx.isSome →
        th.state.pair = some (.usd, .eur)) = true := by decide +kernel
  obtain ⟨s, hrun, hs⟩ := exists_of_runAll hplay
  simp only [Bool.decide_and, Bool.and_eq_true, decide_eq_true_eq, Option.all_eq_true] at hs
  obtain ⟨hasks, hheld, hpairs⟩ := hs
  have hexchange {f g : Currency} (h : s.Exchanges f g) : f = .usd ∧ g = .eur := by
    obtain ⟨t, th, hth, htx, hpair⟩ := h
    have := hpairs t ((inv_of_reachable hrun).lt_seq hth) th hth htx
    rw [hpair] at this
    exact Prod.mk.inj (Option.some.inj this)
  refine ⟨s, hrun, ⟨_, hasks, hheld⟩, deadlock_free hrun fun c hc => ?_⟩
  obtain ⟨_, hhead, -⟩ := Relation.TransGen.head'_iff.mp hc
  obtain ⟨_, -, htail⟩ := Relation.TransGen.tail'_iff.mp hc
  exact absurd ((hexchange hhead).1.symm.trans (hexchange htail).2) (by decide)

/-- User 1 exchanges USD for EUR while user 2 exchanges EUR for USD: each has locked the
house's row that the other one needs next. -/
def opposedRun : List Event :=
  fundRun ++ .spawn (.fundWallet 2 "EUR" (.integer 500) "fund") :: serve 20 18 ++
    .spawn (.convertFunds 1 "USD" "EUR" (.integer 100) "convert" .convert) :: lockHouse 39 ++
    .spawn (.convertFunds 2 "EUR" "USD" (.integer 100) "convert" .convert) :: lockHouse 49

/-- Two exchanges in opposite directions wait for each other for ever. -/
theorem opposed_exchanges_deadlock : ∃ s, Reachable {} s ∧ s.WaitsFor 39 49 ∧
    s.WaitsFor 49 39 ∧ Relation.TransGen s.WaitsFor 39 39 := by
  have hplay : (runAll (Sys.step {}) anyStep Sys.initial opposedRun).any (fun s =>
      s.asks 39 = some (.row ⟨.house, .eur⟩) ∧ s.locks.rows ⟨.house, .eur⟩ = some 49 ∧
      s.asks 49 = some (.row ⟨.house, .usd⟩) ∧ s.locks.rows ⟨.house, .usd⟩ = some 39) = true := by
    decide +kernel
  obtain ⟨s, hrun, hs⟩ := exists_of_runAll hplay
  simp only [Bool.decide_and, Bool.and_eq_true, decide_eq_true_eq] at hs
  obtain ⟨hasks, hheld, hasks', hheld'⟩ := hs
  have hwaits : s.WaitsFor 39 49 := ⟨_, hasks, hheld⟩
  have hwaits' : s.WaitsFor 49 39 := ⟨_, hasks', hheld'⟩
  exact ⟨s, hrun, hwaits, hwaits', .tail (.single hwaits) hwaits'⟩

end FxExchange
