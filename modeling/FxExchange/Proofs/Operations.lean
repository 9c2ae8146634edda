import FxExchange.Proofs.Programs

/-
# The programs of the requests

Every request keeps to the discipline, books what it was asked for or nothing, and succeeds
if nothing stands in its way.
-/

namespace FxExchange

open DoubleEntry Service
open Prog (throwIf wp_bind wp_mono)

variable {cfg : Config} {nice : Prop} {l : Local} {tx : Tx} {req : Request}
  {hand : Option Quote} {j : JournalEntry} {u : UserId} {key : String}

/-! ## Numbers in range -/

lemma number_of_le {n : ℤ} (h0 : 0 ≤ n) (h : n ≤ seed) : number n = n :=
  number_of_natAbs_le (by rw [abs_of_nonneg h0]; exact h.trans (by decide))

/-- A difference from an amount in range is exact if it is not negative. -/
lemma number_sub {n a : ℤ} (hn : n ≤ seed) (ha : 0 ≤ a) (h : ¬ number (n - a) < 0) :
    a ≤ n ∧ number (n - a) = n - a := by
  rw [number_neg_iff] at h
  exact ⟨by omega, number_of_le (by omega) (by omega)⟩

lemma fitsBigint_of_le {n : ℤ} (h0 : 0 ≤ n) (h : n ≤ seed) : fitsBigint n = true := by
  have : seed < 2 ^ 63 := by decide
  simp only [fitsBigint, decide_eq_true_eq]
  omega

/-- A sound leg in range passes the constraints of its table. -/
lemma LedgerEntryInput.Sound.checks {e : LedgerEntryInput} (h : e.Sound) (ha : e.amount ≤ seed)
    (hb : e.balanceBefore ≤ seed) (hafter : e.balanceAfter ≤ seed) : e.checks = true := by
  simp [LedgerEntryInput.checks, h.amount_pos, h.before_nonneg, h.after_nonneg,
    fitsBigint_of_le h.amount_pos.le ha, fitsBigint_of_le h.before_nonneg hb,
    fitsBigint_of_le h.after_nonneg hafter]

/-! ## Books of the two movements -/

/-- The legs of a funding, from the balances before it. -/
def fundLegs (u : UserId) (c : Currency) (a userBefore houseBefore : ℤ) :
    List LedgerEntryInput :=
  [userLeg u .credit c a userBefore (userBefore + a),
   houseLeg .debit c a houseBefore (houseBefore - a)]

/-- The legs of an exchange, from the balances before it. -/
def exchangeLegs (u : UserId) (f t : Currency) (a out fromBefore toBefore houseFromBefore
    houseToBefore : ℤ) : List LedgerEntryInput :=
  [userLeg u .debit f a fromBefore (fromBefore - a),
   houseLeg .credit f a houseFromBefore (houseFromBefore + a),
   houseLeg .debit t out houseToBefore (houseToBefore - out),
   userLeg u .credit t out toBefore (toBefore + out)]

section Legs

variable {c f t : Currency} {a out fromBefore toBefore houseFromBefore houseToBefore : ℤ}

lemma fundLegs_sound (ha : 0 < a) (hto : 0 ≤ toBefore) (hle : a ≤ houseToBefore) :
    ∀ e ∈ fundLegs u c a toBefore houseToBefore, e.Sound := by
  simp only [fundLegs, List.forall_mem_cons, List.not_mem_nil, false_implies, implies_true,
    and_true]
  refine ⟨⟨ha, hto, ?_, rfl⟩, ⟨ha, ?_, ?_, rfl⟩⟩ <;> simp only [userLeg, houseLeg] <;> omega

lemma exchangeLegs_sound (ha : 0 < a) (hout : 0 < out) (hfrom : a ≤ fromBefore)
    (hto : 0 ≤ toBefore) (hhouse : 0 ≤ houseFromBefore) (hle : out ≤ houseToBefore) :
    ∀ e ∈ exchangeLegs u f t a out fromBefore toBefore houseFromBefore houseToBefore,
      e.Sound := by
  simp only [exchangeLegs, List.forall_mem_cons, List.not_mem_nil, false_implies, implies_true,
    and_true]
  refine ⟨⟨ha, ?_, ?_, rfl⟩, ⟨ha, hhouse, ?_, rfl⟩, ⟨hout, ?_, ?_, rfl⟩, ⟨hout, hto, ?_, rfl⟩⟩ <;>
    simp only [userLeg, houseLeg] <;> omega

lemma fundLegs_checks (ha : 0 < a) (hto : 0 ≤ toBefore) (hle : a ≤ houseToBefore)
    (hsum : toBefore + houseToBefore ≤ seed) :
    (fundLegs u c a toBefore houseToBefore).all LedgerEntryInput.checks = true := by
  refine List.all_eq_true.mpr fun e he =>
    (fundLegs_sound ha hto hle e he).checks ?_ ?_ ?_ <;>
  · simp only [fundLegs, List.mem_cons, List.not_mem_nil, or_false] at he
    rcases he with rfl | rfl <;> simp only [userLeg, houseLeg] <;> omega

lemma exchangeLegs_checks (ha : 0 < a) (hout : 0 < out) (hfrom : a ≤ fromBefore)
    (hto : 0 ≤ toBefore) (hhouse : 0 ≤ houseFromBefore) (hle : out ≤ houseToBefore)
    (hsumFrom : fromBefore + houseFromBefore ≤ seed)
    (hsumTo : toBefore + houseToBefore ≤ seed) :
    (exchangeLegs u f t a out fromBefore toBefore houseFromBefore houseToBefore).all
      LedgerEntryInput.checks = true := by
  refine List.all_eq_true.mpr fun e he =>
    (exchangeLegs_sound ha hout hfrom hto hhouse hle e he).checks ?_ ?_ ?_ <;>
  · simp only [exchangeLegs, List.mem_cons, List.not_mem_nil, or_false] at he
    rcases he with rfl | rfl | rfl | rfl <;> simp only [userLeg, houseLeg] <;> omega

lemma fundLegs_balanced (g : Currency) :
    groupNet Account.currency g
      ((fundLegs u c a toBefore houseToBefore).map LedgerEntryInput.leg) = 0 := by
  by_cases h : c = g <;>
    simp [groupNet, fundLegs, LedgerEntryInput.leg, LedgerEntryInput.account,
      LedgerEntryInput.delta, userLeg, houseLeg, h]

lemma exchangeLegs_balanced (g : Currency) :
    groupNet Account.currency g ((exchangeLegs u f t a out fromBefore toBefore houseFromBefore
      houseToBefore).map LedgerEntryInput.leg) = 0 := by
  by_cases hf : f = g <;> by_cases ht : t = g <;>
    simp [groupNet, exchangeLegs, LedgerEntryInput.leg, LedgerEntryInput.account,
      LedgerEntryInput.delta, userLeg, houseLeg, hf, ht]

/-- The last state of a funding transaction. -/
lemma Books.fund (ha : 0 < a) (hto : 0 ≤ toBefore) (hle : a ≤ houseToBefore)
    (hlegs : j.legs = fundLegs u c a toBefore houseToBefore) (haborted : tx.aborted = false)
    (hjournals : tx.journals = [j]) (huser : j.userId = req.userId)
    (hkey : req.key = some j.idempotencyKey) (hstatus : j.status = .success)
    (hcarries : Carries req hand j)
    (hlocks : tx.locks.map (fun k => (k.account, k.amount)) =
      [(⟨.user u, c⟩, toBefore), (⟨.house, c⟩, houseToBefore)])
    (hupdates : tx.updates =
      [(⟨.user u, c⟩, toBefore + a), (⟨.house, c⟩, houseToBefore - a)])
    (houtbox : ∃ o, tx.outbox = [o] ∧ o.eventType = "journal.created" ∧
      o.payload.journalId = j.id ∧ o.payload.entries = j.legs)
    (horders : OrdersOf req hand j tx.orders) : Books req hand tx j where
  aborted := haborted
  journals := hjournals
  userId := huser
  key := hkey
  status := hstatus
  carries := hcarries
  sound := hlegs ▸ fundLegs_sound ha hto hle
  nodup := by
    rw [hlegs]
    simp [fundLegs, LedgerEntryInput.account, userLeg, houseLeg]
  balanced g := hlegs ▸ fundLegs_balanced g
  locks := by
    rw [hlocks, hlegs]
    rfl
  updates := by
    rw [hupdates, hlegs]
    rfl
  outbox := houtbox
  orders := horders

/-- The last state of an exchange transaction.  The rows are locked, and written, in another
order than the legs are listed in. -/
lemma Books.exchange (hne : f ≠ t) (ha : 0 < a) (hout : 0 < out) (hfrom : a ≤ fromBefore)
    (hto : 0 ≤ toBefore) (hhouse : 0 ≤ houseFromBefore) (hle : out ≤ houseToBefore)
    (hlegs : j.legs =
      exchangeLegs u f t a out fromBefore toBefore houseFromBefore houseToBefore)
    (haborted : tx.aborted = false) (hjournals : tx.journals = [j])
    (huser : j.userId = req.userId) (hkey : req.key = some j.idempotencyKey)
    (hstatus : j.status = .success) (hcarries : Carries req hand j)
    (hlocks : tx.locks.map (fun k => (k.account, k.amount)) =
      [(⟨.user u, f⟩, fromBefore), (⟨.user u, t⟩, toBefore), (⟨.house, f⟩, houseFromBefore),
       (⟨.house, t⟩, houseToBefore)])
    (hupdates : tx.updates =
      [(⟨.user u, f⟩, fromBefore - a), (⟨.user u, t⟩, toBefore + out),
       (⟨.house, f⟩, houseFromBefore + a), (⟨.house, t⟩, houseToBefore - out)])
    (houtbox : ∃ o, tx.outbox = [o] ∧ o.eventType = "journal.created" ∧
      o.payload.journalId = j.id ∧ o.payload.entries = j.legs)
    (horders : OrdersOf req hand j tx.orders) : Books req hand tx j where
  aborted := haborted
  journals := hjournals
  userId := huser
  key := hkey
  status := hstatus
  carries := hcarries
  sound := hlegs ▸ exchangeLegs_sound ha hout hfrom hto hhouse hle
  nodup := by
    rw [hlegs]
    simp [exchangeLegs, LedgerEntryInput.account, userLeg, houseLeg, hne]
  balanced g := hlegs ▸ exchangeLegs_balanced g
  locks := by
    rw [hlocks, hlegs]
    exact ((List.perm_append_singleton _ _).symm).cons _
  updates := by
    rw [hupdates, hlegs]
    exact ((List.perm_append_singleton _ _).symm).cons _
  outbox := houtbox
  orders := horders

end Legs

/-! ## Funding -/

lemma before_house {l : Local} {w : WalletId} {c c' : Currency} (hw : w ≠ .house) :
    l.Before ⟨w, c⟩ ⟨.house, c'⟩ := Or.inl ⟨hw, rfl⟩

/-- `fundWallet` in its transaction. -/
lemma wp_fundWalletTx {currency : String} {c : Currency} {a : ℤ} {time : ℕ}
    {Q : Local → Except Exn OperationResponse → Prop}
    (hreq : l.req = .fundWallet u currency (.integer a) key)
    (hc : supportedCurrency currency = some c) (ha : 0 < a) (hcommitted : l.Committed)
    (hfail : MayFail nice l Q)
    (hok : ∀ tx j r, Books l.req l.trail.hand tx j → r.journal = j → r.status = .success →
      Q (l.committed tx) (.ok r)) :
    (fundWalletTx u c a key).wp (recording cfg nice) Q
      (l.withTx (some { startedAt := time })) := by
  have huser : l.req.userId = u := by rw [hreq]; rfl
  -- the two rows
  refine wp_bind.mpr (wp_lockOrCreateBalance rfl ⟨rfl, rfl, Or.inr (by rw [huser]), by simp,
    by simp⟩ (by rw [huser]) hfail fun seq v created hv hvs => ?_)
  refine wp_bind.mpr (wp_lockBalance rfl ⟨rfl, rfl, Or.inl rfl, by simp [Tx.lock], ?_⟩ hfail
    fun seq' h hh hhs hsum htakes => ?_)
  · simpa [Tx.lock] using before_house (by simp)
  simp only [Tx.lock, List.nil_append, List.mem_singleton, forall_eq, forall_const] at hsum
  simp only [Prog.andThen_ok, number_of_le hv hvs, number_of_le hh hhs]
  refine wp_throwIf_bind (fun hneg => hfail _ _ fun hn => ?_) fun hneg => ?_
  · have := htakes hn a (by simp [Local.takes, hreq, hc])
    exact absurd (number_neg_iff.mp hneg) (by omega)
  obtain ⟨hle, hexact⟩ := number_sub hhs ha.le hneg
  have hexact' : number (v + a) = v + a := number_of_le (by omega) (by omega)
  simp only [hexact, hexact']
  -- the journal and the balances
  refine wp_recordJournalEntry rfl rfl rfl huser.symm (by rw [hreq]; rfl) hcommitted hfail
    (fun _ => rfl) ⟨by simp [Local.exchangeRate, Local.rate, hreq], by simp [hreq]⟩
    (fundLegs_checks ha hv hle hsum) fun j id o hj htype hid hentries => ?_
  refine wp_updateBalance rfl (by simp [Tx.lock, Tx.record]) hfail
    ⟨by omega, fitsBigint_of_le (by omega) (by omega)⟩ ?_
  refine wp_updateBalance rfl (by simp [Tx.lock, Tx.record, Tx.write]) hfail
    ⟨by omega, fitsBigint_of_le (by omega) (by omega)⟩ ?_
  have hlegs : j.legs = fundLegs u c a v h := by
    rw [hj, RecordJournalOptions.saved_legs]
    rfl
  have hcarries : Carries l.req l.trail.hand j := by
    rw [hreq]
    exact ⟨c, a, hc, rfl, by rw [hj]; rfl, by rw [hlegs]; rfl⟩
  exact wp_commit
    (Books.fund ha hv hle hlegs rfl rfl (by rw [hj, huser]; rfl) (by rw [hreq, hj]; rfl)
      (by rw [hj]; rfl) hcarries rfl rfl ⟨o, rfl, htype, hid, hentries⟩ (by rw [hreq]; rfl))
    hfail fun hbooks => hok _ j _ hbooks rfl rfl

/-! ## Exchanging -/

section Exchange

variable {f t : Currency} {a out fromBefore toBefore houseFromBefore houseToBefore : ℤ}
  {α : Type} {Q : Local → Except Exn α → Prop}

/-- The pair of the request is what the lock order of its rows goes by. -/
lemma before_pair {l : Local} {w : WalletId} (h : l.pair = some (f, t)) :
    l.Before ⟨w, f⟩ ⟨w, t⟩ := Or.inr ⟨rfl, h⟩

/-- The rows of an exchange with what was read of them. -/
def exchangeRows (u : UserId) (f t : Currency)
    (fromBefore toBefore houseFromBefore houseToBefore : ℤ) : List (Account × ℤ) :=
  [(⟨.user u, f⟩, fromBefore), (⟨.user u, t⟩, toBefore), (⟨.house, f⟩, houseFromBefore),
   (⟨.house, t⟩, houseToBefore)]

/-- The four rows of an exchange are locked.  `short` is how the operation tests that the
caller has too little. -/
lemma wp_lockExchange {time : ℕ} {short : Option ℤ → Prop} [∀ found, Decidable (short found)]
    {e : Exn} {g : Option ℤ → ℤ → ℤ → ℤ → Service α} (huser : l.req.userId = u)
    (hpair : l.pair = some (f, t)) (hne : f ≠ t)
    (htakesFrom : l.takes ⟨.user u, f⟩ = some a)
    (htakesTo : nice → l.takes ⟨.house, t⟩ = some out) (hnone : short none)
    (hshort : ∀ v, 0 ≤ v → v ≤ seed → (short (some v) ↔ v < a)) (hfail : MayFail nice l Q)
    (hok : ∀ locks fromBefore toBefore houseFromBefore houseToBefore,
      locks.map (fun k : RowLock => (k.account, k.amount)) =
        exchangeRows u f t fromBefore toBefore houseFromBefore houseToBefore →
      a ≤ fromBefore → 0 ≤ fromBefore → 0 ≤ toBefore → 0 ≤ houseFromBefore →
      0 ≤ houseToBefore → fromBefore + houseFromBefore ≤ seed →
      toBefore + houseToBefore ≤ seed → (nice → out ≤ houseToBefore) →
      (g (some fromBefore) toBefore houseFromBefore houseToBefore).wp (recording cfg nice) Q
        (l.withTx (some { startedAt := time, locks }))) :
    (do
      let fromBalance ← selectForUpdate ⟨.user u, f⟩
      throwIf (short fromBalance) e
      let toBalance ← lockOrCreateBalance ⟨.user u, t⟩
      let houseFrom ← lockBalance f
      let houseTo ← lockBalance t
      g fromBalance toBalance houseFrom houseTo : Service α).wp (recording cfg nice) Q
      (l.withTx (some { startedAt := time })) := by
  -- the row that pays
  refine wp_bind.mpr (wp_tx rfl ⟨rfl, rfl, Or.inr (by rw [huser]), by simp, by simp⟩ trivial
    hfail (fun seq found hreply hn => ?_) fun _ _ h => h)
  refine wp_throwIf_bind (fun hpoor => hfail _ _ fun h => ?_) fun hrich => ?_
  · have hadm := hn h
    cases found with
    | none => simp [txAdmits, htakesFrom] at hadm
    | some v =>
      have hlt := (hshort v hreply.1 hreply.2.2).mp hpoor
      exact absurd (hadm a htakesFrom) (by omega)
  obtain _ | v := found
  · exact absurd hnone hrich
  obtain ⟨hv, -, hvs⟩ := hreply
  have hle : a ≤ v := by
    have := (hshort v hv hvs).not.mp hrich
    omega
  -- the other three rows
  refine wp_bind.mpr (wp_lockOrCreateBalance rfl ⟨rfl, rfl, Or.inr (by rw [huser]), ?_, ?_⟩
    (by rw [huser]) hfail fun seq₂ v₂ created hv₂ hvs₂ => ?_)
  · simpa [Tx.afterOk, Tx.lockRow] using hne
  · simpa [Tx.afterOk, Tx.lockRow] using before_pair hpair
  refine wp_bind.mpr (wp_lockBalance rfl ⟨rfl, rfl, Or.inl rfl, ?_, ?_⟩ hfail
    fun seq₃ v₃ hv₃ hvs₃ hsum₃ _ => ?_)
  · simp [Tx.afterOk, Tx.lockRow, Tx.lock]
  · simp [Tx.afterOk, Tx.lockRow, Tx.lock, before_house]
  refine wp_bind.mpr (wp_lockBalance rfl ⟨rfl, rfl, Or.inl rfl, ?_, ?_⟩ hfail
    fun seq₄ v₄ hv₄ hvs₄ hsum₄ htakes₄ => ?_)
  · simpa [Tx.afterOk, Tx.lockRow, Tx.lock] using hne
  · simp [Tx.afterOk, Tx.lockRow, Tx.lock, before_house, before_pair hpair]
  have hsum : v + v₃ ≤ seed :=
    hsum₃ ⟨⟨.user u, f⟩, seq, v, false⟩ (by simp [Tx.afterOk, Tx.lockRow, Tx.lock]) rfl
  have hsum' : v₂ + v₄ ≤ seed :=
    hsum₄ ⟨⟨.user u, t⟩, seq₂, v₂, created⟩ (by simp [Tx.afterOk, Tx.lockRow, Tx.lock]) rfl
  exact hok _ v v₂ v₃ v₄ rfl hle hv hv₂ hv₃ hv₄ hsum hsum' fun h =>
    htakes₄ h out (htakesTo h)

/-- The four rows of an exchange are rewritten. -/
lemma wp_writeExchange {g : Unit → Service α} (htx : tx.aborted = false)
    (hlocks : tx.locks.map (fun k => (k.account, k.amount)) =
      exchangeRows u f t fromBefore toBefore houseFromBefore houseToBefore)
    (ha : 0 ≤ a) (hout : 0 ≤ out) (hfrom : a ≤ fromBefore) (hto : 0 ≤ toBefore)
    (hhouse : 0 ≤ houseFromBefore) (hle : out ≤ houseToBefore)
    (hsumFrom : fromBefore + houseFromBefore ≤ seed) (hsumTo : toBefore + houseToBefore ≤ seed)
    (hfail : MayFail nice l Q)
    (hok : (g ()).wp (recording cfg nice) Q (l.withTx (some { tx with
      updates := tx.updates ++ exchangeRows u f t (fromBefore - a) (toBefore + out)
        (houseFromBefore + a) (houseToBefore - out) }))) :
    (updateBalance ⟨.user u, f⟩ (fromBefore - a) >>= fun _ =>
      updateBalance ⟨.user u, t⟩ (toBefore + out) >>= fun _ =>
      updateBalance ⟨.house, f⟩ (houseFromBefore + a) >>= fun _ =>
      updateBalance ⟨.house, t⟩ (houseToBefore - out) >>= g).wp (recording cfg nice) Q
      (l.withTx (some tx)) := by
  have hmem (b : Account) (v : ℤ)
      (hb : (b, v) ∈ exchangeRows u f t fromBefore toBefore houseFromBefore houseToBefore) :
      ∃ k ∈ tx.locks, k.account = b := by
    rw [← hlocks, List.mem_map] at hb
    obtain ⟨k, hk, heq⟩ := hb
    exact ⟨k, hk, congrArg Prod.fst heq⟩
  refine wp_updateBalance htx (hmem _ fromBefore (by simp [exchangeRows])) hfail
    ⟨by omega, fitsBigint_of_le (by omega) (by omega)⟩ ?_
  refine wp_updateBalance htx (hmem _ toBefore (by simp [exchangeRows])) hfail
    ⟨by omega, fitsBigint_of_le (by omega) (by omega)⟩ ?_
  refine wp_updateBalance htx (hmem _ houseFromBefore (by simp [exchangeRows])) hfail
    ⟨by omega, fitsBigint_of_le (by omega) (by omega)⟩ ?_
  refine wp_updateBalance htx (hmem _ houseToBefore (by simp [exchangeRows])) hfail
    ⟨by omega, fitsBigint_of_le (by omega) (by omega)⟩ ?_
  simpa [Tx.write, exchangeRows] using hok

end Exchange

/-- `convertFunds` in its transaction. -/
lemma wp_convertFundsTx {from_ to_ : String} {context : ConvertContext} {c : Conversion}
    {time : ℕ} {Q : Local → Except Exn OperationResponse → Prop}
    (hreq : l.req = .convertFunds u from_ to_ (.integer c.amount) key context)
    (hfrom : supportedCurrency from_ = some c.fromCurrency)
    (hto : supportedCurrency to_ = some c.toCurrency) (hne : c.fromCurrency ≠ c.toCurrency)
    (ha : 0 < c.amount) (hout : 0 < c.convertedAmount)
    (hconversion : nice → ∃ rates rate, l.trail.rates = some rates ∧
      rates.conversion c.fromCurrency c.toCurrency c.amount = some (c.convertedAmount, rate))
    (hrate : l.exchangeRate = some c.exchangeRate)
    (hchecks : nice → checksExchangeRate (some c.exchangeRate))
    (hcommitted : l.Committed) (hfail : MayFail nice l Q)
    (hok : ∀ tx j r, Books l.req l.trail.hand tx j → r.journal = j → r.status = .success →
      Q (l.committed tx) (.ok r)) :
    (convertFundsTx u c key context.purpose).wp (recording cfg nice) Q
      (l.withTx (some { startedAt := time })) := by
  have huser : l.req.userId = u := by rw [hreq]; rfl
  have hpair : l.pair = some (c.fromCurrency, c.toCurrency) := by
    simp only [Local.pair, hreq, hfrom, hto]
  have htakesFrom : l.takes ⟨.user u, c.fromCurrency⟩ = some c.amount := by
    simp [Local.takes, hreq, hfrom]
  have htakesTo (hn : nice) : l.takes ⟨.house, c.toCurrency⟩ = some c.convertedAmount := by
    obtain ⟨rates, rate, hrates, hconv⟩ := hconversion hn
    simp [Local.takes, hreq, hfrom, hto, hrates, hconv]
  refine wp_lockExchange huser hpair hne htakesFrom htakesTo (by simp) (fun v hv hvs => ?_)
    hfail fun locks fb tb hfb htb hlocks hle hfb0 htb0 hhfb0 hhtb0 hsumFrom hsumTo hliquid => ?_
  · simp [number_of_le hv hvs]
  simp only [Option.getD_some, number_of_le hfb0 (by omega : fb ≤ seed),
    number_of_le htb0 (by omega : tb ≤ seed), number_of_le hhfb0 (by omega : hfb ≤ seed),
    number_of_le hhtb0 (by omega : htb ≤ seed)]
  refine wp_throwIf_bind (fun hneg => hfail _ _ fun hn => ?_) fun hneg => ?_
  · have := hliquid hn
    exact absurd (number_neg_iff.mp hneg) (by omega)
  obtain ⟨hpays, hexact⟩ := number_sub (by omega) hout.le hneg
  simp only [hexact, number_of_le (by omega : 0 ≤ fb - c.amount) (by omega),
    number_of_le (by omega : 0 ≤ tb + c.convertedAmount) (by omega),
    number_of_le (by omega : 0 ≤ hfb + c.amount) (by omega)]
  refine wp_recordJournalEntry rfl rfl rfl huser.symm (by rw [hreq]; rfl) hcommitted hfail
    hchecks ⟨hrate.symm, by simp [hreq]⟩
    (exchangeLegs_checks ha hout hle htb0 hhfb0 hpays hsumFrom hsumTo)
    fun j id o hj htype hid hentries => ?_
  refine wp_writeExchange rfl hlocks ha.le hout.le hle htb0 hhfb0 hpays hsumFrom hsumTo hfail ?_
  have hlegs : j.legs = exchangeLegs u c.fromCurrency c.toCurrency c.amount c.convertedAmount
      fb tb hfb htb := by
    rw [hj, RecordJournalOptions.saved_legs]
    rfl
  have hcarries : Carries l.req l.trail.hand j := by
    rw [hreq]
    exact ⟨_, _, _, _, hfrom, hto, hne, rfl, by rw [hj]; rfl, by rw [hlegs]; rfl⟩
  exact wp_commit
    (Books.exchange hne ha hout hle htb0 hhfb0 hpays hlegs rfl rfl (by rw [hj, huser]; rfl)
      (by rw [hreq, hj]; rfl) (by rw [hj]; rfl) hcarries hlocks rfl
      ⟨o, rfl, htype, hid, hentries⟩ (by rw [hreq]; rfl))
    hfail fun hbooks => hok _ j _ hbooks rfl rfl

/-! ## Trading -/

/-- The row of an order keeps the rate of the quote as it is. -/
lemma Quote.Valid.row_orderOfQuote {quote : Quote} (hvalid : quote.Valid)
    (h : (orderOfQuote u quote).checks) (id : Uuid) :
    (orderOfQuote u quote).row id = { orderOfQuote u quote with id } := by
  obtain ⟨n, hn⟩ := hvalid.rate
  simp only [OrderData.checks, orderOfQuote, Option.all_some] at h
  have hrate := numericColumn_of_decimals hn (of_decide_eq_true h).2.2.2.2
  simp [OrderData.row, orderOfQuote, hrate]

/-- `executeTrade` in its transaction. -/
lemma wp_executeTradeTx {quote : Quote} {q : QuoteId} {time : ℕ}
    {Q : Local → Except Exn OperationResponse → Prop} (hreq : l.req = .executeTrade u q key)
    (hhand : l.trail.hand = some quote) (hid : quote.id = q) (howner : quote.userId = u)
    (hvalid : quote.Valid)
    (hchecks : nice → checksExchangeRate (some (numberOfDecimal quote.effectiveRate)) ∧
      (numericColumn 18 10 quote.effectiveRate).isSome)
    (hcommitted : l.Committed) (hfail : ∀ clock, MayFail nice (l.withClock clock) Q)
    (hok : ∀ clock tx j r, Books l.req l.trail.hand tx j → r.journal = j →
      r.status = .success → Q ((l.withClock clock).committed tx) (.ok r)) :
    (executeTradeTx u quote key).wp (recording cfg nice) Q
      (l.withTx (some { startedAt := time })) := by
  have huser : l.req.userId = u := by rw [hreq]; rfl
  have hpair : l.pair = some (quote.fromCurrency, quote.toCurrency) := by
    simp only [Local.pair, hreq, hhand, Option.map_some]
  have htakesFrom : l.takes ⟨.user u, quote.fromCurrency⟩ = some quote.amountInSubunits := by
    simp [Local.takes, hreq, hhand]
  have htakesTo : l.takes ⟨.house, quote.toCurrency⟩ = some quote.amountOutSubunits := by
    simp [Local.takes, hreq, hhand]
  have hne := hvalid.distinct
  have ha := hvalid.amountIn_pos
  have hout := hvalid.amountOut_pos
  refine wp_lockExchange huser hpair hne htakesFrom (fun _ => htakesTo) (by simp) (by simp)
    (hfail l.trail.clock) fun locks fb tb hfb htb hlocks hle hfb0 htb0 hhfb0 hhtb0 hsumFrom
      hsumTo hliquid => ?_
  refine wp_throwIf_bind (fun hneg => hfail l.trail.clock _ _ fun hn => ?_) fun hneg => ?_
  · have := hliquid hn
    omega
  have hpays : quote.amountOutSubunits ≤ htb := by omega
  -- the order, still pending
  refine wp_bind.mpr (wp_tx rfl trivial ⟨⟨q, key, quote, howner ▸ hreq, hhand, by rw [howner]⟩,
    by simp only [orderOfQuote]; omega, by simp only [orderOfQuote]; omega⟩
    (hfail l.trail.clock) (fun _ oid horder _ => ?_) fun hn _ h => ?_)
  swap
  · have hrate := (hchecks hn).2
    simp [txAdmits, OrderData.checks, orderOfQuote, ha, hout, hrate,
      fitsBigint_of_le ha.le (by omega), fitsBigint_of_le hout.le (by omega)] at h
  simp only [Prog.andThen_ok, Option.getD_some, number_of_le hfb0 (by omega : fb ≤ seed),
    number_of_le htb0 (by omega : tb ≤ seed), number_of_le hhfb0 (by omega : hfb ≤ seed),
    number_of_le hhtb0 (by omega : htb ≤ seed),
    number_of_le ha.le (by omega : quote.amountInSubunits ≤ seed),
    number_of_le hout.le (by omega : quote.amountOutSubunits ≤ seed),
    number_of_le (by omega : 0 ≤ fb - quote.amountInSubunits) (by omega),
    number_of_le (by omega : 0 ≤ tb + quote.amountOutSubunits) (by omega),
    number_of_le (by omega : 0 ≤ hfb + quote.amountInSubunits) (by omega),
    number_of_le (by omega : 0 ≤ htb - quote.amountOutSubunits) (by omega)]
  -- the journal and the balances
  have hrate : l.exchangeRate = some (numberOfDecimal quote.effectiveRate) := by
    simp [Local.exchangeRate, Local.rate, hreq, hhand]
  have hkept : ∀ rate ∈ l.rate, (numericColumn 18 10 rate).isSome := by
    have hcolumn := (of_decide_eq_true horder).2.2.2.2
    simpa [Local.rate, hreq, hhand, orderOfQuote] using hcolumn
  refine wp_recordJournalEntry rfl rfl rfl huser.symm (by rw [hreq]; rfl) hcommitted
    (hfail l.trail.clock) (fun hn => (hchecks hn).1) ⟨hrate.symm, fun _ _ _ _ => hkept⟩
    (exchangeLegs_checks ha hout hle htb0 hhfb0 hpays hsumFrom hsumTo)
    fun j id o hj htype hoid hentries => ?_
  refine wp_writeExchange rfl hlocks ha.le hout.le hle htb0 hhfb0 hpays hsumFrom hsumTo
    (hfail l.trail.clock) ?_
  -- the order is filled
  refine wp_issue_bind trivial trivial (fun _ filledAt _ _ => ?_) fun _ hn =>
    hfail l.trail.clock _ _ hn
  refine wp_bind.mpr (wp_tx (l := l.withClock filledAt) rfl trivial trivial (hfail filledAt)
    (fun _ _ _ _ => ?_) fun _ _ h => h)
  have hlegs : j.legs = exchangeLegs u quote.fromCurrency quote.toCurrency
      quote.amountInSubunits quote.amountOutSubunits fb tb hfb htb := by
    rw [hj, RecordJournalOptions.saved_legs]
    rfl
  have hcarries : Carries l.req l.trail.hand j := by
    rw [hreq]
    exact ⟨quote, hhand, hid, howner, by rw [hj]; rfl, by rw [hlegs]; rfl⟩
  have huserJ : j.userId = l.req.userId := by rw [hj, huser]; rfl
  have hkeyJ : l.req.key = some j.idempotencyKey := by rw [hreq, hj]; rfl
  have horders : OrdersOf l.req l.trail.hand j [filledOrder u quote oid j.id filledAt] := by
    rw [hreq]
    exact ⟨quote, oid, filledAt, hhand, rfl⟩
  refine wp_commit
    (Books.exchange hne ha hout hle htb0 hhfb0 hpays hlegs rfl rfl huserJ hkeyJ
      (by rw [hj]; rfl) hcarries hlocks rfl ⟨o, rfl, htype, hoid, hentries⟩ ?_)
    (hfail filledAt) fun hbooks => hok filledAt _ j _ hbooks rfl rfl
  show OrdersOf l.req l.trail.hand j _
  simpa [Tx.afterOk, Tx.record, hvalid.row_orderOfQuote horder, filledOrder] using horders

/-! ## Answers of the operations -/

/-- The answer of an operation, once its wallet lock has been given back or was not needed. -/
def Done (nice : Prop) (req : Request) (l : Local) (r : Except Exn OperationResponse) : Prop :=
  l.req = req ∧ Answer nice l (r.map Response.operation)

/-- The operation has booked `tx`. -/
lemma Done.booked {r : OperationResponse} (hreq : l.req = req) (hvalid : req.Valid)
    (hbooks : Books l.req l.trail.hand tx j) (hj : r.journal = j) (hr : r.status = .success) :
    Done nice req (l.committed tx) (.ok r) :=
  ⟨hreq, rfl, hr, by rw [← hreq] at hvalid; exact hvalid,
    Or.inl ⟨tx, rfl, by rw [hbooks.journals, hj]⟩⟩

/-- The operation has found the journal of an earlier call. -/
lemma Done.replayed {r : OperationResponse} (hreq : l.req = req) (hvalid : req.Valid)
    (htx : l.tx = none) (hbooked : l.trail.booked = none)
    (hfound : l.trail.found = some r.journal) (hr : r.status = .success) :
    Done nice req l (.ok r) :=
  ⟨hreq, htx, hr, by rw [hreq]; exact hvalid, Or.inr ⟨hbooked, hfound⟩⟩

/-- The operation has booked nothing. -/
lemma Done.failed {e : Exn} (hreq : l.req = req) (htx : l.tx = none)
    (hbooked : l.trail.booked = none) (h : nice → ¬ req.Valid) : Done nice req l (.error e) :=
  ⟨hreq, htx, hbooked, fun hn _ => by rw [hreq]; exact h hn⟩

/-- The state in which an operation enters its wallet lock. -/
structure Fresh (l : Local) (req : Request) : Prop where
  req : l.req = req
  tx : l.tx = none
  booked : l.trail.booked = none
  rejected : l.trail.rejected = none
  missed : l.trail.missed = true

/-- The wallet lock around an operation. -/
lemma wp_acquire_done {u : UserId} {action : Service OperationResponse}
    (hu : u = l.req.userId) (hl : Fresh l req) (hlock : l.trail.inLock = false)
    (hmissed : l.trail.missedInLock = false)
    (haction : action.wp (recording cfg nice)
      (fun l' r => l'.trail.inLock = true ∧ Done nice req l' r) (l.withInLock true)) :
    (acquire cfg u action).wp (recording cfg nice) (Done nice req) l := by
  refine wp_acquire hu hl.tx hlock hmissed
    (fun hn e => Done.failed hl.req hl.tx hl.booked fun h => absurd h hn)
    (wp_mono (fun l' r ⟨hlock', hdone⟩ => ?_) haction)
  obtain ⟨hreq, hanswer⟩ := hdone
  refine ⟨hreq.trans hl.req.symm, ?_, hlock', fun _ => ⟨hreq, ?_⟩⟩
  · cases r <;> exact hanswer.1
  · cases r <;> exact hanswer

/-- The transaction of an operation, under the wallet lock. -/
lemma wp_transact {failure : String} {rejected : Exn → Service Unit}
    {body : Service OperationResponse} (hl : Fresh l req) (hlock : l.trail.inLock = true)
    (hrejected : ¬ nice → ∀ clock error, (rejected error).wp (recording cfg nice)
      (fun l' _ => ∀ e, l'.trail.inLock = true ∧ Done nice req l' (.error e))
      ((l.withClock clock).withTx none))
    (hbody : ∀ time, ∀ Q : Local → Except Exn OperationResponse → Prop,
      (∀ clock, MayFail nice (l.withClock clock) Q) →
      (∀ clock tx j r, Books l.req l.trail.hand tx j → r.journal = j → r.status = .success →
        Q ((l.withClock clock).committed tx) (.ok r)) →
      body.wp (recording cfg nice) Q (l.withTx (some { startedAt := time })))
    (hvalid : req.Valid) :
    (startTransaction >>= fun _ => inTransaction failure rejected body).wp
      (recording cfg nice) (fun l' r => l'.trail.inLock = true ∧ Done nice req l' r) l := by
  have hfailed (l' : Local) (hreq : l'.req = l.req) (htrail : l'.trail.booked = none)
      (htx : l'.tx = none) (hn : ¬ nice) (e : Exn) : Done nice req l' (.error e) :=
    Done.failed (hreq.trans hl.req) htx htrail fun h => absurd h hn
  refine wp_issue_bind ⟨hl.tx, hl.booked, hl.rejected, hlock⟩ trivial (fun _ time _ _ => ?_)
    fun e hn => ⟨hlock, hfailed l rfl hl.booked hl.tx hn e⟩
  refine wp_inTransaction (fun hn clock e =>
    ⟨hlock, hfailed ((l.withClock clock).withTx none) rfl hl.booked rfl hn e⟩) hrejected
    (hbody time _ (fun clock tx e hn => ⟨hn, clock, tx, rfl⟩) ?_)
  intro clock tx j r hbooks hj hr
  exact ⟨hlock, Done.booked hl.req hvalid hbooks hj hr⟩

/-! ## The operations -/

/-- The look-up of the idempotency key before the wallet lock. -/
lemma wp_lookup {f : Option JournalEntry → Service OperationResponse}
    (hkey : req.key = some key) (hvalid : req.Valid)
    (hmissed : (f none).wp (recording cfg nice) (Done nice req)
      { req, trail := { missed := true } })
    (hfound : ∀ j, j.status = .success →
      ∃ r, f (some j) = .pure r ∧ r.journal = j ∧ r.status = .success) :
    (findByIdempotencyKey req.userId key >>= f).wp (recording cfg nice) (Done nice req)
      { req } := by
  refine wp_issue_bind ⟨rfl, hkey, hvalid, rfl, rfl⟩ trivial (fun _ found hreply _ => ?_)
    fun e hn => Done.failed rfl rfl rfl fun h => absurd h hn
  cases found with
  | none => exact hmissed
  | some j =>
    obtain ⟨r, hr, hj, hstatus⟩ := hfound j hreply.2.2
    rw [hr]
    exact Done.replayed rfl hvalid rfl rfl (congrArg some hj.symm) hstatus

/-- A request that does not pass its own validation ends there. -/
lemma Done.invalid {e : Exn} (h : ¬ req.Valid) : Done nice req { req } (.error e) :=
  Done.failed rfl rfl rfl fun _ => h

/-- `fundWallet`. -/
theorem wp_fundWallet {currency : String} {amount : JsNumber} :
    (fundWallet cfg u currency amount key).wp (recording cfg nice)
      (Done nice (.fundWallet u currency amount key))
      { req := .fundWallet u currency amount key } := by
  refine wp_requireSupported (fun h _ => Done.invalid fun hvalid => by
    simpa [h] using hvalid.1) fun c hc => ?_
  refine wp_requirePositiveInteger (fun h _ => Done.invalid fun hvalid => h hvalid.2)
    fun a hamount ha => ?_
  subst hamount
  have hvalid : Request.Valid (.fundWallet u currency (.integer a) key) :=
    ⟨by simp [hc], a, rfl, ha⟩
  refine wp_lookup rfl hvalid ?_ fun j hj => ⟨fundReplay j, by simp only [hj]; rfl, rfl, rfl⟩
  refine wp_acquire_done rfl ⟨rfl, rfl, rfl, rfl, rfl⟩ rfl rfl ?_
  -- the second look-up, under the lock
  refine wp_issue_bind ⟨rfl, rfl, hvalid, rfl, rfl⟩ trivial (fun _ found hreply _ => ?_)
    fun e hn => ⟨rfl, Done.failed rfl rfl rfl fun h => absurd h hn⟩
  cases found with
  | some j =>
    simp only [Option.filter, hreply.2.2, decide_true, if_true]
    exact ⟨rfl, Done.replayed rfl hvalid rfl rfl rfl rfl⟩
  | none =>
    refine wp_findOrCreateWallet (fun hn e => ⟨rfl, Done.failed rfl rfl rfl fun h =>
      absurd h hn⟩) ?_
    refine wp_transact ⟨rfl, rfl, rfl, rfl, rfl⟩ rfl (fun hn clock error e => ⟨rfl,
      Done.failed rfl rfl rfl fun h => absurd h hn⟩) (fun time Q hfail hok => ?_) hvalid
    exact wp_fundWalletTx rfl hc ha ⟨rfl, rfl, rfl⟩ (hfail 0) (hok 0)

lemma VersionedRates.conversion_eq_some_iff {rates : VersionedRates} {f t : Currency} {a : ℤ}
    {p : ℤ × ℚ} :
    rates.conversion f t a = some p ↔ ∃ table x y, rates.rates = some table ∧
      parseRate (table f) = .ok x ∧ parseRate (table t) = .ok y ∧
      p = (number (convertSubunits a f.code t.code (crossRate x y)),
        numberOfDecimal (toFixed 8 (crossRate x y))) := by
  unfold conversion
  cases rates.rates with
  | none => simp
  | some table =>
    cases hx : parseRate (table f) <;> cases hy : parseRate (table t) <;> simp [hx, hy, eq_comm]

lemma VersionedRates.midRate_eq_some_iff {rates : VersionedRates} {f t : Currency} {q : ℚ} :
    rates.midRate f t = some q ↔ ∃ table x y, rates.rates = some table ∧
      parseRate (table f) = .ok x ∧ parseRate (table t) = .ok y ∧ q = crossRate x y := by
  unfold midRate
  cases rates.rates with
  | none => simp
  | some table =>
    cases hx : parseRate (table f) <;> cases hy : parseRate (table t) <;> simp [hx, hy, eq_comm]

lemma Local.exchangeRate_convertFunds {from_ to_ : String} {a : JsNumber}
    {context : ConvertContext} {f t : Currency} {rates : VersionedRates} {q : ℚ}
    (hreq : l.req = .convertFunds u from_ to_ a key context) (hf : supportedCurrency from_ = some f)
    (ht : supportedCurrency to_ = some t) (hrates : l.trail.rates = some rates)
    (hq : rates.midRate f t = some q) :
    l.exchangeRate = some (numberOfDecimal (toFixed 8 q)) := by
  simp [exchangeRate, rate, hreq, hf, ht, hrates, hq]

/-- `convertFunds`. -/
theorem wp_convertFunds {from_ to_ : String} {amount : JsNumber} {context : ConvertContext} :
    (convertFunds cfg u from_ to_ amount key context).wp (recording cfg nice)
      (Done nice (.convertFunds u from_ to_ amount key context))
      { req := .convertFunds u from_ to_ amount key context } := by
  refine wp_throwIf_bind (fun h => Done.invalid fun hvalid => hvalid.1 h) fun hdistinct => ?_
  refine wp_requireSupported (fun h _ => Done.invalid fun hvalid => by
    simpa [h] using hvalid.2.1) fun f hf => ?_
  refine wp_requireSupported (fun h _ => Done.invalid fun hvalid => by
    simpa [h] using hvalid.2.2.1) fun t ht => ?_
  refine wp_requirePositiveInteger (fun h _ => Done.invalid fun hvalid => h hvalid.2.2.2)
    fun a hamount ha => ?_
  subst hamount
  have hvalid : Request.Valid (.convertFunds u from_ to_ (.integer a) key context) :=
    ⟨hdistinct, by simp [hf], by simp [ht], a, rfl, ha⟩
  have hne : f ≠ t := by
    rintro rfl
    exact hdistinct ((toUpperCase_of_supportedCurrency hf).trans
      (toUpperCase_of_supportedCurrency ht).symm)
  refine wp_lookup rfl hvalid ?_ fun j hj => ⟨convertReplay j, by simp only [hj]; rfl, rfl, hj⟩
  refine wp_acquire_done rfl ⟨rfl, rfl, rfl, rfl, rfl⟩ rfl rfl ?_
  -- the rates
  refine wp_issue_bind trivial trivial (fun _ rates _ hn => ?_) fun e hn =>
    ⟨rfl, Done.failed rfl rfl rfl fun h => absurd h hn⟩
  have hnice (h : nice) := hn h u from_ to_ a key context f t rfl hf ht
  simp only [VersionedRates.conversion_eq_some_iff] at hnice
  refine wp_rateOf (fun hnone e => ⟨rfl, Done.failed rfl rfl rfl fun h => ?_⟩)
    fun table x hrates hx => ?_
  · obtain ⟨_, _, ⟨table, x, _, htable, hx, -, -⟩, -⟩ := hnice h
    exact absurd hx (hnone table x htable)
  refine wp_rateOf (fun hnone e => ⟨rfl, Done.failed rfl rfl rfl fun h => ?_⟩)
    fun table' y hrates' hy => ?_
  · obtain ⟨_, _, ⟨table, _, y, htable, -, hy, -⟩, -⟩ := hnice h
    exact absurd hy (hnone table y htable)
  obtain rfl := Option.some.inj (hrates.symm.trans hrates')
  -- the amounts that the rates come to are those that `Admits` speaks of
  have hpays (h : nice) : 0 < number (convertSubunits a f.code t.code (crossRate x y)) ∧
      checksExchangeRate (some (numberOfDecimal (toFixed 8 (crossRate x y)))) := by
    obtain ⟨_, _, ⟨table', x', y', htable, hx', hy', heq⟩, hpos, hchecks⟩ := hnice h
    obtain rfl := Option.some.inj (hrates.symm.trans htable)
    obtain rfl := Except.ok.inj (hx.symm.trans hx')
    obtain rfl := Except.ok.inj (hy.symm.trans hy')
    obtain ⟨rfl, rfl⟩ := Prod.mk.inj heq
    exact ⟨hpos, hchecks⟩
  refine wp_throwIf_bind (fun hsmall => ⟨rfl, Done.failed rfl rfl rfl fun h => ?_⟩)
    fun hlarge => ?_
  · exact absurd (hpays h).1 (not_lt.mpr hsmall)
  refine wp_findOrCreateWallet (fun hn e => ⟨rfl, Done.failed rfl rfl rfl fun h =>
    absurd h hn⟩) ?_
  refine wp_transact ⟨rfl, rfl, rfl, rfl, rfl⟩ rfl (fun hn clock error e => ⟨rfl,
    Done.failed rfl rfl rfl fun h => absurd h hn⟩) (fun time Q hfail hok => ?_) hvalid
  refine wp_convertFundsTx (u := u) rfl hf ht hne ha (not_le.mp hlarge) (fun h => ?_) ?_
    (fun h => (hpays h).2) ⟨rfl, trivial⟩ (hfail 0) (hok 0)
  swap
  · exact Local.exchangeRate_convertFunds rfl hf ht rfl
      (VersionedRates.midRate_eq_some_iff.mpr ⟨table, x, y, hrates, hx, hy, rfl⟩)
  exact ⟨rates, _, rfl, VersionedRates.conversion_eq_some_iff.mpr
    ⟨table, x, y, hrates, hx, hy, rfl⟩⟩

/-- The rejected order of a trade that has been rolled back. -/
lemma wp_saveRejected {quote : Quote} {q : QuoteId} {error : Exn}
    {Q : Local → Except Exn Unit → Prop} (hreq : l.req = .executeTrade u q key)
    (hhand : l.trail.hand = some quote) (howner : quote.userId = u) (htx : l.tx = none)
    (hbooked : l.trail.booked = none) (hrejected : l.trail.rejected = none)
    (hok : ∀ rejected, Q { l with trail := { l.trail with rejected } } (.ok ())) :
    (saveRejected u quote error).wp (recording cfg nice) Q l := by
  subst howner
  refine Prog.wp_tryCatch.mpr (wp_issue_bind ⟨htx, hbooked, hrejected, q, key, quote, _, hreq,
    hhand, rfl⟩ trivial (fun _ _ _ _ => hok _) fun _ _ => ?_)
  have := hok none
  rw [← hrejected] at this
  exact this

/-- `executeTrade`. -/
theorem wp_executeTrade {q : QuoteId} :
    (executeTrade cfg u q key).wp (recording cfg nice) (Done nice (.executeTrade u q key))
      { req := .executeTrade u q key } := by
  have hvalid : Request.Valid (.executeTrade u q key) := trivial
  refine wp_lookup rfl hvalid ?_ fun j hj => ⟨tradeReplay j, by simp only [hj]; rfl, rfl, rfl⟩
  refine wp_bind.mpr (wp_consumeQuote rfl rfl rfl rfl rfl rfl rfl rfl ?_ ?_ ?_)
  · exact fun hn _ _ _ e => Done.failed rfl rfl rfl fun h => absurd h hn
  · exact fun hn _ _ _ => Done.failed rfl rfl rfl fun h => absurd h hn
  intro quote fellBack hid howner hquote hchecks
  refine wp_acquire_done rfl ⟨rfl, rfl, rfl, rfl, rfl⟩ rfl rfl ?_
  refine wp_findOrCreateWallet (fun hn e => ⟨rfl, Done.failed rfl rfl rfl fun h =>
    absurd h hn⟩) ?_
  refine wp_transact ⟨rfl, rfl, rfl, rfl, rfl⟩ rfl (fun hn clock error => ?_)
    (fun time Q hfail hok => ?_) hvalid
  · exact wp_saveRejected rfl rfl howner rfl rfl rfl fun _ e =>
      ⟨rfl, Done.failed rfl rfl rfl fun h => absurd h hn⟩
  · exact wp_executeTradeTx rfl rfl hid howner hquote hchecks ⟨rfl, trivial⟩ hfail hok

/-! ## The other requests -/

/-- `createQuote`. -/
lemma wp_createQuote {from_ to_ : String} {amountInSubunits : ℤ}
    {Q : Local → Except Exn Quote → Prop} (hreq : req = .createQuote u from_ to_ amountInSubunits)
    (hfail : ∀ trail e, trail.booked = none → Q { req, trail } (.error e))
    (hok : ∀ trail quote, trail.booked = none → Q { req, trail } (.ok quote)) :
    (createQuote cfg u from_ to_ amountInSubunits).wp (recording cfg nice) Q { req } := by
  subst hreq
  refine wp_throwIf_bind (fun _ => hfail _ _ rfl) fun hdistinct => ?_
  refine wp_requireSupported (fun _ e => hfail _ e rfl) fun f hf => ?_
  refine wp_requireSupported (fun _ e => hfail _ e rfl) fun t ht => ?_
  refine wp_throwIf_bind (fun _ => hfail _ _ rfl) fun hpos => ?_
  refine wp_issue_bind trivial trivial (fun _ rates _ _ => ?_) fun e _ => hfail _ e rfl
  refine wp_rateOf (fun _ e => hfail { rates } e rfl) fun table x _ _ => ?_
  refine wp_rateOf (fun _ e => hfail { rates } e rfl) fun table y _ _ => ?_
  refine wp_throwIf_bind (fun _ => hfail { rates } _ rfl) fun hout => ?_
  refine wp_issue_bind ⟨rfl, rfl, rfl⟩ trivial (fun _ id _ _ => ?_)
    fun e _ => hfail { rates } e rfl
  refine wp_issue_bind trivial trivial (fun _ (clock : ℕ) _ _ => ?_) fun e _ =>
    hfail { rates, uuid := some id } e rfl
  have hne : f ≠ t := by
    rintro rfl
    exact hdistinct ((toUpperCase_of_supportedCurrency hf).trans
      (toUpperCase_of_supportedCurrency ht).symm)
  have hexpires : clock + cfg.ttlSeconds * 1000 = clock + 1000 * cfg.ttlSeconds := by
    rw [Nat.mul_comm]
  refine wp_issue_bind ⟨rfl, ⟨hexpires.le, ?_⟩, rfl, rfl, rfl,
    Or.inr ⟨rfl, rfl, rfl, rfl, ⟨hne, not_le.mp hpos, not_le.mp hout, _, rfl⟩, hexpires, rfl⟩⟩
    trivial (fun _ _ _ _ => hok { rates, clock, issued := some _ } _ rfl) fun e _ =>
      hfail { rates, uuid := some id, clock } e rfl
  show clock + 1000 * cfg.ttlSeconds < clock + cfg.ttlSeconds * 1000 + 1000
  omega

/-- `getWallet`. -/
lemma wp_getWallet {Q : Local → Except Exn WalletResponse → Prop} {trail : Trail}
    (hQ : ∀ r, Q { req, trail } r) :
    (getWallet u).wp (recording cfg nice) Q { req, trail } := by
  have hstore (wallet : WalletResponse) :
      (Prog.tryCatch (issue (.redis (.setWallet u wallet 3600))) (fun _ => Pure.pure ()) >>=
        fun _ => (Pure.pure wallet : Service WalletResponse)).wp (recording cfg nice) Q
        { req, trail } :=
    wp_bind.mpr (Prog.wp_tryCatch.mpr (wp_issue trivial trivial (fun _ _ _ _ => hQ _)
      fun _ _ => hQ _))
  refine wp_bind.mpr (Prog.wp_tryCatch.mpr (wp_issue trivial trivial (fun _ cached _ _ => ?_)
    fun _ _ => ?_))
  · cases cached with
    | some wallet => exact hQ _
    | none =>
      refine wp_issue_bind trivial trivial (fun _ wallet _ _ => ?_) fun e _ => hQ _
      cases wallet with
      | some wallet => exact hstore wallet
      | none => exact wp_issue_bind trivial trivial (fun _ _ _ _ => hstore _) fun e _ => hQ _
  · refine wp_issue_bind trivial trivial (fun _ wallet _ _ => ?_) fun e _ => hQ _
    cases wallet with
    | some wallet => exact hstore wallet
    | none => exact wp_issue_bind trivial trivial (fun _ _ _ _ => hstore _) fun e _ => hQ _

/-- Every request keeps to the discipline, writes rows that can be stored, and ends with an
answer that is backed by what it has booked or found. -/
theorem wp_program_recording (cfg : Config) (nice : Prop) (req : Request) :
    (req.program cfg).wp (recording cfg nice) (Answer nice) { req } := by
  have hdone {p : Service OperationResponse}
      (h : p.wp (recording cfg nice) (Done nice req) { req }) :
      (do return Response.operation (← p) : Service Response).wp (recording cfg nice)
        (Answer nice) { req } := by
    refine wp_bind.mpr (wp_mono (fun l r hr => ?_) h)
    cases r <;> exact hr.2
  cases req with
  | fundWallet u c a k => exact hdone wp_fundWallet
  | convertFunds u f t a k context => exact hdone wp_convertFunds
  | executeTrade u q k => exact hdone wp_executeTrade
  | createQuote u f t a =>
    refine wp_bind.mpr (wp_createQuote rfl (fun trail e h => ⟨rfl, h, fun _ hkey => ?_⟩)
      fun trail quote h => ⟨rfl, h, rfl⟩)
    exact absurd hkey (by simp [Request.key])
  | consumeQuote u q =>
    have herror (trail : Trail) (h : trail.booked = none) (e : Exn) :
        Answer nice { req := .consumeQuote u q, trail } (.error e) :=
      ⟨rfl, h, fun _ hkey => absurd hkey (by simp [Request.key])⟩
    refine wp_bind.mpr (wp_consumeQuote rfl rfl rfl rfl rfl rfl rfl rfl
      (fun _ _ _ _ e => herror _ rfl e) (fun _ _ _ _ => ⟨rfl, rfl, rfl, by simp⟩)
      fun quote _ _ howner _ _ => ⟨rfl, rfl, rfl, ?_⟩)
    rintro quote' ⟨⟩
    exact ⟨rfl, howner⟩
  | getWallet u =>
    refine wp_bind.mpr (wp_getWallet fun r => ?_)
    cases r with
    | ok w => exact ⟨rfl, rfl, rfl⟩
    | error e => exact ⟨rfl, rfl, fun _ hkey => absurd hkey (by simp [Request.key])⟩

/-- Every request keeps to the discipline, and ends with an answer that is backed by what it
has booked or found. -/
theorem wp_program (cfg : Config) (nice : Prop) (req : Request) :
    (req.program cfg).wp (discipline cfg nice) (Answer nice) { req } :=
  Prog.wp_of_restrict (wp_program_recording cfg nice req)

end FxExchange
