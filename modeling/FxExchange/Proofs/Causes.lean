import FxExchange.Proofs.Bank

/-
# Why operations fail

Every failure of an operation has one of a few causes, and its message tells which: the bank
refuses the transfers, the arguments are not valid, the rates are of no use, the quote is gone,
or a command has not been carried out.  What a refusal is based on was so at one moment: the
balance that is too small, together with all that the transaction has locked before.
-/

namespace FxExchange

open Clearing Service
open Prog (tryCatch tryFinally throwIf wp_bind wp_bind_bind wp_mono wp_tryCatch wp_tryFinally
  wp_command)

variable {cfg : Config} {l x : Local} {tx : Tx} {u : UserId} {α β : Type}

/-! ## What answers bear out -/

/-- What is known about the surroundings of a call: `seen P`, that `P` held at some moment of
it; and that some command whose failure the call does not catch has not been carried out. -/
structure Evidence where
  seen : (Sys → Prop) → Prop
  hindered : Prop
  mono : ∀ {P Q : Sys → Prop}, (∀ s, P s → Q s) → seen P → seen Q

/-- The error of a command that is not carried out. -/
def Exn.technical : Exn → Bool
  | .unavailable => true
  | .uniqueViolation => true
  | .checkViolation => true
  | _ => false

/-- The commands whose failure an operation catches, and goes on. -/
def Cmd.tried : Cmd → Bool
  | .pool (.saveOrder _) => true
  | .redis (.getdel _) => true
  | .redis (.set _ _ _) => true
  | .redis (.release _) => true
  | .redis (.delWallet _) => true
  | _ => false

/-- What is read of a row is its balance at a moment at which the rows that are locked still
have theirs; what is read of a quote is what Redis had at one moment. -/
def Evidence.Bears (w : Evidence) (l : Local) : (c : Cmd) → Except Exn c.Ret → Prop
  | .tx (.selectForUpdate a), .ok found => (a.walletId = .house → found.isSome) ∧
      ∀ tx, l.tx = some tx → w.seen fun s =>
        s.db.amount a = found.getD 0 ∧ ∀ k ∈ tx.locks, s.db.amount k.account = k.amount
  | .redis (.getdel q), .ok found =>
      w.seen fun s => Custody.live (s.redis.quotes q) s.now = found
  | .redis (.get q), .ok found =>
      w.seen fun s => Custody.live (s.redis.quotes q) s.now = found
  | _, .ok _ => True
  | c, .error e => c.tried = true ∨ (w.hindered ∧ e.technical = true)

/-- Any command may be issued; its answer is what the evidence bears out. -/
def accounting (w : Evidence) : Discipline Cmd.Ret Exn Local where
  guard _ _ := True
  outcome l c r l' := (∃ seq, l' = l.after seq c r) ∧ (∀ a, r = .ok a → Reply l c a) ∧
    w.Bears l c r

/-! ## Causes -/

/-- The validation of the arguments, which comes before all commands. -/
def Request.check : Request → Service Unit
  | .fundWallet _ currency amount _ => do
    let _ ← requireSupported currency
    let _ ← requirePositiveInteger amount
    pure ()
  | .convertFunds _ from_ to_ amount _ _ => do
    throwIf (toUpperCase from_ = toUpperCase to_)
      (.badRequest "Cannot convert to the same currency")
    let _ ← requireSupported from_
    let _ ← requireSupported to_
    let _ ← requirePositiveInteger amount
    pure ()
  | _ => pure ()

/-- What an operation makes of an error inside its transaction. -/
def Request.failure : Request → Exn
  | .fundWallet _ _ _ _ => .badRequest "Failed to fund wallet"
  | .convertFunds _ _ _ _ _ _ => .badRequest "Failed to convert funds"
  | _ => .badRequest "Failed to execute trade"

/-- The lock of the wallet is not to be had. -/
def busy : Exn := .internalServerError "System is busy, please try again later"

/-- The quote is not there for this user. -/
def quoteGone : Exn :=
  .badRequest "Quote expired, already used, or does not belong to this user"

/-- The amount is worth less than a subunit. -/
def tooSmall (context : ConvertContext) : Exn :=
  .badRequest ("Amount too small to " ++ context.text ++ ".")

/-- Why a call has failed with an error, by its request and by the quote and the rates that it
has come across. -/
inductive Cause (w : Evidence) (req : Request) (hand : Option Quote)
    (rates : Option VersionedRates) : Exn → Prop
  | insufficient {transfers : List (Transfer Account)} {c : Currency}
      (htransfers : req.transfers hand rates = some transfers)
      (hseen : w.seen fun s => clear s.db.amount transfers = .error ⟨.user req.userId, c⟩) :
      Cause w req hand rates (insufficientBalance c)
  | exhausted {transfers : List (Transfer Account)} {c : Currency}
      (htransfers : req.transfers hand rates = some transfers)
      (hseen : w.seen fun s => clear s.db.amount transfers = .error ⟨.house, c⟩) :
      Cause w req hand rates (houseLiquidityExhausted c)
  | invalid {e : Exn} (hcheck : req.check = .throw e) : Cause w req hand rates e
  /-- The provider's answer has no usable rate for one of the currencies. -/
  | unusable {r : VersionedRates} {c : Currency} {e : Exn} (hreq : req.isConversion = true)
      (hrates : rates = some r) (hrate : rateOf r c = .throw e) : Cause w req hand rates e
  | small {u : UserId} {from_ to_ k : String} {a out : ℤ} {context : ConvertContext}
      {f t : Currency} {r : VersionedRates}
      (hreq : req = .convertFunds u from_ to_ (.integer a) k context)
      (hf : supportedCurrency from_ = some f) (ht : supportedCurrency to_ = some t)
      (hrates : rates = some r) (hout : r.exactConversion f t a = some out) (hle : out ≤ 0) :
      Cause w req hand rates (tooSmall context)
  | gone {u : UserId} {q : QuoteId} {k : String} (hreq : req = .executeTrade u q k)
      (hseen : w.seen fun s => ∀ quote, Custody.live (s.redis.quotes q) s.now = some quote →
        quote.userId ≠ u) : Cause w req hand rates quoteGone
  | hindered {e : Exn} (h : w.hindered)
      (he : e.technical = true ∨ e = busy ∨ e = req.failure) : Cause w req hand rates e

/-- The states of a request that differ in nothing that a cause is about. -/
structure Local.Alike (l x : Local) : Prop where
  req : x.req = l.req
  hand : x.trail.hand = l.trail.hand
  rates : x.trail.rates = l.trail.rates

namespace Local

lemma Alike.refl (l : Local) : l.Alike l := ⟨rfl, rfl, rfl⟩

lemma Alike.trans {y : Local} (h : l.Alike x) (h' : x.Alike y) : l.Alike y :=
  ⟨h'.req.trans h.req, h'.hand.trans h.hand, h'.rates.trans h.rates⟩

/-- Why a request has failed. -/
abbrev Failed (w : Evidence) (l : Local) (e : Exn) : Prop :=
  Cause w l.req l.trail.hand l.trail.rates e

lemma Alike.failed {w : Evidence} {e : Exn} (h : l.Alike x) (hl : l.Failed w e) :
    x.Failed w e := by
  rw [Failed, h.req, h.hand, h.rates]
  exact hl

end Local

/-- The commands that tell nothing about quotes and rates. -/
def Cmd.silent : Cmd → Bool
  | .getRates => false
  | .redis (.getdel _) => false
  | .redis (.get _) => false
  | .redis (.set _ _ _) => false
  | _ => true

lemma Local.alike_after {c : Cmd} (hc : c.silent = true) (seq : ℕ) (r : Except Exn c.Ret) :
    l.Alike (l.after seq c r) := by
  cases c with
  | getRates => simp [Cmd.silent] at hc
  | redis c =>
    cases c with
    | getdel q | get q | set q quote ex => simp [Cmd.silent] at hc
    | _ => cases r <;> exact ⟨rfl, rfl, rfl⟩
  | pool c => cases c <;> cases r <;> exact ⟨rfl, rfl, rfl⟩
  | _ => cases r <;> exact ⟨rfl, rfl, rfl⟩

/-! ## Rules -/

variable {w : Evidence}

/-- In a transaction: an error stands for a command that was not carried out, or has a
cause. -/
def Body (w : Evidence) (l x : Local) (r : Except Exn α) : Prop :=
  l.Alike x ∧ ∀ e, r = .error e →
    (w.hindered ∧ e.technical = true) ∨ (l.Failed w e ∧ ∃ message, e = .badRequest message)

/-- Around the transactions: an error has a cause. -/
def Ends (w : Evidence) (x : Local) (r : Except Exn α) : Prop :=
  ∀ e, r = .error e → x.Failed w e

lemma body_technical (h : l.Alike x) {e : Exn} (hw : w.hindered) (he : e.technical = true) :
    Body w l x (.error e : Except Exn α) := by
  refine ⟨h, fun e' he' => ?_⟩
  obtain rfl := Except.error.inj he'
  exact .inl ⟨hw, he⟩

lemma body_failed (h : l.Alike x) {message : String} (he : l.Failed w (.badRequest message)) :
    Body w l x (.error (.badRequest message) : Except Exn α) := by
  refine ⟨h, fun e' he' => ?_⟩
  obtain rfl := Except.error.inj he'
  exact .inr ⟨he, message, rfl⟩

lemma ends_error {e : Exn} (he : x.Failed w e) : Ends w x (.error e : Except Exn α) := by
  intro e' he'
  obtain rfl := Except.error.inj he'
  exact he

lemma ends_ok (a : α) : Ends w x (.ok a) := by
  intro e he
  cases he

lemma ends_technical {e : Exn} (hw : w.hindered) (he : e.technical = true) :
    Ends w x (.error e : Except Exn α) := ends_error (.hindered hw (.inl he))

lemma Evidence.bears_error {c : Cmd} {e : Exn} (h : w.Bears l c (.error e)) :
    c.tried = true ∨ (w.hindered ∧ e.technical = true) := by
  cases c with
  | tx c => cases c <;> exact h
  | redis c => cases c <;> exact h
  | _ => exact h

/-- The rule of a command. -/
lemma wp_accounting {c : Cmd} {Q : Local → Except Exn c.Ret → Prop}
    (hok : ∀ seq a, Reply x c a → w.Bears x c (.ok a) → Q (x.afterOk seq c a) (.ok a))
    (herr : ∀ e, c.tried = true ∨ (w.hindered ∧ e.technical = true) →
      Q (x.afterError c) (.error e)) :
    (issue c).wp (accounting w) Q x := by
  refine wp_command.mpr ⟨trivial, ?_⟩
  rintro (e | a) l' ⟨⟨seq, rfl⟩, hreply, hbears⟩
  · exact herr e (Evidence.bears_error hbears)
  · exact hok seq a (hreply a rfl) hbears

/-- The rule of a command whose failure is not caught. -/
lemma wp_untried {c : Cmd} {Q : Local → Except Exn c.Ret → Prop} (hc : c.tried = false)
    (hok : ∀ seq a, Reply x c a → w.Bears x c (.ok a) → Q (x.afterOk seq c a) (.ok a))
    (herr : ∀ e, w.hindered → e.technical = true → Q (x.afterError c) (.error e)) :
    (issue c).wp (accounting w) Q x := by
  refine wp_accounting hok fun e he => ?_
  rcases he with htried | ⟨hw, he⟩
  · rw [hc] at htried
    cases htried
  · exact herr e hw he

/-- A command that ends the body of the operation when it fails. -/
lemma wp_body {c : Cmd} {f : c.Ret → Service α} (hx : l.Alike x)
    (hc : c.silent = true ∧ c.tried = false)
    (hok : ∀ seq a, l.Alike (x.afterOk seq c a) → Reply x c a → w.Bears x c (.ok a) →
      (f a).wp (accounting w) (Body w l) (x.afterOk seq c a)) :
    (issue c >>= f).wp (accounting w) (Body w l) x := by
  refine wp_bind.mpr (wp_untried hc.2 (fun seq a hreply hbears => ?_) fun e hw he => ?_)
  · exact hok seq a (hx.trans (Local.alike_after hc.1 seq (.ok a))) hreply hbears
  · exact body_technical (hx.trans (Local.alike_after hc.1 0 (.error e))) hw he

/-- A command that ends the operation when it fails. -/
lemma wp_ends {c : Cmd} {f : c.Ret → Service α} (hc : c.tried = false)
    (hok : ∀ seq a, Reply x c a → w.Bears x c (.ok a) →
      (f a).wp (accounting w) (Ends w) (x.afterOk seq c a)) :
    (issue c >>= f).wp (accounting w) (Ends w) x :=
  wp_bind.mpr (wp_untried hc hok fun _ hw he => ends_technical hw he)

/-! ## Inside a transaction -/

/-- A row of the house is locked. -/
lemma wp_lockHouse {c : Currency} {f : ℤ → Service α} (hx : l.Alike x) (htx : x.tx = some tx)
    (hnew : ∀ k ∈ tx.locks, k.account ≠ ⟨.house, c⟩)
    (hok : ∀ x' seq v, l.Alike x' → x'.tx = some (tx.lock ⟨⟨.house, c⟩, seq, v, false⟩) →
      0 ≤ v → v ≤ seed → (w.seen fun s => s.db.amount ⟨.house, c⟩ = v ∧
        ∀ k ∈ tx.locks, s.db.amount k.account = k.amount) →
      (f v).wp (accounting w) (Body w l) x') :
    (lockBalance c >>= f).wp (accounting w) (Body w l) x := by
  refine wp_bind_bind.mpr (wp_body hx ⟨rfl, rfl⟩ fun seq found hx' hreply hbears => ?_)
  obtain ⟨hsome, hseen⟩ := hbears
  obtain ⟨tx', htx', hreply⟩ := hreply
  obtain rfl := Option.some.inj (htx.symm.trans htx')
  cases found with
  | none => simp at hsome
  | some v =>
    refine hok _ seq v hx' ?_ hreply.1 hreply.2.2 (hseen tx htx)
    rw [← Tx.lockRow_of_notMem hnew]
    simp [Local.afterOk, htx, Tx.afterOk]

/-- A row of the caller is locked or, if there is none yet, inserted. -/
lemma wp_lockOrCreate {a : Account} {f : ℤ → Service α} (hx : l.Alike x) (htx : x.tx = some tx)
    (hnew : ∀ k ∈ tx.locks, k.account ≠ a)
    (hok : ∀ x' k, l.Alike x' → x'.tx = some (tx.lock k) → k.account = a →
      (f k.amount).wp (accounting w) (Body w l) x') :
    (lockOrCreateBalance a >>= f).wp (accounting w) (Body w l) x := by
  have hlock (k : RowLock) (hk : k.account = a) : tx.lockRow k = tx.lock k :=
    Tx.lockRow_of_notMem fun k' hk' => hk ▸ hnew k' hk'
  refine wp_bind_bind.mpr (wp_body hx ⟨rfl, rfl⟩ fun seq found hx' _ _ => ?_)
  cases found with
  | some v =>
    refine hok _ ⟨a, seq, v, false⟩ hx' ?_ rfl
    rw [← hlock _ rfl]
    simp [Local.afterOk, htx, Tx.afterOk]
  | none =>
    refine wp_bind_bind.mpr (wp_body hx' ⟨rfl, rfl⟩ fun seq' _ hx'' _ _ => ?_)
    refine hok _ ⟨a, seq', 0, true⟩ hx'' ?_ rfl
    rw [← hlock _ rfl]
    simp [Local.afterOk, htx, Tx.afterOk]

/-- The journal is written, and found again. -/
lemma wp_record {options : RecordJournalOptions} {f : JournalEntry → Service α}
    (hx : l.Alike x) (htx : x.tx = some tx) (hjournals : tx.journals = [])
    (hok : ∀ x' j, l.Alike x' → (f j).wp (accounting w) (Body w l) x') :
    (recordJournalEntry options >>= f).wp (accounting w) (Body w l) x := by
  refine wp_bind_bind.mpr (wp_body hx ⟨rfl, rfl⟩ fun _ jid hx₁ _ _ => ?_)
  refine wp_bind_bind.mpr (wp_body hx₁ ⟨rfl, rfl⟩ fun _ _ hx₂ _ _ => ?_)
  refine wp_bind_bind.mpr (wp_body hx₂ ⟨rfl, rfl⟩ fun _ oid hx₃ _ _ => ?_)
  refine wp_bind_bind.mpr (wp_body hx₃ ⟨rfl, rfl⟩ fun _ found hx₄ hreply _ => ?_)
  obtain ⟨tx', htx', hreply⟩ := hreply
  simp only [Local.afterOk, htx, Option.map_some, Option.some.injEq] at htx'
  subst htx'
  have hfound := hreply (options.saved jid tx.startedAt) (by
    simp [Tx.afterOk, hjournals, JournalData.row, RecordJournalOptions.saved])
  subst hfound
  exact hok _ _ hx₄

/-- The commit, and what follows it. -/
lemma wp_commit_body {a : α} (hx : l.Alike x) :
    (commitTransaction >>= fun _ => dropWalletCache u >>= fun _ => (Pure.pure a : Service α)).wp
      (accounting w) (Body w l) x := by
  refine wp_body hx ⟨rfl, rfl⟩ fun _ _ hx' _ _ => ?_
  have hdone (c : Cmd) (hc : c.silent = true) (seq : ℕ) (r : Except Exn c.Ret) (y : Local)
      (hy : l.Alike y) : Body w l (y.after seq c r) (.ok a : Except Exn α) :=
    ⟨hy.trans (Local.alike_after hc seq r), fun e he => by cases he⟩
  refine wp_bind.mpr (wp_tryCatch.mpr (wp_accounting (fun seq b _ _ => ?_) fun e _ => ?_))
  · exact hdone (.redis (.delWallet u)) rfl seq (.ok b) _ hx'
  · exact hdone (.redis (.delWallet u)) rfl 0 (.error e) _ hx'

/-- A failed transaction is rolled back before its error is thrown. -/
lemma wp_inTransaction_ends {failure : String} {rejected : Exn → Service Unit}
    {body : Service α} (hfailure : l.req.failure = .badRequest failure)
    (hrejected : ∀ e y, l.Alike y →
      (rejected e).wp (accounting w) (fun y' r => l.Alike y' ∧ r = .ok ()) y)
    (hbody : body.wp (accounting w) (Body w l) x) :
    (inTransaction failure rejected body).wp (accounting w) (Ends w) x := by
  refine wp_tryCatch.mpr (wp_mono (fun y r hr => ?_) hbody)
  obtain ⟨hy, herror⟩ := hr
  cases r with
  | ok a => exact ends_ok a
  | error error =>
    refine wp_ends rfl fun _ _ _ _ => ?_
    have hy' : l.Alike (y.afterOk 0 .rollback ()) := hy.trans ⟨rfl, rfl, rfl⟩
    refine wp_bind.mpr (wp_mono (fun z r hr => ?_) (hrejected error _ hy'))
    obtain ⟨hz, rfl⟩ := hr
    rcases herror error rfl with ⟨hw, he⟩ | ⟨hfailed, message, rfl⟩
    · have hcause : z.Failed w (.badRequest failure) :=
        .hindered hw (.inr (.inr (by rw [hz.req, hfailure])))
      cases error with
      | badRequest message => simp [Exn.technical] at he
      | _ => exact ends_error hcause
    · exact ends_error (hz.failed hfailed)

/-! ## The movements -/

/-- `fundWallet` in its transaction. -/
lemma wp_fundWalletTx_body {currency k : String} {c : Currency} {a : ℤ} {time : ℕ}
    (hx : l.Alike x) (htx : x.tx = some { startedAt := time })
    (hreq : l.req = .fundWallet u currency (.integer a) k)
    (hc : supportedCurrency currency = some c) :
    (fundWalletTx u c a k).wp (accounting w) (Body w l) x := by
  have htransfers : l.req.transfers l.trail.hand l.trail.rates =
      some [⟨⟨.house, c⟩, ⟨.user u, c⟩, a⟩] := by simp [Request.transfers, hreq, hc]
  refine wp_lockOrCreate hx htx (by simp) fun x₁ k₁ hx₁ htx₁ hk₁ => ?_
  refine wp_lockHouse hx₁ htx₁ (by simp [Tx.lock, hk₁]) fun x₂ seq v hx₂ htx₂ h0 hle hseen => ?_
  refine wp_throwIf_bind (fun hneg => ?_) fun _ => ?_
  · refine body_failed hx₂ (.exhausted htransfers (w.mono (fun s hs => ?_) hseen))
    rw [number_of_le h0 hle] at hneg
    have hshort := number_neg_iff.mp hneg
    have hbalance : s.db.amount ⟨.house, c⟩ < a := by
      rw [hs.1]
      omega
    rw [clear, if_pos hbalance]
  · refine wp_record hx₂ htx₂ rfl fun x₃ j hx₃ => ?_
    refine wp_body hx₃ ⟨rfl, rfl⟩ fun _ _ hx₄ _ _ => ?_
    exact wp_body hx₄ ⟨rfl, rfl⟩ fun _ _ hx₅ _ _ => wp_commit_body hx₅

section Exchange

variable {f t : Currency} {a out : ℤ}

/-- The four rows of an exchange are locked.  `short` is how the operation tests that the
caller has too little. -/
lemma wp_lockExchange_body {time : ℕ} {short : Option ℤ → Prop}
    [∀ found, Decidable (short found)] {g : Option ℤ → ℤ → ℤ → ℤ → Service α}
    (hx : l.Alike x) (htx : x.tx = some { startedAt := time }) (huser : l.req.userId = u)
    (htransfers : l.req.transfers l.trail.hand l.trail.rates = some (exchange u f t a out))
    (hne : f ≠ t) (ha : 0 < a) (hnone : short none)
    (hshort : ∀ v, 0 ≤ v → v ≤ seed → (short (some v) ↔ v < a))
    (hok : ∀ y tx fromBefore toBefore houseFromBefore houseToBefore, l.Alike y →
      y.tx = some tx → tx.journals = [] → 0 ≤ houseToBefore → houseToBefore ≤ seed →
      (houseToBefore < out → l.Failed w (houseLiquidityExhausted t)) →
      (g fromBefore toBefore houseFromBefore houseToBefore).wp (accounting w) (Body w l) y) :
    (do
      let fromBalance ← selectForUpdate ⟨.user u, f⟩
      throwIf (short fromBalance) (insufficientBalance f)
      let toBalance ← lockOrCreateBalance ⟨.user u, t⟩
      let houseFrom ← lockBalance f
      let houseTo ← lockBalance t
      g fromBalance toBalance houseFrom houseTo : Service α).wp (accounting w) (Body w l) x := by
  subst huser
  -- the row that pays
  refine wp_body hx ⟨rfl, rfl⟩ fun seq found hx₁ hreply hbears => ?_
  obtain ⟨tx', htx', hreply⟩ := hreply
  obtain rfl := Option.some.inj (htx.symm.trans htx')
  have hseen := hbears.2 _ htx
  refine wp_throwIf_bind (fun hpoor => ?_) fun hrich => ?_
  · refine body_failed hx₁ (.insufficient htransfers (w.mono (fun s hs => ?_) hseen))
    have hbalance : s.db.amount ⟨.user l.req.userId, f⟩ < a := by
      rw [hs.1]
      cases found with
      | none => exact ha
      | some v => exact (hshort v hreply.1 hreply.2.2).mp hpoor
    rw [exchange, clear, if_pos hbalance]
  obtain _ | v := found
  · exact absurd hnone hrich
  have hcovered : a ≤ v := not_lt.mp fun h => hrich ((hshort v hreply.1 hreply.2.2).mpr h)
  have htx₁ : (x.afterOk seq (.tx (.selectForUpdate ⟨.user l.req.userId, f⟩)) (some v)).tx =
      some (Tx.lock { startedAt := time } ⟨⟨.user l.req.userId, f⟩, seq, v, false⟩) := by
    simp [Local.afterOk, htx, Tx.afterOk, Tx.lockRow, Tx.lock]
  -- the other three rows
  refine wp_lockOrCreate hx₁ htx₁ (by simp [Tx.lock, hne]) fun x₂ k₂ hx₂ htx₂ hk₂ => ?_
  refine wp_lockHouse hx₂ htx₂ (by simp [Tx.lock, hk₂]) fun x₃ seq₃ v₃ hx₃ htx₃ _ _ _ => ?_
  refine wp_lockHouse hx₃ htx₃ (by simp [Tx.lock, hk₂, hne])
    fun x₄ seq₄ v₄ hx₄ htx₄ h0 hle hseen₄ => ?_
  refine hok x₄ _ (some v) k₂.amount v₃ v₄ hx₄ htx₄ rfl h0 hle fun hlow => ?_
  refine .exhausted htransfers (w.mono (fun s hs => ?_) hseen₄)
  -- the row that pays is as it was when it was locked
  have hpays : s.db.amount ⟨.user l.req.userId, f⟩ = v :=
    hs.2 ⟨⟨.user l.req.userId, f⟩, seq, v, false⟩ (by simp [Tx.lock])
  have hapart : Apart ([(⟨⟨.user l.req.userId, f⟩, ⟨.house, f⟩, a⟩ : Transfer Account)] ++
      [⟨⟨.house, t⟩, ⟨.user l.req.userId, t⟩, out⟩]) := exchange_apart hne
  refine clear_of_short hapart ?_ ?_
  · simpa [hpays] using hcovered
  · rw [hs.1]
    exact hlow

/-- Writing the four balances and the commit. -/
lemma wp_writeExchange_body {v₁ v₂ v₃ v₄ : ℤ} (hx : l.Alike x)
    {rest : Service OperationResponse}
    (hrest : ∀ y, l.Alike y → rest.wp (accounting w) (Body w l) y) :
    (do
      updateBalance ⟨.user u, f⟩ v₁
      updateBalance ⟨.user u, t⟩ v₂
      updateBalance ⟨.house, f⟩ v₃
      updateBalance ⟨.house, t⟩ v₄
      rest : Service OperationResponse).wp (accounting w) (Body w l) x :=
  wp_body hx ⟨rfl, rfl⟩ fun _ _ hx₁ _ _ => wp_body hx₁ ⟨rfl, rfl⟩ fun _ _ hx₂ _ _ =>
    wp_body hx₂ ⟨rfl, rfl⟩ fun _ _ hx₃ _ _ => wp_body hx₃ ⟨rfl, rfl⟩ fun _ _ hx₄ _ _ => hrest _ hx₄

end Exchange

/-- The amount that is paid out has been rounded; where the house has enough, it has not. -/
lemma lt_of_number_sub {v out : ℤ} (hout : 0 ≤ out) (hle : v ≤ seed)
    (h : number (v - number out) < 0) : v < out := by
  by_contra hge
  rw [number_of_le hout (by omega)] at h
  have := number_neg_iff.mp h
  omega

/-- `convertFunds` in its transaction. -/
lemma wp_convertFundsTx_body {from_ to_ k version : String} {context : ConvertContext}
    {f t : Currency} {a out : ℤ} {rate : ℚ} {r : VersionedRates} {time : ℕ} (hx : l.Alike x)
    (htx : x.tx = some { startedAt := time })
    (hreq : l.req = .convertFunds u from_ to_ (.integer a) k context)
    (hf : supportedCurrency from_ = some f) (ht : supportedCurrency to_ = some t)
    (hne : f ≠ t) (ha : 0 < a) (hout : 0 < out) (hrates : l.trail.rates = some r)
    (hexact : r.exactConversion f t a = some out) :
    (convertFundsTx u ⟨f, t, a, number out, rate, version⟩ k context.purpose).wp (accounting w)
      (Body w l) x := by
  have htransfers : l.req.transfers l.trail.hand l.trail.rates = some (exchange u f t a out) := by
    simp [Request.transfers, hreq, hf, ht, hrates, hexact]
  refine wp_lockExchange_body hx htx (by rw [hreq]; rfl) htransfers hne ha (by simp)
    (fun v h0 hle => by simp [number_of_le h0 hle])
    fun y tx fb tb hfb htb hy htx' hjournals h0 hle hexhausted => ?_
  refine wp_throwIf_bind (fun hneg => ?_) fun _ => ?_
  · rw [number_of_le h0 hle] at hneg
    exact body_failed hy (hexhausted (lt_of_number_sub hout.le hle hneg))
  · refine wp_record hy htx' hjournals fun y₁ j hy₁ => ?_
    exact wp_writeExchange_body hy₁ fun y₂ hy₂ => wp_commit_body hy₂

/-- `executeTrade` in its transaction. -/
lemma wp_executeTradeTx_body {quote : Quote} {q : QuoteId} {k : String} {time : ℕ}
    (hx : l.Alike x) (htx : x.tx = some { startedAt := time })
    (hreq : l.req = .executeTrade u q k) (hhand : l.trail.hand = some quote)
    (hvalid : quote.Valid) :
    (executeTradeTx u quote k).wp (accounting w) (Body w l) x := by
  have htransfers : l.req.transfers l.trail.hand l.trail.rates =
      some (exchange u quote.fromCurrency quote.toCurrency quote.amountInSubunits
        quote.amountOutSubunits) := by
    simp [Request.transfers, hreq, hhand]
  refine wp_lockExchange_body hx htx (by rw [hreq]; rfl) htransfers hvalid.distinct
    hvalid.amountIn_pos (by simp) (by simp)
    fun y tx fb tb hfb htb hy htx' hjournals h0 hle hexhausted => ?_
  refine wp_throwIf_bind (fun hneg => ?_) fun _ => ?_
  · exact body_failed hy (hexhausted (by omega))
  · refine wp_body hy ⟨rfl, rfl⟩ fun seq oid hy₁ _ _ => ?_
    have htx₁ : (y.afterOk seq (.tx (.insertOrder (orderOfQuote u quote))) oid).tx =
        some (tx.afterOk seq (.insertOrder (orderOfQuote u quote)) oid) := by
      simp [Local.afterOk, htx']
    refine wp_record hy₁ htx₁ hjournals fun y₂ j hy₂ => ?_
    refine wp_writeExchange_body hy₂ fun y₃ hy₃ => ?_
    refine wp_body hy₃ ⟨rfl, rfl⟩ fun _ _ hy₄ _ _ => ?_
    exact wp_body hy₄ ⟨rfl, rfl⟩ fun _ _ hy₅ _ _ => wp_commit_body hy₅

/-! ## The operations -/

/-- The look-up of the idempotency key: only successful journals are found. -/
lemma wp_lookup_ends {k : String} {f : Option JournalEntry → Service α}
    (hnone : ∀ x', x.Alike x' → (f none).wp (accounting w) (Ends w) x')
    (hsome : ∀ j, j.status = .success → ∃ r, f (some j) = .pure r) :
    (findByIdempotencyKey u k >>= f).wp (accounting w) (Ends w) x := by
  refine wp_ends rfl fun seq found hreply _ => ?_
  cases found with
  | none => exact hnone _ (Local.alike_after (c := .pool (.findByIdempotencyKey u k)) rfl seq
      (.ok none))
  | some j =>
    obtain ⟨r, hr⟩ := hsome j hreply.2.2
    rw [hr]
    exact ends_ok r

lemma wp_findOrCreateWallet_ends {f : Unit → Service α}
    (hok : ∀ x', x.Alike x' → (f ()).wp (accounting w) (Ends w) x') :
    (findOrCreateWallet u >>= f).wp (accounting w) (Ends w) x := by
  refine wp_bind_bind.mpr (wp_ends rfl fun _ found _ _ => ?_)
  cases found with
  | true => exact hok _ (Local.Alike.refl x)
  | false => exact wp_ends rfl fun _ _ _ _ => hok _ (Local.Alike.refl x)

/-- The action runs under the wallet lock, which is given back whatever its outcome. -/
lemma wp_acquire_ends {action : Service α}
    (haction : ∀ x', x.Alike x' → action.wp (accounting w) (Ends w) x') :
    (acquire cfg u action).wp (accounting w) (Ends w) x := by
  refine wp_bind.mpr (wp_tryCatch.mpr (wp_untried rfl (fun _ _ _ _ => ?_) fun e hw _ => ?_))
  · refine wp_tryFinally.mpr (wp_mono (fun y r hr => ?_) (haction _ ⟨rfl, rfl, rfl⟩))
    refine wp_tryCatch.mpr (wp_accounting (fun _ _ _ _ => ?_) fun _ _ => ?_)
    · exact hr
    · exact hr
  · exact ends_error (.hindered hw (.inr (.inl rfl)))

/-- The transaction of an operation. -/
lemma wp_transact_ends {failure : String} {rejected : Exn → Service Unit} {body : Service α}
    (hfailure : x.req.failure = .badRequest failure)
    (hrejected : ∀ e y, x.Alike y →
      (rejected e).wp (accounting w) (fun y' r => x.Alike y' ∧ r = .ok ()) y)
    (hbody : ∀ y time, x.Alike y → y.tx = some { startedAt := time } →
      body.wp (accounting w) (Body w x) y) :
    (startTransaction >>= fun _ => inTransaction failure rejected body).wp (accounting w)
      (Ends w) x := by
  refine wp_ends rfl fun seq (time : ℕ) _ _ => ?_
  exact wp_inTransaction_ends hfailure hrejected (hbody _ time ⟨rfl, rfl, rfl⟩ rfl)

/-- A rate that is not usable ends a conversion. -/
lemma wp_rateOf_ends {r : VersionedRates} {c : Currency} {f : ℚ → Service α}
    (hreq : x.req.isConversion = true) (hrates : x.trail.rates = some r)
    (hok : ∀ table q, r.rates = some table → parseRate (table c) = .ok q →
      (f q).wp (accounting w) (Ends w) x) :
    (rateOf r c >>= f).wp (accounting w) (Ends w) x := by
  have hfail (e : Exn) (he : rateOf r c = .throw e) :
      (rateOf r c >>= f).wp (accounting w) (Ends w) x := by
    rw [he]
    exact ends_error (.unusable hreq hrates he)
  cases htable : r.rates with
  | none => exact hfail _ (by rw [rateOf, htable])
  | some table =>
    cases hparse : parseRate (table c) with
    | error message => exact hfail (.error message) (by simp only [rateOf, htable, hparse])
    | ok q =>
      have hrate : rateOf r c = pure q := by simp only [rateOf, htable, hparse]
      rw [hrate]
      exact hok table q htable hparse

/-! ### The validation -/

/-- The program issues no command. -/
def Immediate (p : Service β) : Prop := (∃ b, p = .pure b) ∨ ∃ e, p = .throw e

lemma immediate_throwIf {p : Prop} [Decidable p] {e : Exn} : Immediate (throwIf p e) := by
  unfold throwIf
  split
  · exact .inr ⟨e, rfl⟩
  · exact .inl ⟨(), rfl⟩

lemma immediate_requireSupported (value : String) : Immediate (requireSupported value) := by
  unfold requireSupported
  split
  · exact .inl ⟨_, rfl⟩
  · exact .inr ⟨_, rfl⟩

lemma immediate_requirePositiveInteger (amount : JsNumber) :
    Immediate (requirePositiveInteger amount) := by
  unfold requirePositiveInteger
  split
  · exact .inr ⟨_, rfl⟩
  · split
    · exact .inr ⟨_, rfl⟩
    · exact .inl ⟨_, rfl⟩

lemma immediate_rateOf (r : VersionedRates) (c : Currency) : Immediate (rateOf r c) := by
  unfold rateOf
  split
  · exact .inr ⟨_, rfl⟩
  · split
    · exact .inr ⟨_, rfl⟩
    · exact .inl ⟨_, rfl⟩

/-- A part of the validation ends the operation if it fails. -/
lemma wp_check_ends {p : Service β} {f : β → Service α} {g : β → Service Unit}
    (hp : Immediate p) (hcheck : x.req.check = p >>= g)
    (hok : ∀ b, p = .pure b → x.req.check = g b → (f b).wp (accounting w) (Ends w) x) :
    (p >>= f).wp (accounting w) (Ends w) x := by
  rcases hp with ⟨b, rfl⟩ | ⟨e, rfl⟩
  · exact hok b rfl hcheck
  · exact ends_error (.invalid hcheck)

lemma supportedCurrency_of_require {value : String} {c : Currency}
    (h : requireSupported value = .pure c) : supportedCurrency value = some c := by
  unfold requireSupported at h
  split at h
  · rename_i c' hc'
    cases h
    exact hc'
  · cases h

lemma integer_of_require {amount : JsNumber} {a : ℤ}
    (h : requirePositiveInteger amount = .pure a) : amount = .integer a ∧ 0 < a := by
  unfold requirePositiveInteger at h
  split at h
  · cases h
  · split at h
    · cases h
    · cases h
      exact ⟨rfl, not_le.mp ‹_›⟩

lemma not_of_throwIf {p : Prop} [Decidable p] {e : Exn} {b : Unit}
    (h : (throwIf p e : Service Unit) = .pure b) : ¬ p := by
  intro hp
  rw [throwIf, if_pos hp] at h
  cases h

/-- What is converted rounds to nothing if and only if it is nothing. -/
lemma number_nonpos_iff {n : ℤ} : number n ≤ 0 ↔ n ≤ 0 := by
  constructor
  · intro h
    by_contra hpos
    have hself := number_eq_self (n := n) (by omega) (by omega)
    omega
  · intro h
    rcases h.eq_or_lt with rfl | hneg
    · rw [number_of_le le_rfl (by decide)]
    · exact (number_neg_iff.mpr hneg).le

/-! ### The three programs -/

section Operations

variable {k : String}

/-- `fundWallet`. -/
theorem wp_fundWallet_ends {currency : String} {amount : JsNumber} :
    (fundWallet cfg u currency amount k).wp (accounting w) (Ends w)
      { req := .fundWallet u currency amount k } := by
  refine wp_check_ends (immediate_requireSupported currency) rfl fun c hc hcheck => ?_
  refine wp_check_ends (immediate_requirePositiveInteger amount) hcheck fun a ha _ => ?_
  obtain ⟨rfl, -⟩ := integer_of_require ha
  refine wp_lookup_ends (fun x₁ hx₁ => ?_) fun j hj => ⟨fundReplay j, by simp only [hj]; rfl⟩
  refine wp_acquire_ends fun x₂ hx₂ => ?_
  have hreq := (hx₁.trans hx₂).req
  refine wp_lookup_ends (fun x₃ hx₃ => ?_) fun j hj => ⟨fundReplay j, by
    simp only [Option.filter, hj, decide_true, if_true]
    rfl⟩
  refine wp_findOrCreateWallet_ends fun x₄ hx₄ => ?_
  have hreq₄ := (hx₃.trans hx₄).req.trans hreq
  refine wp_transact_ends (by rw [hreq₄]; rfl) (fun e y hy => ⟨hy, rfl⟩) fun y time hy htx => ?_
  exact wp_fundWalletTx_body hy htx hreq₄ (supportedCurrency_of_require hc)

/-- `convertFunds`. -/
theorem wp_convertFunds_ends {from_ to_ : String} {amount : JsNumber} {context : ConvertContext} :
    (convertFunds cfg u from_ to_ amount k context).wp (accounting w) (Ends w)
      { req := .convertFunds u from_ to_ amount k context } := by
  refine wp_check_ends immediate_throwIf rfl fun _ hdistinct hcheck => ?_
  refine wp_check_ends (immediate_requireSupported from_) hcheck fun f hf hcheck => ?_
  refine wp_check_ends (immediate_requireSupported to_) hcheck fun t ht hcheck => ?_
  refine wp_check_ends (immediate_requirePositiveInteger amount) hcheck fun a ha _ => ?_
  obtain ⟨rfl, hpos⟩ := integer_of_require ha
  have hf' := supportedCurrency_of_require hf
  have ht' := supportedCurrency_of_require ht
  have hne : f ≠ t := by
    rintro rfl
    exact not_of_throwIf hdistinct ((toUpperCase_of_supportedCurrency hf').trans
      (toUpperCase_of_supportedCurrency ht').symm)
  refine wp_lookup_ends (fun x₁ hx₁ => ?_) fun j hj => ⟨convertReplay j, by simp only [hj]; rfl⟩
  refine wp_acquire_ends fun x₂ hx₂ => ?_
  have hreq := (hx₁.trans hx₂).req
  -- the rates
  refine wp_ends rfl fun seq rates _ _ => ?_
  set x₃ := x₂.afterOk seq .getRates rates
  have hreq₃ : x₃.req = .convertFunds u from_ to_ (.integer a) k context := hreq
  have hrates₃ : x₃.trail.rates = some rates := rfl
  refine wp_rateOf_ends (by rw [hreq₃]; rfl) hrates₃ fun table p htable hp => ?_
  refine wp_rateOf_ends (by rw [hreq₃]; rfl) hrates₃ fun table' q htable' hq => ?_
  obtain rfl := Option.some.inj (htable.symm.trans htable')
  have hexact : rates.exactConversion f t a =
      some (convertSubunits a f.code t.code (crossRate p q)) := by
    simp only [VersionedRates.exactConversion, htable, hp, hq]
  refine wp_throwIf_bind (fun hsmall => ?_) fun hlarge => ?_
  · exact ends_error (.small hreq₃ hf' ht' hrates₃ hexact (number_nonpos_iff.mp hsmall))
  rw [number_nonpos_iff, not_le] at hlarge
  refine wp_findOrCreateWallet_ends fun x₄ hx₄ => ?_
  have hreq₄ := hx₄.req.trans hreq₃
  refine wp_transact_ends (by rw [hreq₄]; rfl) (fun e y hy => ⟨hy, rfl⟩) fun y time hy htx => ?_
  exact wp_convertFundsTx_body hy htx hreq₄ hf' ht' hne hpos hlarge (hx₄.rates.trans hrates₃)
    hexact

/-- The rejected order of a trade that has been rolled back. -/
lemma wp_saveRejected_alike {quote : Quote} {e : Exn} (hx : l.Alike x) :
    (saveRejected u quote e).wp (accounting w) (fun y r => l.Alike y ∧ r = .ok ()) x := by
  refine wp_tryCatch.mpr (wp_bind.mpr (wp_accounting (fun _ _ _ _ => ?_) fun _ _ => ?_))
  · exact ⟨hx.trans ⟨rfl, rfl, rfl⟩, rfl⟩
  · exact ⟨hx.trans ⟨rfl, rfl, rfl⟩, rfl⟩

/-- A quote of another user is put back, or not. -/
lemma wp_restoreQuote_ends {quote : Quote} {q : QuoteId} {f : Unit → Service α}
    (hok : ∀ y, y.req = x.req → (f ()).wp (accounting w) (Ends w) y) :
    (restoreQuote q quote >>= f).wp (accounting w) (Ends w) x := by
  refine wp_bind_bind.mpr (wp_ends rfl fun _ (clock : ℕ) _ _ => ?_)
  dsimp only
  split
  · refine wp_bind.mpr (wp_tryCatch.mpr (wp_accounting (fun _ _ _ _ => ?_) fun _ _ => ?_))
    · exact hok _ rfl
    · exact hok _ rfl
  · exact hok _ rfl

/-- The quote is the caller's own, or it is not there for the caller. -/
lemma wp_consumeQuote_ends {q : QuoteId} {f : Option Quote → Service α}
    (hnone : ∀ y, y.req = x.req → (w.seen fun s => ∀ quote,
      Custody.live (s.redis.quotes q) s.now = some quote → quote.userId ≠ u) →
      (f none).wp (accounting w) (Ends w) y)
    (hsome : ∀ y quote, y.req = x.req → y.trail.hand = some quote → quote.Valid →
      (f (some quote)).wp (accounting w) (Ends w) y) :
    (consumeQuote q u >>= f).wp (accounting w) (Ends w) x := by
  -- what happens once the read-and-delete has found nothing, or a quote
  have habsent (y : Local) (hy : y.req = x.req)
      (hseen : w.seen fun s => Custody.live (s.redis.quotes q) s.now = none) :
      (f none).wp (accounting w) (Ends w) y := by
    refine hnone y hy (w.mono (fun s hs quote hquote => ?_) hseen)
    rw [hs] at hquote
    cases hquote
  have hpresent (y : Local) (parsed : Quote) (hy : y.req = x.req)
      (hhand : y.trail.hand = some parsed) (hvalid : parsed.Valid)
      (hseen : w.seen fun s => Custody.live (s.redis.quotes q) s.now = some parsed) :
      ((if parsed.userId ≠ u then do
          restoreQuote q parsed
          pure none
        else
          pure (some parsed) : Service (Option Quote)) >>= f).wp (accounting w) (Ends w) y := by
    split
    · rename_i hforeign
      refine wp_bind_bind.mpr (wp_restoreQuote_ends fun z hz => ?_)
      refine hnone z (hz.trans hy) (w.mono (fun s hs quote hquote => ?_) hseen)
      rw [hs] at hquote
      exact Option.some.inj hquote ▸ hforeign
    · exact hsome y parsed hy hhand hvalid
  refine wp_bind_bind.mpr (wp_bind.mpr (wp_tryCatch.mpr (wp_accounting
    (fun _ found hreply hseen => ?_) fun _ _ => ?_)))
  · cases found with
    | none => exact habsent _ rfl hseen
    | some quote => exact hpresent _ quote rfl rfl hreply.2 hseen
  · refine wp_bind.mpr (wp_untried rfl (fun _ found hreply hseen => ?_) fun e hw he => ?_)
    · cases found with
      | none => exact habsent _ rfl hseen
      | some quote =>
        refine wp_bind.mpr (wp_untried rfl (fun _ _ _ _ => ?_) fun e hw he => ?_)
        · exact hpresent _ quote rfl rfl hreply.2 hseen
        · exact ends_technical hw he
    · exact ends_technical hw he

/-- `executeTrade`. -/
theorem wp_executeTrade_ends {q : QuoteId} :
    (executeTrade cfg u q k).wp (accounting w) (Ends w) { req := .executeTrade u q k } := by
  refine wp_lookup_ends (fun x₁ hx₁ => ?_) fun j hj => ⟨tradeReplay j, by simp only [hj]; rfl⟩
  refine wp_consumeQuote_ends (fun y hy hseen => ?_) fun y quote hy hhand hvalid => ?_
  · exact ends_error (.gone (hy.trans hx₁.req) hseen)
  refine wp_acquire_ends fun x₂ hx₂ => ?_
  refine wp_findOrCreateWallet_ends fun x₃ hx₃ => ?_
  have hx := hx₂.trans hx₃
  have hreq := hx.req.trans (hy.trans hx₁.req)
  refine wp_transact_ends (by rw [hreq]; rfl) (fun e z hz => wp_saveRejected_alike hz)
    fun z time hz htx => ?_
  exact wp_executeTradeTx_body hz htx hreq (hx.hand.trans hhand) hvalid

/-- The three operations: whatever they fail with has a cause. -/
theorem wp_program_ends (w : Evidence) (req : Request) (hkey : req.key.isSome) :
    (req.program cfg).wp (accounting w) (Ends w) { req } := by
  have hends {p : Service OperationResponse} (h : p.wp (accounting w) (Ends w) { req }) :
      (do return Response.operation (← p) : Service Response).wp (accounting w) (Ends w)
        { req } := by
    refine wp_bind.mpr (wp_mono (fun y r hr => ?_) h)
    cases r with
    | ok a => exact ends_ok (Response.operation a)
    | error e => exact ends_error (hr e rfl)
  cases req with
  | fundWallet u c a k => exact hends wp_fundWallet_ends
  | convertFunds u f t a k context => exact hends wp_convertFunds_ends
  | executeTrade u q k => exact hends wp_executeTrade_ends
  | _ => simp [Request.key] at hkey

end Operations

end FxExchange
