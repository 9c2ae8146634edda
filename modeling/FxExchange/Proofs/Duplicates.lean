import FxExchange.Proofs.Books

/-
# Duplicates

Identical requests: one call of one user with one idempotency key, made any number of times.
While the wallet lock holds and nothing fails, the first one books, and those that look up
the key later answer with its journal.  A funding looks up the key again under the lock, so
it finds what was booked while it waited; an exchange does not, and an exchange that has
looked too early fails.
-/

namespace FxExchange

open Transition

variable {cfg : Config} {s s' s₁ : Sys} {t : Tid} {e : Event} {req : Request}

/-! ## What can stand in the way -/

/-- The wallet lock has not expired under a thread of the user that works under it. -/
abbrev Sys.LockHeld (s : Sys) (u : UserId) : Prop :=
  ∀ t < s.seq, ∀ th ∈ s.threads t, th.state.req.userId = u → th.state.trail.inLock = true →
    th.next.isSome → Custody.live (s.redis.locks u) s.now = some t

/-- Nothing fails, and the wallet lock of the user holds. -/
def Steady (u : UserId) (s : Sys) (e : Event) : Prop := s.LockHeld u ∧ NoFailure s e

instance (u : UserId) (s : Sys) (e : Event) : Decidable (Steady u s e) :=
  inferInstanceAs (Decidable (_ ∧ _))

/-- The request looks up its key again under the wallet lock. -/
def Request.rechecks : Request → Bool
  | .fundWallet _ _ _ _ => true
  | _ => false

/-- The rates pay out something for the request, at a rate that can be booked. -/
def Request.paidAt (req : Request) (rates : VersionedRates) : Bool :=
  match req with
  | .convertFunds _ from_ to_ (.integer a) _ _ =>
    match supportedCurrency from_, supportedCurrency to_ with
    | some f, some t =>
      (rates.conversion f t a).any fun p => 0 < p.1 ∧ checksExchangeRate (some p.2)
    | _, _ => true
  | _ => true

/-- Some other thread with the same request has missed the key and is not done yet. -/
abbrev Sys.Contested (s : Sys) (t : Tid) (req : Request) : Prop :=
  ∃ t' < s.seq, t' ≠ t ∧ ∃ th ∈ s.threads t', th.state.req = req ∧
    th.state.trail.missed = true ∧ th.next.isSome

/-- The request finds what it needs for its next command: the row that it inserts is not
there yet, the rows that it takes from cover that, its quote is there, and the rates pay
out.  And an exchange does not miss the key while another one with the same request is under
way that has missed it, too. -/
def Sys.lets (s : Sys) (t : Tid) (l : Local) : Cmd → Choice → Bool
  | .pool (.findByIdempotencyKey u k), _ =>
    l.trail.inLock = false → l.req.rechecks = false → s.db.findByIdempotencyKey u k = none →
      ¬ s.Contested t l.req
  | .pool (.saveWallet u), _ => u ∉ s.db.wallets
  | .tx (.selectForUpdate a), _ => ∀ x ∈ l.takes a, a ∈ s.db.rows ∧ x ≤ s.db.amount a
  | .tx (.insertBalance a), _ => a ∉ s.db.rows
  | .redis (.getdel q), _ => (Custody.live (s.redis.quotes q) s.now).any fun quote =>
      quote.userId = l.req.userId ∧
        checksExchangeRate (some (numberOfDecimal quote.effectiveRate)) ∧
        (numericColumn 18 10 quote.effectiveRate).isSome
  | .getRates, .rates rates => l.req.paidAt rates
  | _, _ => true

/-- Requests with the user and the key of `req` are duplicates of it, and each of these finds
what it needs. -/
def Sys.unhindered (req : Request) (s : Sys) : Event → Bool
  | .spawn req' => req'.userId = req.userId → req'.key = req.key → req' = req
  | .run t choice => (s.threads t).all fun th =>
      th.state.req = req → th.next.all fun c => s.lets t th.state c choice
  | _ => true

/-- Nothing stands in the way of the duplicates of a request. -/
def Unhindered (req : Request) (s : Sys) (e : Event) : Prop :=
  Steady req.userId s e ∧ s.unhindered req e = true

instance (req : Request) (s : Sys) (e : Event) : Decidable (Unhindered req s e) :=
  inferInstanceAs (Decidable (_ ∧ _))

/-! ## Before a journal is written -/

/-- A transaction is open under the wallet lock only, and a journal is written only by a
request that has missed the key. -/
structure Local.Careful (l : Local) : Prop where
  inLock : l.tx ≠ none → l.trail.inLock = true
  missed : ∀ id, l.Writes id → l.trail.missed = true

section Local

variable {l : Local} {seq : ℕ}

/-- Only the look-up of the key tells whether it was missed. -/
lemma Local.after_missed {c : Cmd} (hc : ∀ u k, c ≠ .pool (.findByIdempotencyKey u k))
    {r : Except Exn c.Ret} : (l.after seq c r).trail.missed = l.trail.missed ∧
      (l.after seq c r).trail.missedInLock = l.trail.missedInLock := by
  cases c <;> (try rename_i c; cases c) <;> cases r <;>
    first | exact ⟨rfl, rfl⟩ | exact absurd rfl (hc _ _)

/-- A thread that works under the wallet lock has done so before, or it has just got it. -/
lemma Local.after_inLock {c : Cmd} {r : Except Exn c.Ret}
    (h : (l.after seq c r).trail.inLock = true) :
    l.trail.inLock = true ∨ ∃ u ttl, c = .redis (.acquire u ttl) := by
  cases c <;> (try rename_i c; cases c) <;> cases r <;>
    first | exact Or.inl h | exact Or.inr ⟨_, _, rfl⟩ | exact absurd h (by simp [after, afterOk])

/-- A transaction was open before, or it has just been started. -/
lemma Local.after_tx_isSome {c : Cmd} {r : Except Exn c.Ret} (h : (l.after seq c r).tx ≠ none) :
    l.tx ≠ none ∨ c = .startTransaction := by
  cases c with
  | startTransaction => exact Or.inr rfl
  | pool c => exact Or.inl fun htx => h (by rw [after_pool_tx, htx])
  | redis c => exact Or.inl fun htx => h (by rw [after_redis_tx, htx])
  | tx c => exact Or.inl fun htx => h (by cases r <;> simp [after, afterOk, afterError, htx])
  | commit => cases r <;> exact absurd rfl h
  | rollback => cases r <;> exact absurd rfl h
  | _ => cases r <;> exact Or.inl h

/-- Commands other than the release keep the wallet lock. -/
lemma Local.after_inLock_of {c : Cmd} {r : Except Exn c.Ret} (h : l.trail.inLock = true)
    (hc : ∀ u, c ≠ .redis (.release u)) : (l.after seq c r).trail.inLock = true := by
  cases c <;> (try rename_i c; cases c) <;> cases r <;>
    first | exact h | rfl | exact absurd rfl (hc _)

end Local

lemma careful_of_reachable (h : Reachable cfg s) {th : Thread} (hth : s.threads t = some th) :
    th.state.Careful := by
  refine forall_threads h (fun req => ⟨by simp, by simp [Local.Writes]⟩) (fun l hl => ⟨by simp,
    fun id ⟨tx, htx, hj⟩ => hl.missed id ⟨tx, htx.imp_left (by simp), hj⟩⟩)
    (fun s t l c s₁ r hl hguard hserved => ⟨fun htx => ?_, fun id hid => ?_⟩) hth
  · rcases Local.after_tx_isSome htx with hopen | rfl
    · refine Local.after_inLock_of (hl.inLock hopen) ?_
      rintro u rfl
      exact hopen hguard.2.1
    · have hlock : l.trail.inLock = true := hguard.2.2.2
      exact Local.after_inLock_of hlock (by simp)
  · rcases hserved.writes hid with hold | ⟨-, data, rfl⟩
    · rw [(Local.after_missed ?_).1]
      · exact hl.missed id hold
      · rintro u k rfl
        obtain ⟨-, -, -, htx, hbooked⟩ := hguard
        obtain ⟨tx, htx' | hbooked', -⟩ := hold
        · exact absurd (htx'.symm.trans htx) (by simp)
        · exact absurd (hbooked'.symm.trans hbooked) (by simp)
    · obtain ⟨tx, -, -, -, -, -, hmissed, -⟩ := hguard
      rw [(Local.after_missed (by simp)).1]
      exact hmissed

/-! ## The invariant -/

/-- The thread works under the wallet lock, has missed the key there, and has not booked
yet. -/
structure Thread.Due (th : Thread) : Prop where
  next : th.next.isSome
  inLock : th.state.trail.inLock = true
  missedInLock : th.state.trail.missedInLock = true
  booked : th.state.trail.booked = none

/-- The duplicates of a request, as long as nothing stands in their way. -/
structure Orderly (cfg : Config) (req : Request) (s : Sys) : Prop where
  alive : ∀ t th, s.threads t = some th → th.alive = true
  same : ∀ t th, s.threads t = some th → th.state.req.userId = req.userId →
    th.state.req.key = req.key → th.state.req = req
  programs : ∀ t th, s.threads t = some th → th.state.req = req →
    th.prog.wp (discipline cfg True) (Answer True) th.state
  due : ∀ t th k, s.threads t = some th → th.state.req = req → th.Due → req.key = some k →
    s.db.findByIdempotencyKey req.userId k = none
  single : req.rechecks = false → ∀ t t' th th', s.threads t = some th →
    s.threads t' = some th' → th.state.req = req → th'.state.req = req →
    th.state.trail.missed = true → th'.state.trail.missed = true → t = t'

lemma orderly_initial : Orderly cfg req Sys.initial := by
  constructor <;> simp [Sys.initial]

namespace Orderly

/-- Nobody has booked under the key of a duplicate that is about to write its journal. -/
lemma find_eq_none (h : Orderly cfg req s) (hreach : Reachable cfg s) {th : Thread}
    (hth : s.threads t = some th) (hreq : th.state.req = req) (hnext : th.next.isSome)
    (htx : th.state.tx ≠ none) (hcommitted : th.state.Committed) {k : String}
    (hk : req.key = some k) : s.db.findByIdempotencyKey req.userId k = none := by
  have hhist := history_of_reachable hreach
  obtain ⟨hmissed, hlock⟩ := hcommitted
  have hbooked : th.state.trail.booked = none := by
    by_contra hne
    obtain ⟨tx, hbooked⟩ := Option.ne_none_iff_exists'.mp hne
    exact htx (hhist.closed t th tx hth hbooked).1
  cases hrechecks : req.rechecks with
  | true =>
    -- it has looked under the wallet lock
    rw [hreq] at hlock
    cases req with
    | fundWallet u c a k => exact h.due t th _ hth hreq ⟨hnext, hlock.2, hlock.1, hbooked⟩ hk
    | _ => cases hrechecks
  | false =>
    -- it is the only one that has missed the key
    by_contra hne
    obtain ⟨j, hj⟩ := Option.ne_none_iff_exists'.mp hne
    obtain ⟨hmem, hu, hjk⟩ := Database.of_find_eq_some hj
    obtain ⟨t', th', tx', hth', hcommit, hbooked', hbooks⟩ := hhist.books_of_mem hmem
    have hreq' : th'.state.req = req := h.same t' th' hth' (hbooks.userId.symm.trans hu)
      (hbooks.key.trans (by rw [hjk, hk]))
    have hmissed' : th'.state.trail.missed = true :=
      (careful_of_reachable hreach hth').missed j.id ⟨tx', Or.inr hbooked', j, by
        simp [hbooks.journals], rfl⟩
    obtain rfl := h.single hrechecks t t' th th' hth hth' hreq hreq' hmissed hmissed'
    obtain rfl := Option.some.inj (hth.symm.trans hth')
    rw [hbooked] at hbooked'
    cases hbooked'

/-- A duplicate gets the rows that it takes from. -/
lemma txAdmits_selectForUpdate (hinv : Inv cfg s) {l : Local} {a : Account} {tx : Tx}
    {locks : Locks} {r : Except Exn (Option ℤ)} (htx : s.txOf t = some tx)
    (hmay : MayLock l tx a) (htakes : ∀ x, l.takes a = some x → a ∈ s.db.rows ∧ x ≤ s.db.amount a)
    (hexec : execTx s.db s.locks t s.seq tx (.selectForUpdate a) = some (locks, r)) :
    FxExchange.txAdmits l (.selectForUpdate a) r := by
  simp only [execTx] at hexec
  split at hexec
  · rename_i ha
    split at hexec
    · cases hexec
    · cases hexec
      intro x hx
      rw [hinv.ledger.view_eq htx hmay.updates ha]
      exact (htakes x hx).2
  · rename_i ha
    rw [if_neg (Tx.notMem_created hmay.notMem)] at hexec
    cases hexec
    refine ⟨Option.eq_none_iff_forall_ne_some.mpr fun x hx => ha (htakes x hx).1, ?_⟩
    intro hhouse
    obtain ⟨w, c⟩ := a
    obtain rfl : w = .house := hhouse
    exact ha (hinv.ledger.sheet.house c)

/-- A duplicate inserts its journal. -/
lemma txAdmits_insertJournal (hinv : Inv cfg s) {l : Local} {j : JournalData} {tx : Tx}
    {locks : Locks} {r : Except Exn Uuid} (htx : s.txOf t = some tx) (hnone : tx.journals = [])
    (hfind : s.db.findByIdempotencyKey j.userId j.idempotencyKey = none)
    (hexec : execTx s.db s.locks t s.seq tx (.insertJournal j) = some (locks, r)) :
    FxExchange.txAdmits l (.insertJournal j) r := by
  simp only [execTx] at hexec
  split at hexec
  · rename_i hchecks
    cases hexec
    exact Bool.eq_false_of_not_eq_true hchecks
  split at hexec
  · rename_i hkey
    rw [hfind] at hkey
    -- the key is not its own either: it has written no journal yet
    obtain ⟨tx', htx', hmem⟩ := (hinv.ledger.keyLocks _ t).mp (hkey.resolve_left (by simp))
    obtain rfl := Option.some.inj (htx.symm.trans htx')
    simp [hnone] at hmem
  split at hexec
  · cases hexec
  · cases hexec
    trivial

/-- A statement of a duplicate is carried out. -/
lemma txAdmits (h : Orderly cfg req s) (hreach : Reachable cfg s) {l : Local} {c : TxCmd}
    {k : Except Exn c.Ret → Service Response} {tx : Tx} {locks : Locks} {r : Except Exn c.Ret}
    (hth : s.threads t = some ⟨l, .call (.tx c) k, true⟩) (hreq : l.req = req)
    (htx : l.tx = some tx) (hguard : txGuard l tx c) (hlets : s.lets t l (.tx c) .ok = true)
    (hexec : execTx s.db s.locks t s.seq tx c = some (locks, r)) :
    FxExchange.txAdmits l c r := by
  have hinv := inv_of_reachable hreach
  have htxOf : s.txOf t = some tx := (Sys.txOf_eq hth).trans htx
  cases c with
  | selectForUpdate a =>
    exact txAdmits_selectForUpdate hinv htxOf hguard (by simpa [Sys.lets] using hlets) hexec
  | insertBalance a =>
    have hnew : a ∉ s.db.rows := by simpa [Sys.lets] using hlets
    rw [execTx, if_neg (not_or.mpr ⟨hnew, Tx.notMem_created hguard.1.notMem⟩)] at hexec
    split at hexec
    · cases hexec
    · cases hexec
      trivial
  | insertJournal j =>
    obtain ⟨hu, hk, hnone, hcommitted⟩ := hguard
    have hfind := h.find_eq_none hreach hth hreq rfl (by simp [htx]) hcommitted (hreq ▸ hk)
    rw [← hreq, ← hu] at hfind
    exact txAdmits_insertJournal hinv htxOf hnone hfind hexec
  | insertEntries id entries =>
    cases hexec
    split
    · trivial
    · rename_i hchecks
      exact Bool.eq_false_of_not_eq_true hchecks
  | insertOrder o =>
    cases hexec
    split
    · trivial
    · rename_i hchecks
      exact Bool.eq_false_of_not_eq_true hchecks
  | updateBalance a v =>
    simp only [execTx] at hexec
    split at hexec
    · cases hexec
    · cases hexec
      split
      · trivial
      · assumption
  | _ =>
    cases hexec
    trivial

/-- A command of a duplicate is answered as the request needs it. -/
lemma admits (h : Orderly cfg req s) (hreach : Reachable cfg s) {l : Local} {c : Cmd}
    {k : Except Exn c.Ret → Service Response} {choice : Choice} {r : Except Exn c.Ret}
    (hth : s.threads t = some ⟨l, .call c k, true⟩) (hreq : l.req = req)
    (hheld : s.LockHeld req.userId) (hfail : choice ≠ .fail)
    (hlets : s.lets t l c choice = true)
    (hrespond : s.respond t l.tx c choice = some (s₁, r)) : Admits l c r := by
  have hinv := inv_of_reachable hreach
  have hguard := hinv.guard hth
  cases choice with
  | fail => exact absurd rfl hfail
  | rates rates =>
    cases c with
    | getRates =>
      cases hrespond
      intro u from_ to_ a k context f g hconvert hf hg
      have hpaid : l.req.paidAt rates = true := hlets
      simpa [hconvert, Request.paidAt, hf, hg, Option.any_eq_true] using hpaid
    | _ => cases hrespond
  | ok =>
    change s.exec t l.tx c = some (s₁, r) at hrespond
    cases c with
    | pool c =>
      cases hrespond
      cases c with
      | saveWallet u =>
        have hnew : u ∉ s.db.wallets := by simpa [Sys.lets] using hlets
        simp [execPool, hnew, Admits]
      | _ => trivial
    | tx c =>
      obtain ⟨tx, htx, haborted, hguard⟩ := hguard
      rw [htx, Sys.exec_tx haborted] at hrespond
      obtain ⟨⟨locks, r'⟩, hexec, heq⟩ := Option.map_eq_some_iff.mp hrespond
      cases heq
      exact h.txAdmits hreach hth hreq htx hguard hlets hexec
    | commit =>
      obtain ⟨tx, j, htx, hbooks⟩ := hguard
      simp only [Sys.exec, htx, hbooks.aborted, Bool.false_eq_true, if_false] at hrespond
      cases hrespond
      trivial
    | redis c =>
      obtain ⟨⟨redis, r'⟩, hexec, heq⟩ := Option.map_eq_some_iff.mp hrespond
      cases heq
      cases c with
      | getdel q =>
        cases hexec
        simpa [Sys.lets, Admits, Option.any_eq_true] using hlets
      | acquire u ttl =>
        simp only [execRedis] at hexec
        split at hexec
        · cases hexec
        · cases hexec
          trivial
      | release u =>
        obtain ⟨rfl, -, hlock⟩ := hguard
        have hheld' := hheld t (hinv.lt_seq hth) _ hth (by rw [hreq]) hlock rfl
        rw [execRedis, if_pos (by rw [hreq]; exact hheld')] at hexec
        cases hexec
        trivial
      | _ =>
        cases hexec
        trivial
    | getRates => cases hrespond
    | _ =>
      cases hrespond
      trivial

/-- A duplicate that has answered has succeeded, and its journal is in the database. -/
lemma succeeds (h : Orderly cfg req s) (hreach : Reachable cfg s) {th : Thread}
    (hth : s.threads t = some th) (hreq : th.state.req = req) (hvalid : req.Valid) {k : String}
    (hk : req.key = some k) {a : Except Exn Response} (ha : th.answer = some a) :
    ∃ r, a = .ok (.operation r) ∧ r.status = .success ∧ r.journal ∈ s.db.journals ∧
      r.journal.userKey = (req.userId, k) := by
  have hanswer := Thread.of_answer (h.programs t th hth hreq) ha
  subst hreq
  have hkeyed {p : Prop} (hnone : th.state.req.key = none) : p := by
    rw [hk] at hnone
    cases hnone
  cases a with
  | error e => exact absurd hvalid (hanswer.2.2 trivial (by simp [hk]))
  | ok a =>
    cases a with
    | operation r =>
      obtain ⟨hmem, hu, hrk⟩ := journal_of_answer hreach hth ha
      exact ⟨r, rfl, hanswer.2.1, hmem, Prod.ext hu (Option.some.inj (hrk.symm.trans hk))⟩
    | consumed found => exact hkeyed hanswer.2.2.1
    | _ => exact hkeyed hanswer.2.2

/-- A duplicate that is done has its journal in the database. -/
lemma find_of_done (h : Orderly cfg req s) (hreach : Reachable cfg s) {th : Thread}
    (hth : s.threads t = some th) (hreq : th.state.req = req) (hvalid : req.Valid) {k : String}
    (hk : req.key = some k) (hnext : th.next = none) :
    s.db.findByIdempotencyKey req.userId k ≠ none := by
  obtain ⟨a, ha⟩ := Thread.exists_answer (h.alive t th hth) hnext
  obtain ⟨r, -, -, hmem, hkey⟩ := h.succeeds hreach hth hreq hvalid hk ha
  rw [Ne, Database.find_eq_none_iff, not_not]
  exact List.mem_map.mpr ⟨r.journal, hmem, hkey⟩

/-! ## Preservation -/

/-- A duplicate misses the key before the wallet lock only if no other one has. -/
lemma missed_alone (h : Orderly cfg req s) (hreach : Reachable cfg s) {l : Local} {c : Cmd}
    {k : Except Exn c.Ret → Service Response} {choice : Choice} {r : Except Exn c.Ret}
    (hth : s.threads t = some ⟨l, .call c k, true⟩) (hreq : l.req = req)
    (hrechecks : req.rechecks = false) (hlets : s.lets t l c choice = true)
    (hserved : s.Served t l.tx c s₁ r) (hmissed : (l.after s.seq c r).trail.missed = true) :
    l.trail.missed = true ∨ ∀ t' th', t' ≠ t → s.threads t' = some th' →
      th'.state.req = req → th'.state.trail.missed ≠ true := by
  have hinv := inv_of_reachable hreach
  have hguard := hinv.guard hth
  by_cases hc : ∀ u key, c ≠ .pool (.findByIdempotencyKey u key)
  · rw [(Local.after_missed hc).1] at hmissed
    exact Or.inl hmissed
  push Not at hc
  obtain ⟨u, key, rfl⟩ := hc
  obtain ⟨rfl, hk, hvalid, -, -⟩ := hguard
  cases hserved with
  | failed => exact Or.inl hmissed
  | pool =>
    cases hlock : l.trail.inLock with
    | true => exact Or.inl (by simpa [Local.after, Local.afterOk, execPool, hlock] using hmissed)
    | false =>
      have hfind : s.db.findByIdempotencyKey l.req.userId key = none := by
        simpa [Local.after, Local.afterOk, execPool, hlock] using hmissed
      subst hreq
      have halone : ¬ s.Contested t l.req := by
        simpa only [Sys.lets, decide_eq_true_eq, hlock, hrechecks, hfind, true_imp_iff] using hlets
      refine Or.inr fun t' th' hne hth' hreq' hmissed' => ?_
      cases hnext : th'.next with
      | none => exact h.find_of_done hreach hth' hreq' hvalid hk hnext hfind
      | some c =>
        exact halone ⟨t', hinv.lt_seq hth', hne, th', hth', hreq', hmissed', by simp [hnext]⟩

/-- A duplicate that is about to book after its command has found no journal. -/
lemma due_after (h : Orderly cfg req s) (hinv : Inv cfg s) {l : Local} {c : Cmd}
    {k : Except Exn c.Ret → Service Response} {r : Except Exn c.Ret}
    (hth : s.threads t = some ⟨l, .call c k, true⟩) (hreq : l.req = req)
    (hserved : s.Served t l.tx c s₁ r) (hdue : Thread.Due ⟨l.after s.seq c r, k r, true⟩)
    {key : String} (hk : req.key = some key) :
    s₁.db.findByIdempotencyKey req.userId key = none := by
  obtain ⟨-, hlock, hmissed, hbooked⟩ := hdue
  have hguard := hinv.guard hth
  cases hinv.booking hth hserved with
  | commit htx hbooks hdb hcommits hl' =>
    rw [hl'] at hbooked
    cases hbooked
  | none hrows hamount hjournals hcommits hbooked' hhand =>
    rw [Database.findByIdempotencyKey, hjournals]
    rcases Local.after_inLock hlock with hheld | ⟨u, ttl, rfl⟩
    · by_cases hc : ∀ u key, c ≠ .pool (.findByIdempotencyKey u key)
      · rw [(Local.after_missed hc).2] at hmissed
        exact h.due t _ key hth hreq ⟨rfl, hheld, hmissed, hbooked'.symm.trans hbooked⟩ hk
      · -- it has just looked
        push Not at hc
        obtain ⟨u, key', rfl⟩ := hc
        obtain ⟨rfl, hk', hvalid, htx, -⟩ := hguard
        obtain rfl : key' = key := Option.some.inj (hk'.symm.trans (hreq ▸ hk))
        cases hserved with
        | failed => exact h.due t _ key' hth hreq ⟨rfl, hheld, hmissed, hbooked⟩ hk
        | pool =>
          have hfind : s.db.findByIdempotencyKey l.req.userId key' = none := by
            simpa [Local.after, Local.afterOk, execPool, hheld] using hmissed
          exact hreq ▸ hfind
    · -- a thread that has just got the lock has not looked yet
      obtain ⟨-, -, -, hnot⟩ := hguard
      rw [(Local.after_missed (by simp)).2, hnot] at hmissed
      cases hmissed

/-- Nobody else books while a duplicate works under the wallet lock. -/
lemma due_other (h : Orderly cfg req s) (hreach : Reachable cfg s) {l : Local} {c : Cmd}
    {k : Except Exn c.Ret → Service Response} {r : Except Exn c.Ret}
    (hth : s.threads t = some ⟨l, .call c k, true⟩) (hheld : s.LockHeld req.userId)
    (hserved : s.Served t l.tx c s₁ r) {t' : Tid} {th' : Thread} (hne : t' ≠ t)
    (hth' : s.threads t' = some th') (hreq' : th'.state.req = req) (hdue : th'.Due)
    {key : String} (hk : req.key = some key) :
    s₁.db.findByIdempotencyKey req.userId key = none := by
  have hinv := inv_of_reachable hreach
  have hfind := h.due t' th' key hth' hreq' hdue hk
  cases hinv.booking hth hserved with
  | none hrows hamount hjournals hcommits hbooked hhand =>
    rw [Database.findByIdempotencyKey, hjournals]
    exact hfind
  | @commit tx j htx hbooks hdb hcommits hl' =>
    have hjournals : s₁.db.journals = s.db.journals ++ [j] := by
      rw [hdb, ← hbooks.journals]
      rfl
    rw [Database.find_eq_none_iff] at hfind ⊢
    rw [hjournals, List.map_append, List.map_singleton, List.mem_append, List.mem_singleton]
    rintro (hmem | hkey)
    · exact hfind hmem
    · -- both would hold the wallet lock
      obtain ⟨hu, hjk⟩ := Prod.mk.inj hkey
      have hreq : l.req = req := h.same t _ hth (hbooks.userId.symm.trans hu.symm)
        (hbooks.key.trans (by rw [← hjk, hk]))
      have hlock : l.trail.inLock = true :=
        (careful_of_reachable hreach hth).inLock (by simp [htx])
      have hown := hheld t (hinv.lt_seq hth) _ hth (by rw [hreq]) hlock rfl
      have hown' := hheld t' (hinv.lt_seq hth') _ hth' (by rw [hreq']) hdue.inLock hdue.next
      exact hne (Option.some.inj (hown'.symm.trans hown))

lemma run (h : Orderly cfg req s) (hreach : Reachable cfg s) {l : Local} {c : Cmd}
    {k : Except Exn c.Ret → Service Response} {choice : Choice} {r : Except Exn c.Ret}
    (hth : s.threads t = some ⟨l, .call c k, true⟩)
    (hrespond : s.respond t l.tx c choice = some (s₁, r)) (hheld : s.LockHeld req.userId)
    (hfail : choice ≠ .fail) (hlets : l.req = req → s.lets t l c choice = true) :
    Orderly cfg req (s₁.setThread t ⟨l.after s.seq c r, k r, true⟩) := by
  have hinv := inv_of_reachable hreach
  have hserved := Sys.served_of_eq hrespond
  have hthreads := hserved.frame.1
  refine ⟨?_, ?_, ?_, ?_, ?_⟩
  · intro t' th' hth'
    rcases Sys.of_setThread hth' with ⟨-, rfl⟩ | ⟨-, hold⟩
    · rfl
    · exact h.alive t' th' (hthreads ▸ hold)
  · intro t' th' hth' hu hk
    rcases Sys.of_setThread hth' with ⟨-, rfl⟩ | ⟨-, hold⟩
    · simp only [Local.after_req] at hu hk ⊢
      exact h.same t _ hth hu hk
    · exact h.same t' th' (hthreads ▸ hold) hu hk
  · intro t' th' hth' hreq
    rcases Sys.of_setThread hth' with ⟨-, rfl⟩ | ⟨-, hold⟩
    · rw [Local.after_req] at hreq
      refine (h.programs t _ hth hreq).2 r _ ⟨⟨s.seq, rfl⟩, ?_, fun _ => ?_⟩
      · exact hinv.reply_served (Sys.txOf_eq hth) (hinv.guard hth) hserved
      · exact h.admits hreach hth hreq hheld hfail (hlets hreq) hrespond
    · exact h.programs t' th' (hthreads ▸ hold) hreq
  · intro t' th' key hth' hreq hdue hk
    rcases Sys.of_setThread hth' with ⟨-, rfl⟩ | ⟨hne, hold⟩
    · rw [Local.after_req] at hreq
      exact h.due_after hinv hth hreq hserved hdue hk
    · exact h.due_other hreach hth hheld hserved hne (hthreads ▸ hold) hreq hdue hk
  · -- the one that has moved is the only one, or it was one of those before
    intro hrechecks t₁ t₂ th₁ th₂ hth₁ hth₂ hreq₁ hreq₂ hmissed₁ hmissed₂
    have hmoved (hreq : (l.after s.seq c r).req = req)
        (hmissed : (l.after s.seq c r).trail.missed = true) {t' : Tid} {th' : Thread}
        (hne : t' ≠ t) (hth' : s.threads t' = some th') (hreq' : th'.state.req = req)
        (hmissed' : th'.state.trail.missed = true) : t = t' := by
      rw [Local.after_req] at hreq
      rcases h.missed_alone hreach hth hreq hrechecks (hlets hreq) hserved hmissed with
        hmissed | halone
      · exact h.single hrechecks t t' _ _ hth hth' hreq hreq' hmissed hmissed'
      · exact absurd hmissed' (halone t' th' hne hth' hreq')
    rcases Sys.of_setThread hth₁ with ⟨rfl, rfl⟩ | ⟨hne₁, hold₁⟩ <;>
      rcases Sys.of_setThread hth₂ with ⟨rfl, rfl⟩ | ⟨hne₂, hold₂⟩
    · rfl
    · exact hmoved hreq₁ hmissed₁ hne₂ (hthreads ▸ hold₂) hreq₂ hmissed₂
    · exact (hmoved hreq₂ hmissed₂ hne₁ (hthreads ▸ hold₁) hreq₁ hmissed₁).symm
    · exact h.single hrechecks t₁ t₂ _ _ (hthreads ▸ hold₁) (hthreads ▸ hold₂) hreq₁ hreq₂
        hmissed₁ hmissed₂

lemma step (h : Orderly cfg req s) (hreach : Reachable cfg s) (hok : Unhindered req s e)
    (hstep : s.step cfg e = some s') : Orderly cfg req s' := by
  obtain ⟨⟨hheld, hnone⟩, hunhindered⟩ := hok
  cases Sys.step_of_eq hstep with
  | spawn req' =>
    have hsame : req'.userId = req.userId → req'.key = req.key → req' = req :=
      of_decide_eq_true hunhindered
    refine ⟨?_, ?_, ?_, ?_, ?_⟩
    · intro t th hth
      rcases Sys.of_setThread hth with ⟨-, rfl⟩ | ⟨-, hold⟩
      · rfl
      · exact h.alive t th hold
    · intro t th hth
      rcases Sys.of_setThread hth with ⟨-, rfl⟩ | ⟨-, hold⟩
      · exact hsame
      · exact h.same t th hold
    · intro t th hth hreq
      rcases Sys.of_setThread hth with ⟨-, rfl⟩ | ⟨-, hold⟩
      · exact wp_program cfg True req'
      · exact h.programs t th hold hreq
    · intro t th k hth hreq hdue
      rcases Sys.of_setThread hth with ⟨-, rfl⟩ | ⟨-, hold⟩
      · exact absurd hdue.inLock (by simp)
      · exact h.due t th k hold hreq hdue
    · intro hrechecks t₁ t₂ th₁ th₂ hth₁ hth₂ hreq₁ hreq₂ hmissed₁ hmissed₂
      rcases Sys.of_setThread hth₁ with ⟨-, rfl⟩ | ⟨-, hold₁⟩
      · cases hmissed₁
      rcases Sys.of_setThread hth₂ with ⟨-, rfl⟩ | ⟨-, hold₂⟩
      · cases hmissed₂
      exact h.single hrechecks t₁ t₂ th₁ th₂ hold₁ hold₂ hreq₁ hreq₂ hmissed₁ hmissed₂
  | @run t choice l c k s₁ r hth hrespond =>
    refine h.run hreach hth hrespond hheld ?_ fun hreq => ?_
    · rintro rfl
      exact hnone
    · have hlets := (Option.all_eq_true ..).mp hunhindered _ hth
      simpa [hreq, Thread.next] using hlets
  | crash hth => exact hnone.elim
  | tick ms => exact ⟨h.alive, h.same, h.programs, h.due, h.single⟩

end Orderly

theorem orderly_of_runs (h : Runs cfg (Unhindered req) Sys.initial s) : Orderly cfg req s :=
  h.invariant orderly_initial fun _ _ _ hrun horderly hok hstep =>
    horderly.step (reachable_of_runs hrun) hok hstep

/-! ## Duplicates -/

/-- While nothing stands in their way, all duplicates of a request that has succeeded
succeed, and hand out one journal. -/
theorem duplicates_share_journal (h : Runs cfg (Unhindered req) Sys.initial s) {th : Thread}
    (hth : s.threads t = some th) (hreq : th.state.req = req) {r : OperationResponse}
    (hanswer : th.answer = some (.ok (.operation r))) :
    r.status = .success ∧ ∀ t' th' a, s.threads t' = some th' → th'.state.req = req →
      th'.answer = some a →
        ∃ r', a = .ok (.operation r') ∧ r'.status = .success ∧ r'.journal = r.journal := by
  have hreach := reachable_of_runs h
  have hinv := inv_of_reachable hreach
  have horderly := orderly_of_runs h
  obtain ⟨-, hstatus, hvalid, -⟩ := hinv.answer hth hanswer
  obtain ⟨hmem, hu, hk⟩ := journal_of_answer hreach hth hanswer
  rw [hreq] at hvalid hu hk
  refine ⟨hstatus, fun t' th' a hth' hreq' ha => ?_⟩
  obtain ⟨r', rfl, hstatus', hmem', hkey'⟩ :=
    horderly.succeeds hreach hth' hreq' hvalid hk ha
  refine ⟨r', rfl, hstatus', ?_⟩
  -- one journal for the user and the key
  exact List.inj_on_of_nodup_map hinv.ledger.sheet.unique hmem' hmem
    (hkey'.trans (Prod.ext hu.symm rfl))

/-- Two fundings with one key: both have missed it before the first one gets the wallet
lock. -/
def fundTwice : List Event :=
  let req := Request.fundWallet 1 "USD" (.integer 500) "fund"
  .spawn req :: .run 1 .ok :: .spawn req :: .run 3 .ok :: (serve 1 17 ++ serve 3 3)

/-- Two conversions with one key, by a user who has funds: both have arrived before one of them
looks up the key, and the other one does when this has booked. -/
def convertInTurn : List Event :=
  let req := Request.convertFunds 1 "USD" "EUR" (.integer 100) "convert" .convert
  fundRun ++ .spawn req :: .spawn req :: .run 21 .ok :: .run 21 .ok ::
    .run 21 (.rates parRates) :: (serve 21 18 ++ [.run 20 .ok])

/-- In some run the threads `t` and `t'` have both answered `req`, with one journal. -/
def Shared (req : Request) (t t' : Tid) : Prop :=
  ∃ s th th' r r', Reachable {} s ∧ s.threads t = some th ∧ s.threads t' = some th' ∧
    th.state.req = req ∧ th'.state.req = req ∧ th.answer = some (.ok (.operation r)) ∧
    th'.answer = some (.ok (.operation r')) ∧ r'.journal = r.journal

/-- Two fundings share a journal, and so do two conversions. -/
theorem duplicates_share_journal_twice :
    Shared (.fundWallet 1 "USD" (.integer 500) "fund") 1 3 ∧
      Shared (.convertFunds 1 "USD" "EUR" (.integer 100) "convert" .convert) 21 20 := by
  have hshared (req : Request) (es : List Event) (t t' : Tid)
      (hplay : (runAll (Sys.step {}) (Unhindered req) Sys.initial es).any (fun s =>
        (s.threads t).any (fun th => th.state.req = req ∧ th.operation.isSome) ∧
          (s.threads t').any fun th => th.state.req = req ∧ th.operation.isSome) = true) :
      Shared req t t' := by
    obtain ⟨s, hrun, hs⟩ := exists_of_runAll hplay
    simp only [Bool.decide_and, Bool.and_eq_true, decide_eq_true_eq, Option.any_eq_true] at hs
    obtain ⟨⟨th, hth, hreq, hr⟩, th', hth', hreq', hr'⟩ := hs
    obtain ⟨r, hr⟩ := Option.isSome_iff_exists.mp hr
    obtain ⟨r', hr'⟩ := Option.isSome_iff_exists.mp hr'
    have hanswer := Thread.answer_of_operation hr
    have hanswer' := Thread.answer_of_operation hr'
    obtain ⟨-, hall⟩ := duplicates_share_journal hrun hth hreq hanswer
    obtain ⟨r'', heq, -, hjournal⟩ := hall t' th' _ hth' hreq' hanswer'
    cases heq
    exact ⟨s, th, th', r, r', reachable_of_runs hrun, hth, hth', hreq, hreq', hanswer, hanswer',
      hjournal⟩
  exact ⟨hshared _ fundTwice 1 3 (by decide +kernel),
    hshared _ convertInTurn 21 20 (by decide +kernel)⟩

/-- Two conversions with one key: both have missed it before the first one gets the wallet
lock. -/
def convertTwice : List Event :=
  let req := Request.convertFunds 1 "USD" "EUR" (.integer 100) "convert" .convert
  fundRun ++ .spawn req :: .run 20 .ok :: .spawn req :: .run 22 .ok ::
    .run 20 .ok :: .run 20 (.rates parRates) :: (serve 20 18 ++
      .run 22 .ok :: .run 22 (.rates parRates) :: serve 22 9)

/-- The first one succeeds and the second one fails, although nothing else does and the
wallet lock holds. -/
theorem duplicate_conversion_fails : ∃ s th th' r, Runs {} (Steady 1) Sys.initial s ∧
    s.threads 20 = some th ∧ s.threads 22 = some th' ∧
    th.state.req = .convertFunds 1 "USD" "EUR" (.integer 100) "convert" .convert ∧
    th'.state.req = th.state.req ∧
    th.answer = some (.ok (.operation r)) ∧ r.status = .success ∧
    th'.answer = some (.error (.badRequest "Failed to convert funds")) := by
  have hplay : (runAll (Sys.step {}) (Steady 1) Sys.initial convertTwice).any
      (fun s => (s.threads 20).any (fun th =>
        th.state.req = .convertFunds 1 "USD" "EUR" (.integer 100) "convert" .convert ∧
        th.operation.any fun r => r.status = .success) ∧
      (s.threads 22).any fun th =>
        th.state.req = .convertFunds 1 "USD" "EUR" (.integer 100) "convert" .convert ∧
        th.failure = some (.badRequest "Failed to convert funds")) = true := by decide +kernel
  obtain ⟨s, hrun, hs⟩ := exists_of_runAll hplay
  simp only [Bool.decide_and, Bool.and_eq_true, decide_eq_true_eq, Option.any_eq_true] at hs
  obtain ⟨⟨th, hth, hreq, r, hr, hstatus⟩, th', hth', hreq', hfailure⟩ := hs
  exact ⟨s, th, th', r, hrun, hth, hth', hreq, hreq'.trans hreq.symm,
    Thread.answer_of_operation hr, hstatus, Thread.answer_of_failure hfailure⟩

end FxExchange
