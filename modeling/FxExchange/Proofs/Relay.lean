import FxExchange.Model.Outbox
import FxExchange.Proofs.History

/-
# The outbox relay

Every journal has its event in the outbox, and the relay does not lose it: whatever its
workers do and in whatever order, a row waits to be claimed, can be swept, has been
published, or has used up its retries.
-/

namespace FxExchange

open Transition
open Prog (wp_bind wp_command wp_tryCatch wp_of_restrict)

variable {cfg : Config} {o : OutboxConfig} {s s' s₁ : Sys} {t : Tid} {e : Event}

/-! ## The events of the journals -/

/-- The request has written an outbox entry with the id. -/
def Local.Emits (l : Local) (id : Uuid) : Prop :=
  ∃ tx, (l.tx = some tx ∨ l.trail.booked = some tx) ∧ ∃ entry ∈ tx.outbox, entry.id = id

/-- The entry is as `addToOutbox` writes it. -/
structure OutboxEntry.New (entry : OutboxEntry) : Prop where
  status : entry.status = .pending
  retryCount : entry.retryCount = 0

/-- An outbox entry after a statement was there before, or it is inserted. -/
lemma Tx.after_outbox {db : Database} {locks locks' : Locks} {seq : ℕ} {tx : Tx} {c : TxCmd}
    {r : Except Exn c.Ret} (hexec : execTx db locks t seq tx c = some (locks', r))
    {entry : OutboxEntry} (h : entry ∈ (tx.after seq c r).outbox) :
    entry ∈ tx.outbox ∨ entry.id = seq ∧ entry.New := by
  cases r with
  | error e => exact Or.inl h
  | ok a =>
    cases c with
    | insertOutbox eventType payload =>
      obtain rfl : seq = a := Except.ok.inj (Prod.ext_iff.mp (Option.some.inj hexec)).2
      rcases List.mem_append.mp h with h | h
      · exact Or.inl h
      · rw [List.mem_singleton.mp h]
        exact Or.inr ⟨rfl, rfl, rfl⟩
    | selectForUpdate b =>
      cases a with
      | none => exact Or.inl h
      | some v =>
        simp only [after, afterOk, lockRow] at h
        split at h <;> exact Or.inl h
    | insertBalance b =>
      simp only [after, afterOk, lockRow] at h
      split at h <;> exact Or.inl h
    | _ => exact Or.inl h

/-- All outbox entries of a request are new ones. -/
lemma new_of_reachable (h : Reachable cfg s) {th : Thread} (hth : s.threads t = some th)
    {tx : Tx} (htx : th.state.tx = some tx ∨ th.state.trail.booked = some tx)
    {entry : OutboxEntry} (hentry : entry ∈ tx.outbox) : entry.New := by
  revert tx entry
  refine forall_threads (P := fun l => ∀ {tx}, (l.tx = some tx ∨ l.trail.booked = some tx) →
    ∀ {entry}, entry ∈ tx.outbox → entry.New) h (by simp) (fun l hl tx htx entry hentry => ?_)
    (fun s t l c s₁ r hl _ hserved tx htx entry hentry => ?_) hth
  · rcases htx with htx | htx
    · cases htx
    · exact hl (Or.inr htx) hentry
  · cases hserved.txOrigin htx with
    | old h => exact hl h hentry
    | start time => cases hentry
    | abort h => exact hl (Or.inl h) hentry
    | statement h hc hexec =>
      rcases Tx.after_outbox hexec hentry with hold | ⟨-, hnew⟩
      · exact hl (Or.inl h) hold
      · exact hnew

/-- No id is used for two outbox entries. -/
lemma outbox_distinct (h : Reachable cfg s) : Distinct Local.Emits s := by
  refine h.invariant distinct_initial fun s e s' hrun hdistinct _ hstep => ?_
  refine hdistinct.step hstep (by simp [Local.Emits]) (fun l id hid => ?_)
    fun t choice l c k s₁ r hth hrespond id hid => ?_
  · obtain ⟨tx, htx | htx, hentry⟩ := hid
    · cases htx
    · exact ⟨tx, Or.inr htx, hentry⟩
  · obtain ⟨tx, htx, entry, hentry, rfl⟩ := hid
    cases (Sys.served_of_eq hrespond).txOrigin htx with
    | old h => exact Or.inl ⟨tx, h, entry, hentry, rfl⟩
    | start time => cases hentry
    | @abort x h => exact Or.inl ⟨x, Or.inl h, entry, hentry, rfl⟩
    | @statement x d locks r h hc hexec =>
      rcases Tx.after_outbox hexec hentry with hold | ⟨hid, -⟩
      · exact Or.inl ⟨x, Or.inl h, entry, hold, rfl⟩
      · exact Or.inr hid

/-- The outbox changes with the commits only. -/
lemma Sys.step_outbox (hstep : s.step cfg e = some s') :
    (s'.db.outbox = s.db.outbox ∧ s'.commits = s.commits) ∨ ∃ t tx,
      s'.db.outbox = s.db.outbox ++ tx.outbox ∧ s'.commits = s.commits ++ [(t, tx)] := by
  cases Sys.step_of_eq hstep with
  | @run t choice l c k s₁ r hth hrespond =>
    show (s₁.db.outbox = _ ∧ s₁.commits = _) ∨ ∃ t tx, s₁.db.outbox = _ ∧ s₁.commits = _
    cases Sys.served_of_eq hrespond with
    | pool c =>
      refine Or.inl ⟨?_, rfl⟩
      cases c with
      | saveWallet u => simp only [execPool]; split <;> rfl
      | saveOrder o => simp only [execPool]; split <;> rfl
      | _ => rfl
    | @commit x htx haborted => exact Or.inr ⟨t, x, rfl, rfl⟩
    | _ => exact Or.inl ⟨rfl, rfl⟩
  | _ => exact Or.inl ⟨rfl, rfl⟩

lemma outbox_eq (h : Reachable cfg s) : s.db.outbox = s.commits.flatMap fun c => c.2.outbox := by
  refine h.invariant (I := fun s => s.db.outbox = s.commits.flatMap fun c => c.2.outbox) rfl
    fun s e s' _ hI _ hstep => ?_
  rcases Sys.step_outbox hstep with ⟨houtbox, hcommits⟩ | ⟨t, tx, houtbox, hcommits⟩
  · rw [houtbox, hcommits, hI]
  · rw [houtbox, hcommits, List.flatMap_append, ← hI]
    simp

/-- The entry is the event of the journal. -/
structure OutboxEntry.Announces (entry : OutboxEntry) (j : JournalEntry) : Prop where
  eventType : entry.eventType = "journal.created"
  journalId : entry.payload.journalId = j.id
  entries : entry.payload.entries = j.legs

/-- Ids that no two threads share are not repeated in the commits. -/
lemma Distinct.nodup_commits {P : Local → ℕ → Prop} (h : Distinct P s)
    (hnodup : (s.commits.map Prod.fst).Nodup) (ids : Tx → List ℕ)
    (hids : ∀ c ∈ s.commits, (ids c.2).Nodup ∧
      ∀ id ∈ ids c.2, ∃ th, s.threads c.1 = some th ∧ P th.state id) :
    (s.commits.flatMap fun c => ids c.2).Nodup := by
  refine List.nodup_flatMap.mpr ⟨fun c hc => (hids c hc).1, ?_⟩
  refine (List.pairwise_map.mp hnodup).imp_of_mem fun hc hc' hne id hid hid' => hne ?_
  obtain ⟨th, hth, hP⟩ := (hids _ hc).2 id hid
  obtain ⟨th', hth', hP'⟩ := (hids _ hc').2 id hid'
  exact h.unique _ _ th th' id hth hth' hP hP'

/-- A committed transaction has written one journal and its event. -/
lemma exists_pair (h : Reachable cfg s) {c : Tid × Tx} (hc : c ∈ s.commits) :
    ∃ th j entry, s.threads c.1 = some th ∧ th.state.trail.booked = some c.2 ∧
      c.2.journals = [j] ∧ c.2.outbox = [entry] ∧ entry.Announces j ∧ entry.New := by
  obtain ⟨th, j, hth, hbooked, hbooks⟩ := (history_of_reachable h).booked c hc
  obtain ⟨entry, hentry, htype, hid, hlegs⟩ := hbooks.outbox
  have hnew : entry.New := new_of_reachable h hth (Or.inr hbooked) (by simp [hentry])
  exact ⟨th, j, entry, hth, hbooked, hbooks.journals, hentry, ⟨htype, hid, hlegs⟩, hnew⟩

/-- Journals and outbox entries come in pairs. -/
lemma exists_pairs (h : Reachable cfg s) : ∃ pairs : List (JournalEntry × OutboxEntry),
    s.db.journals = pairs.map Prod.fst ∧ s.db.outbox = pairs.map Prod.snd ∧
      (pairs.map fun p => p.1.id).Nodup ∧ (pairs.map fun p => p.2.id).Nodup ∧
      ∀ p ∈ pairs, p.2.Announces p.1 ∧ p.2.New := by
  have hhist := history_of_reachable h
  set pairs := s.commits.flatMap fun c => c.2.journals.zip c.2.outbox
  have hjournals : s.db.journals = pairs.map Prod.fst := by
    rw [hhist.journals, List.map_flatMap]
    refine List.flatMap_congr fun c hc => ?_
    obtain ⟨-, j, entry, -, -, hj, hentry, -⟩ := exists_pair h hc
    simp [hj, hentry]
  have houtbox : s.db.outbox = pairs.map Prod.snd := by
    rw [outbox_eq h, List.map_flatMap]
    refine List.flatMap_congr fun c hc => ?_
    obtain ⟨-, j, entry, -, -, hj, hentry, -⟩ := exists_pair h hc
    simp [hj, hentry]
  refine ⟨pairs, hjournals, houtbox, ?_, ?_, fun p hp => ?_⟩
  · have hids : (s.db.journals.map JournalEntry.id).Nodup := by
      rw [hhist.journals, List.map_flatMap]
      refine (journals_distinct h).nodup_commits hhist.nodup
        (fun tx => tx.journals.map JournalEntry.id) fun c hc => ?_
      obtain ⟨th, j, entry, hth, hbooked, hj, -⟩ := exists_pair h hc
      refine ⟨by simp [hj], fun id hid => ⟨th, hth, c.2, Or.inr hbooked, ?_⟩⟩
      simpa using hid
    rwa [hjournals, List.map_map] at hids
  · have hids : (s.db.outbox.map OutboxEntry.id).Nodup := by
      rw [outbox_eq h, List.map_flatMap]
      refine (outbox_distinct h).nodup_commits hhist.nodup
        (fun tx => tx.outbox.map OutboxEntry.id) fun c hc => ?_
      obtain ⟨th, j, entry, hth, hbooked, -, hentry, -⟩ := exists_pair h hc
      refine ⟨by simp [hentry], fun id hid => ⟨th, hth, c.2, Or.inr hbooked, ?_⟩⟩
      simpa using hid
    rwa [houtbox, List.map_map] at hids
  · obtain ⟨c, hc, hp⟩ := List.mem_flatMap.mp hp
    obtain ⟨-, j, entry, -, -, hj, hentry, hannounces, hnew⟩ := exists_pair h hc
    rw [hj, hentry, List.zip_cons_cons, List.zip_nil_right, List.mem_singleton] at hp
    exact hp ▸ ⟨hannounces, hnew⟩

/-- Every entry of the outbox is a new one. -/
lemma new_of_outbox (h : Reachable cfg s) {entry : OutboxEntry} (hentry : entry ∈ s.db.outbox) :
    entry.New := by
  obtain ⟨pairs, -, houtbox, -, -, hpairs⟩ := exists_pairs h
  rw [houtbox] at hentry
  obtain ⟨p, hp, rfl⟩ := List.mem_map.mp hentry
  exact (hpairs p hp).2

/-! ## What a worker keeps to -/

/-- Only claimed rows are published and marked, and as published only after the publish call
has resolved. -/
def leaseGuard (o : OutboxConfig) (l : Lease) : OutboxCmd → Prop
  | .claimPendingEntries _ => l.held = []
  | .recoverStuckEntries _ => True
  | .publish message => ∃ row ∈ l.claimed, message = row.message
  | .markPublished id => id ∈ l.held ∧ id ∈ l.delivered
  | .markFailed id _ _ maxRetries => id ∈ l.held ∧ maxRetries = o.maxRetries

/-- The discipline of the workers. -/
def leasing (o : OutboxConfig) : Discipline OutboxCmd.Ret Exn Lease where
  guard := leaseGuard o
  outcome l c r l' := l' = l.after c r

/-- A row is published while it is held, and a failed attempt is counted on from the row as it was
claimed. -/
def attemptGuard (l : Lease) : OutboxCmd → Prop
  | .publish message => ∃ row ∈ l.claimed, message = row.message ∧ row.id ∈ l.held
  | .markFailed id _ retryCount _ => ∃ row ∈ l.claimed, row.id = id ∧
      retryCount = row.retryCount + 1
  | _ => True

/-- The discipline of the workers, with what they make of an attempt. -/
def attempting (o : OutboxConfig) : Discipline OutboxCmd.Ret Exn Lease :=
  (leasing o).restrict attemptGuard

/-- An entry is published and marked, or its failure is recorded. -/
lemma wp_publishEntry {l : Lease} {entry : OutboxRow} {rest : List Uuid}
    {Q : Lease → Except Exn Unit → Prop} (hclaimed : entry ∈ l.claimed)
    (hheld : l.held = entry.id :: rest)
    (hok : ∀ delivered, Q { l with held := rest, delivered } (.ok ()))
    (herr : ∀ l' e, Q l' (.error e)) : (publishEntry o entry).wp (attempting o) Q l := by
  have hmem : entry.id ∈ l.held := by
    rw [hheld]
    exact List.mem_cons_self
  have herase : l.held.erase entry.id = rest := by rw [hheld, List.erase_cons_head]
  -- the handler, whatever has failed
  have hfailed (delivered : List Uuid) (error : Exn) :
      (Processor.issue (.markFailed entry.id error.message (entry.retryCount + 1)
        o.maxRetries)).wp (attempting o) Q { l with delivered } := by
    refine wp_command.mpr ⟨⟨⟨hmem, rfl⟩, entry, hclaimed, rfl, rfl⟩, ?_⟩
    rintro (e | a) l' rfl
    · exact herr _ e
    · have := hok delivered
      rwa [← herase] at this
  refine wp_tryCatch.mpr (wp_bind.mpr (wp_command.mpr
    ⟨⟨⟨entry, hclaimed, rfl⟩, entry, hclaimed, rfl, hmem⟩, ?_⟩))
  rintro (e | a) l' rfl
  · exact hfailed _ e
  · refine wp_command.mpr ⟨⟨⟨hmem, List.mem_cons_self⟩, trivial⟩, ?_⟩
    rintro (e | a) l' rfl
    · exact hfailed (entry.id :: l.delivered) e
    · have := hok (entry.id :: l.delivered)
      rwa [← herase] at this

lemma wp_publishEntries (entries : List OutboxRow) {l : Lease}
    (hclaimed : ∀ entry ∈ entries, entry ∈ l.claimed)
    (hheld : l.held = entries.map fun entry => entry.id) :
    (publishEntries o entries).wp (attempting o) (fun _ _ => True) l := by
  induction entries generalizing l with
  | nil => trivial
  | cons entry entries ih =>
    refine wp_bind.mpr (wp_publishEntry (hclaimed entry List.mem_cons_self) hheld
      (fun delivered => ?_) fun _ _ => trivial)
    exact ih (fun entry' h => hclaimed entry' (List.mem_cons_of_mem _ h)) rfl

theorem wp_processOutbox_attempting :
    (processOutbox o).wp (attempting o) (fun _ _ => True) {} := by
  refine wp_bind.mpr (wp_command.mpr ⟨⟨rfl, trivial⟩, ?_⟩)
  rintro (e | rows) l' rfl
  · trivial
  · exact wp_publishEntries rows (fun _ => id) rfl

theorem wp_recoverStuckEntries_attempting :
    (recoverStuckEntries o).wp (attempting o) (fun _ _ => True) {} := by
  refine wp_tryCatch.mpr (wp_bind.mpr (wp_command.mpr ⟨⟨trivial, trivial⟩, ?_⟩))
  rintro (e | n) l' rfl <;> trivial

theorem wp_processOutbox : (processOutbox o).wp (leasing o) (fun _ _ => True) {} :=
  wp_of_restrict wp_processOutbox_attempting

theorem wp_recoverStuckEntries :
    (recoverStuckEntries o).wp (leasing o) (fun _ _ => True) {} :=
  wp_of_restrict wp_recoverStuckEntries_attempting

/-! ## The rows -/

/-- What a row is about; no statement of the relay changes it. -/
def OutboxEntry.event (entry : OutboxEntry) : Uuid × String × JournalCreated :=
  (entry.id, entry.eventType, entry.payload)

/-- The event that a message is for. -/
def Message.event (message : Message) : Uuid × String × JournalCreated :=
  (message.outboxId, message.routingKey, message.payload)

/-- The events of the table. -/
def events (table : List OutboxRow) : List (Uuid × String × JournalCreated) :=
  table.map fun row => row.event

/-- What the status of a row promises. -/
structure OutboxRow.Sound (maxRetries : ℕ) (published : List Message) (row : OutboxRow) :
    Prop where
  pending : row.status = .pending → row.retryCount < maxRetries
  processing : row.status = .processing → row.claimedAt ≠ none ∧ row.retryCount < maxRetries
  published : row.status = .published → ∃ message ∈ published, message.event = row.event
  failed : row.status = .failed → maxRetries ≤ row.retryCount
  claimedAt : row.claimedAt ≠ none → row.status = .processing

lemma OutboxRow.Sound.mono {maxRetries : ℕ} {published published' : List Message}
    {row : OutboxRow} (h : row.Sound maxRetries published)
    (hsub : ∀ message ∈ published, message ∈ published') : row.Sound maxRetries published' :=
  ⟨h.pending, h.processing, fun hrow =>
    (h.published hrow).imp fun message hm => ⟨hsub message hm.1, hm.2⟩, h.failed, h.claimedAt⟩

lemma mem_updateWhere {p : OutboxRow → Bool} {f : OutboxRow → OutboxRow} {table : List OutboxRow}
    {row' : OutboxRow} (h : row' ∈ updateWhere p f table) :
    ∃ row ∈ table, (p row = true ∧ row' = f row) ∨ (p row = false ∧ row' = row) := by
  obtain ⟨row, hrow, rfl⟩ := List.mem_map.mp h
  refine ⟨row, hrow, ?_⟩
  split
  · exact Or.inl ⟨‹_›, rfl⟩
  · exact Or.inr ⟨Bool.eq_false_of_not_eq_true ‹_›, rfl⟩

lemma events_updateWhere {p : OutboxRow → Bool} {f : OutboxRow → OutboxRow}
    {table : List OutboxRow} (hf : ∀ row, (f row).event = row.event) :
    events (updateWhere p f table) = events table := by
  simp only [events, updateWhere, List.map_map]
  refine List.map_congr_left fun row _ => ?_
  simp only [Function.comp]
  split
  · exact hf row
  · rfl

lemma events_execOutbox (table : List OutboxRow) (now : ℕ) (locked : List Uuid) (c : OutboxCmd) :
    events (execOutbox table now locked c).1 = events table := by
  cases c with
  | publish message => rfl
  | _ => exact events_updateWhere fun _ => rfl

/-- What is claimed is the id of a PENDING row. -/
lemma exists_of_claimable {limit : ℕ} {locked : List Uuid} {table : List OutboxRow} {id : Uuid}
    (h : id ∈ OutboxRow.claimable limit locked table) :
    ∃ row ∈ table, row.id = id ∧ row.status = .pending := by
  obtain ⟨row, hrow, rfl⟩ := List.mem_map.mp h
  have hmem := (List.mem_insertionSort _).mp (List.mem_of_mem_take hrow)
  obtain ⟨hrow, hstatus⟩ := List.mem_filter.mp hmem
  exact ⟨row, hrow, rfl, (of_decide_eq_true hstatus).1⟩

/-- Rows with the same id are one row. -/
lemma row_eq_of_id {table : List OutboxRow} (hids : (table.map fun row => row.id).Nodup)
    {row row' : OutboxRow} (h : row ∈ table) (h' : row' ∈ table) (hid : row.id = row'.id) :
    row = row' := List.inj_on_of_nodup_map hids h h' hid

/-- A statement that its worker may issue keeps the promises of the rows. -/
lemma OutboxRow.Sound.exec {table : List OutboxRow} {published : List Message} (now : ℕ)
    (locked : List Uuid) {c : OutboxCmd} {l : Lease}
    (h : ∀ row ∈ table, row.Sound o.maxRetries published)
    (hids : (table.map fun row => row.id).Nodup) (hguard : leaseGuard o l c)
    (hdelivered : ∀ id ∈ l.delivered, ∃ message ∈ published, message.outboxId = id ∧
      message.event ∈ events table) :
    ∀ row ∈ (execOutbox table now locked c).1, row.Sound o.maxRetries published := by
  intro row' hrow'
  cases c with
  | claimPendingEntries limit =>
    obtain ⟨row, hrow, ⟨hp, rfl⟩ | ⟨-, rfl⟩⟩ := mem_updateWhere hrow'
    · -- the row was PENDING
      obtain ⟨row₀, hrow₀, hid, hstatus⟩ := exists_of_claimable (of_decide_eq_true hp)
      obtain rfl := row_eq_of_id hids hrow₀ hrow hid
      exact ⟨by simp [claim], fun _ => ⟨by simp [claim], (h row₀ hrow).pending hstatus⟩,
        by simp [claim], by simp [claim], fun _ => rfl⟩
    · exact h row' hrow
  | recoverStuckEntries staleAfterMs =>
    obtain ⟨row, hrow, ⟨hp, rfl⟩ | ⟨-, rfl⟩⟩ := mem_updateWhere hrow'
    · have hstatus : row.status = .processing := (of_decide_eq_true hp).1
      exact ⟨fun _ => ((h row hrow).processing hstatus).2, by simp [recover], by simp [recover],
        by simp [recover], by simp [recover]⟩
    · exact h row' hrow
  | markPublished id =>
    obtain ⟨row, hrow, ⟨hp, rfl⟩ | ⟨-, rfl⟩⟩ := mem_updateWhere hrow'
    · obtain rfl : row.id = id := of_decide_eq_true hp
      obtain ⟨message, hmessage, hid, hevent⟩ := hdelivered row.id hguard.2
      -- the message is the one of this row
      obtain ⟨row₀, hrow₀, heq⟩ := List.mem_map.mp hevent
      obtain rfl := row_eq_of_id hids hrow₀ hrow ((congrArg Prod.fst heq).trans hid)
      exact ⟨by simp [OutboxRow.markPublished], by simp [OutboxRow.markPublished],
        fun _ => ⟨message, hmessage, heq.symm⟩, by simp [OutboxRow.markPublished],
        by simp [OutboxRow.markPublished]⟩
    · exact h row' hrow
  | markFailed id error retryCount maxRetries =>
    obtain ⟨row, hrow, ⟨-, rfl⟩ | ⟨-, rfl⟩⟩ := mem_updateWhere hrow'
    · obtain rfl := hguard.2
      by_cases hmax : o.maxRetries ≤ retryCount
      · exact ⟨by simp [OutboxRow.markFailed, hmax], by simp [OutboxRow.markFailed, hmax],
          by simp [OutboxRow.markFailed, hmax], fun _ => hmax, by simp [OutboxRow.markFailed]⟩
      · exact ⟨fun _ => not_le.mp hmax, by simp [OutboxRow.markFailed, hmax],
          by simp [OutboxRow.markFailed, hmax], by simp [OutboxRow.markFailed, hmax],
          by simp [OutboxRow.markFailed]⟩
    · exact h row' hrow
  | publish message => exact h row' hrow'

/-! ## The relay as a whole -/

/-- The ways in which the relay can move. -/
inductive Relay.Step (cfg : Config) (o : OutboxConfig) (w : Relay) : RelayEvent → Relay → Prop
  | sys {e : Event} {s' : Sys} {new : List OutboxEntry} (hstep : w.sys.step cfg e = some s')
      (hnew : s'.db.outbox = w.sys.db.outbox ++ new) :
      Step cfg o w (.sys e) { w with sys := s', table := w.table ++ new.map OutboxEntry.row }
  | poll : Step cfg o w .poll { w with workers := w.workers ++ [⟨{}, processOutbox o, true⟩] }
  | sweep :
    Step cfg o w .sweep { w with workers := w.workers ++ [⟨{}, recoverStuckEntries o, true⟩] }
  | run {b : ℕ} {locked : List Uuid} {delivery : Delivery} {l : Lease} {c : OutboxCmd}
      {k : Except Exn c.Ret → Processor Unit}
      (hworker : w.workers[b]? = some ⟨l, .call c k, true⟩) :
      Step cfg o w (.run b locked delivery) { (w.serve locked c delivery).1 with
        workers := w.workers.set b ⟨l.after c (w.serve locked c delivery).2,
          k (w.serve locked c delivery).2, true⟩ }
  | crash {b : ℕ} {worker : Worker} (hworker : w.workers[b]? = some worker) :
    Step cfg o w (.crash b) { w with workers := w.workers.set b { worker with alive := false } }

lemma Relay.step_of_eq {w w' : Relay} {e : RelayEvent} (h : w.step cfg o e = some w') :
    Relay.Step cfg o w e w' := by
  cases e with
  | sys e =>
    obtain ⟨s', hstep, rfl⟩ := Option.map_eq_some_iff.mp h
    have hgrows : ∃ new, s'.db.outbox = w.sys.db.outbox ++ new := by
      rcases Sys.step_outbox hstep with ⟨houtbox, -⟩ | ⟨t, tx, houtbox, -⟩
      · exact ⟨[], by rw [houtbox, List.append_nil]⟩
      · exact ⟨tx.outbox, houtbox⟩
    obtain ⟨new, hnew⟩ := hgrows
    rw [hnew, List.drop_left]
    exact .sys hstep hnew
  | poll =>
    obtain rfl := Option.some.inj h
    exact .poll
  | sweep =>
    obtain rfl := Option.some.inj h
    exact .sweep
  | run b locked delivery =>
    obtain ⟨worker, hworker, hrun⟩ := Option.bind_eq_some_iff.mp h
    unfold Relay.runWorker at hrun
    split at hrun
    · obtain rfl := Option.some.inj hrun
      exact .run hworker
    · cases hrun
  | crash b =>
    obtain ⟨worker, hworker, rfl⟩ := Option.map_eq_some_iff.mp h
    exact .crash hworker

/-- What holds of the relay in every reachable state. -/
structure Relay.Inv (cfg : Config) (o : OutboxConfig) (w : Relay) : Prop where
  reachable : Reachable cfg w.sys
  events : events w.table = w.sys.db.outbox.map OutboxEntry.event
  sound : 1 ≤ o.maxRetries → ∀ row ∈ w.table, row.Sound o.maxRetries w.published
  claimed : ∀ worker ∈ w.workers, ∀ row ∈ worker.lease.claimed,
    row.event ∈ FxExchange.events w.table
  delivered : ∀ worker ∈ w.workers, ∀ id ∈ worker.lease.delivered,
    ∃ message ∈ w.published, message.outboxId = id ∧ message.event ∈ FxExchange.events w.table
  programs : ∀ worker ∈ w.workers, worker.alive = true →
    worker.prog.wp (leasing o) (fun _ _ => True) worker.lease

/-- Runs of the relay, all of whose steps satisfy `ok`. -/
abbrev RelayRuns (cfg : Config) (o : OutboxConfig) (ok : Relay → RelayEvent → Prop) :
    Relay → Relay → Prop := Transition.Runs (Relay.step cfg o) ok

namespace Relay.Inv

variable {w w' : Relay}

lemma initial (cfg : Config) (o : OutboxConfig) : Relay.Inv cfg o Relay.initial where
  reachable := Runs.refl
  events := rfl
  sound := by simp [Relay.initial]
  claimed := by simp [Relay.initial]
  delivered := by simp [Relay.initial]
  programs := by simp [Relay.initial]

/-- The ids of the table are those of the outbox. -/
lemma ids_nodup (h : Relay.Inv cfg o w) : (w.table.map fun row => row.id).Nodup := by
  obtain ⟨pairs, -, houtbox, -, hids, -⟩ := exists_pairs h.reachable
  have hmap : (w.table.map fun row => row.id) = pairs.map fun p => p.2.id := by
    calc (w.table.map fun row => row.id) = (FxExchange.events w.table).map Prod.fst := by
          simp [FxExchange.events, OutboxEntry.event, Function.comp_def]
      _ = pairs.map fun p => p.2.id := by
          rw [h.events, houtbox]
          simp [OutboxEntry.event, Function.comp_def]
  rw [hmap]
  exact hids

/-- The operations move. -/
lemma sys (h : Relay.Inv cfg o w) {s' : Sys} {new : List OutboxEntry} {e : Event}
    (hstep : w.sys.step cfg e = some s')
    (hnew : s'.db.outbox = w.sys.db.outbox ++ new) :
    Relay.Inv cfg o { w with sys := s', table := w.table ++ new.map OutboxEntry.row } := by
  have hreach : Reachable cfg s' := h.reachable.tail trivial hstep
  have hevents : FxExchange.events (w.table ++ new.map OutboxEntry.row) =
      s'.db.outbox.map OutboxEntry.event := by
    rw [hnew, List.map_append, ← h.events]
    simp [FxExchange.events, OutboxEntry.row, OutboxEntry.event, Function.comp_def]
  have hsub {x : Uuid × String × JournalCreated} (hx : x ∈ FxExchange.events w.table) :
      x ∈ FxExchange.events (w.table ++ new.map OutboxEntry.row) := by
    rw [FxExchange.events, List.map_append]
    exact List.mem_append_left _ hx
  refine ⟨hreach, hevents, fun hmax row hrow => ?_, fun worker hworker row hrow =>
    hsub (h.claimed worker hworker row hrow), fun worker hworker id hid => ?_, h.programs⟩
  · rcases List.mem_append.mp hrow with hrow | hrow
    · exact h.sound hmax row hrow
    · -- an inserted row is PENDING and has not been tried
      obtain ⟨entry, hentry, rfl⟩ := List.mem_map.mp hrow
      obtain ⟨hstatus, hretry⟩ := new_of_outbox hreach
        (hnew ▸ List.mem_append_right _ hentry : entry ∈ s'.db.outbox)
      have hstatus' : entry.row.status = .pending := hstatus
      refine ⟨fun _ => ?_, ?_, ?_, ?_, ?_⟩
      · show entry.retryCount < o.maxRetries
        omega
      · simp [hstatus']
      · simp [hstatus']
      · simp [hstatus']
      · simp [OutboxEntry.row]
  · obtain ⟨message, hmessage, hid, hevent⟩ := h.delivered worker hworker id hid
    exact ⟨message, hmessage, hid, hsub hevent⟩

/-- A worker is started. -/
lemma start (h : Relay.Inv cfg o w) {p : Processor Unit}
    (hp : p.wp (leasing o) (fun _ _ => True) {}) :
    Relay.Inv cfg o { w with workers := w.workers ++ [⟨{}, p, true⟩] } := by
  have hcases {worker : Worker} (hworker : worker ∈ w.workers ++ [⟨{}, p, true⟩]) :
      worker ∈ w.workers ∨ worker = ⟨{}, p, true⟩ := by
    simpa using hworker
  refine ⟨h.reachable, h.events, h.sound, fun worker hworker => ?_, fun worker hworker => ?_,
    fun worker hworker => ?_⟩
  · rcases hcases hworker with hold | rfl
    · exact h.claimed worker hold
    · simp
  · rcases hcases hworker with hold | rfl
    · exact h.delivered worker hold
    · simp
  · rcases hcases hworker with hold | rfl
    · exact h.programs worker hold
    · exact fun _ => hp

/-- What a command leaves as it was. -/
lemma serve_frame (locked : List Uuid) (c : OutboxCmd) (delivery : Delivery) :
    (w.serve locked c delivery).1.sys = w.sys ∧
      FxExchange.events (w.serve locked c delivery).1.table = FxExchange.events w.table ∧
      ∀ message ∈ w.published, message ∈ (w.serve locked c delivery).1.published := by
  cases delivery with
  | ok => exact ⟨rfl, events_execOutbox .., fun message h => List.mem_append_right _ h⟩
  | lost => exact ⟨rfl, events_execOutbox .., fun _ => id⟩
  | fail => exact ⟨rfl, rfl, fun _ => id⟩

/-- A command keeps the promises of the rows. -/
lemma sound_serve (h : Relay.Inv cfg o w) {locked : List Uuid} {c : OutboxCmd} {worker : Worker}
    (hworker : worker ∈ w.workers) (hguard : leaseGuard o worker.lease c) (delivery : Delivery)
    (hmax : 1 ≤ o.maxRetries) : ∀ row ∈ (w.serve locked c delivery).1.table,
      row.Sound o.maxRetries (w.serve locked c delivery).1.published := by
  have hexec := OutboxRow.Sound.exec w.sys.now locked (h.sound hmax)
    h.ids_nodup hguard (h.delivered worker hworker)
  intro row hrow
  cases delivery with
  | ok => exact (hexec row hrow).mono fun message hm => List.mem_append_right _ hm
  | lost => exact hexec row hrow
  | fail => exact h.sound hmax row hrow

/-- What a worker knows of its rows after a command. -/
lemma lease_serve (h : Relay.Inv cfg o w) (locked : List Uuid) {c : OutboxCmd} {l : Lease}
    {prog : Processor Unit} (hworker : ⟨l, prog, true⟩ ∈ w.workers) (hguard : leaseGuard o l c)
    (delivery : Delivery) :
    (∀ row ∈ (l.after c (w.serve locked c delivery).2).claimed,
      row.event ∈ FxExchange.events w.table) ∧
    ∀ id ∈ (l.after c (w.serve locked c delivery).2).delivered,
      ∃ message ∈ (w.serve locked c delivery).1.published, message.outboxId = id ∧
        message.event ∈ FxExchange.events w.table := by
  have hclaimed : ∀ row ∈ l.claimed, row.event ∈ FxExchange.events w.table :=
    h.claimed _ hworker
  have hdelivered (id : Uuid) (hid : id ∈ l.delivered) :
      ∃ message ∈ (w.serve locked c delivery).1.published, message.outboxId = id ∧
        message.event ∈ FxExchange.events w.table := by
    obtain ⟨message, hmessage, hrest⟩ := h.delivered _ hworker id hid
    exact ⟨message, (serve_frame locked c delivery).2.2 message hmessage, hrest⟩
  have herror (e : Exn) : (∀ row ∈ (l.after c (.error e)).claimed,
      row.event ∈ FxExchange.events w.table) ∧
      ∀ id ∈ (l.after c (.error e)).delivered,
        ∃ message ∈ (w.serve locked c delivery).1.published, message.outboxId = id ∧
          message.event ∈ FxExchange.events w.table := by
    cases c <;> exact ⟨hclaimed, hdelivered⟩
  cases delivery with
  | fail => exact herror _
  | lost => exact herror _
  | ok =>
    cases c with
    | claimPendingEntries limit =>
      refine ⟨fun row hrow => ?_, hdelivered⟩
      rw [← events_execOutbox w.table w.sys.now locked (.claimPendingEntries limit)]
      exact List.mem_map_of_mem (List.mem_of_mem_filter hrow)
    | publish message =>
      refine ⟨hclaimed, fun id hid => ?_⟩
      rcases List.mem_cons.mp hid with rfl | hid
      · obtain ⟨row, hrow, rfl⟩ := hguard
        exact ⟨row.message, List.mem_cons_self, rfl, hclaimed row hrow⟩
      · exact hdelivered id hid
    | _ => exact ⟨hclaimed, hdelivered⟩

/-- A worker issues its next command. -/
lemma run (h : Relay.Inv cfg o w) {b : ℕ} {locked : List Uuid} {delivery : Delivery} {l : Lease}
    {c : OutboxCmd} {k : Except Exn c.Ret → Processor Unit}
    (hworker : w.workers[b]? = some ⟨l, .call c k, true⟩) :
    Relay.Inv cfg o { (w.serve locked c delivery).1 with
      workers := w.workers.set b ⟨l.after c (w.serve locked c delivery).2,
        k (w.serve locked c delivery).2, true⟩ } := by
  have hmem := List.mem_of_getElem? hworker
  obtain ⟨hguard, hprog⟩ := h.programs _ hmem rfl
  obtain ⟨hsys, hevents, hpublished⟩ := serve_frame (w := w) locked c delivery
  obtain ⟨hclaimed, hdelivered⟩ := h.lease_serve locked hmem hguard delivery
  refine ⟨hsys ▸ h.reachable, ?_, h.sound_serve hmem hguard delivery, fun worker hin => ?_,
    fun worker hin id hid => ?_, fun worker hin => ?_⟩
  · show FxExchange.events _ = _
    rw [hevents, hsys, h.events]
  · show ∀ row ∈ _, _ ∈ FxExchange.events _
    rw [hevents]
    rcases List.mem_or_eq_of_mem_set hin with hold | rfl
    · exact h.claimed worker hold
    · exact hclaimed
  · show ∃ message ∈ _, _ ∧ _ ∈ FxExchange.events _
    rw [hevents]
    rcases List.mem_or_eq_of_mem_set hin with hold | rfl
    · obtain ⟨message, hmessage, hrest⟩ := h.delivered worker hold id hid
      exact ⟨message, hpublished message hmessage, hrest⟩
    · exact hdelivered id hid
  · rcases List.mem_or_eq_of_mem_set hin with hold | rfl
    · exact h.programs worker hold
    · exact fun _ => hprog _ _ rfl

/-- A worker dies. -/
lemma crash (h : Relay.Inv cfg o w) {b : ℕ} {worker : Worker}
    (hworker : w.workers[b]? = some worker) :
    Relay.Inv cfg o { w with workers := w.workers.set b { worker with alive := false } } := by
  have hmem := List.mem_of_getElem? hworker
  refine ⟨h.reachable, h.events, h.sound, fun worker' hin => ?_, fun worker' hin => ?_,
    fun worker' hin => ?_⟩
  · rcases List.mem_or_eq_of_mem_set hin with hold | rfl
    · exact h.claimed worker' hold
    · exact h.claimed worker hmem
  · rcases List.mem_or_eq_of_mem_set hin with hold | rfl
    · exact h.delivered worker' hold
    · exact h.delivered worker hmem
  · rcases List.mem_or_eq_of_mem_set hin with hold | rfl
    · exact h.programs worker' hold
    · exact fun halive => by cases halive

/-- Every step keeps the invariant. -/
theorem step (h : Relay.Inv cfg o w) {e : RelayEvent}
    (hstep : w.step cfg o e = some w') : Relay.Inv cfg o w' := by
  cases Relay.step_of_eq hstep with
  | sys hsys hnew => exact h.sys hsys hnew
  | poll => exact h.start wp_processOutbox
  | sweep => exact h.start wp_recoverStuckEntries
  | run hworker => exact h.run hworker
  | crash hworker => exact h.crash hworker

end Relay.Inv

theorem relayInv_of_runs {ok : Relay → RelayEvent → Prop} {w : Relay}
    (h : RelayRuns cfg o ok Relay.initial w) : Relay.Inv cfg o w :=
  h.invariant (Relay.Inv.initial cfg o) fun _ _ _ _ hinv _ hstep => hinv.step hstep

/-! ## No event is lost -/

/-- A list without repetitions all of whose members are `a` is `[a]`. -/
lemma eq_singleton_of_nodup {α : Type} {l : List α} {a : α} (hnodup : l.Nodup) (hmem : a ∈ l)
    (hall : ∀ b ∈ l, b = a) : l = [a] := by
  have hreplicate : l = List.replicate l.length a := List.eq_replicate_iff.mpr ⟨rfl, hall⟩
  have hle : l.length ≤ 1 := by
    rw [hreplicate] at hnodup
    exact List.nodup_replicate.mp hnodup
  rw [hreplicate, le_antisymm hle (List.length_pos_of_mem hmem), List.replicate_one]

namespace Relay.Inv

variable {w : Relay}

/-- A row is the event of a journal. -/
lemma announces (h : Relay.Inv cfg o w) {pairs : List (JournalEntry × OutboxEntry)}
    (houtbox : w.sys.db.outbox = pairs.map Prod.snd)
    (hpairs : ∀ p ∈ pairs, p.2.Announces p.1 ∧ p.2.New) {row : OutboxRow} (hrow : row ∈ w.table) :
    ∃ p ∈ pairs, row.id = p.2.id ∧ row.Announces p.1 := by
  have hmem : row.event ∈ w.sys.db.outbox.map OutboxEntry.event := by
    rw [← h.events]
    exact List.mem_map_of_mem hrow
  rw [houtbox, List.map_map] at hmem
  obtain ⟨p, hp, heq⟩ := List.mem_map.mp hmem
  simp only [Function.comp, OutboxEntry.event, Prod.mk.injEq] at heq
  obtain ⟨hid, htype, hpayload⟩ := heq
  obtain ⟨⟨htype', hjid, hentries⟩, -⟩ := hpairs p hp
  exact ⟨p, hp, hid.symm, htype ▸ htype', hpayload ▸ hjid, hpayload ▸ hentries⟩

/-- Every journal has one row. -/
lemma exists_row (h : Relay.Inv cfg o w) {j : JournalEntry} (hj : j ∈ w.sys.db.journals) :
    ∃ row, (w.table.filter fun row =>
      row.eventType = "journal.created" ∧ row.payload.journalId = j.id) = [row] ∧
      row.payload.entries = j.legs := by
  obtain ⟨pairs, hjournals, houtbox, hids, -, hpairs⟩ := exists_pairs h.reachable
  rw [hjournals] at hj
  obtain ⟨p, hp, rfl⟩ := List.mem_map.mp hj
  obtain ⟨row, hrow, heq⟩ : ∃ row ∈ w.table, row.event = p.2.event := by
    have hmem : p.2.event ∈ FxExchange.events w.table := by
      rw [h.events, houtbox]
      exact List.mem_map_of_mem (List.mem_map_of_mem hp)
    exact List.mem_map.mp hmem
  simp only [OutboxEntry.event, Prod.mk.injEq] at heq
  obtain ⟨hid, htype, hpayload⟩ := heq
  obtain ⟨⟨htype', hjid, hentries⟩, -⟩ := hpairs p hp
  refine ⟨row, eq_singleton_of_nodup ?_ ?_ fun row' hrow' => ?_, hpayload ▸ hentries⟩
  · exact (List.Nodup.of_map _ h.ids_nodup).filter _
  · exact List.mem_filter.mpr ⟨hrow, by simp [htype, htype', hpayload, hjid]⟩
  · -- it is the event of the same journal, so of the same commit
    obtain ⟨hin, hcreated⟩ := List.mem_filter.mp hrow'
    obtain ⟨p', hp', hid', hann⟩ := h.announces houtbox hpairs hin
    have hjid' : p'.1.id = p.1.id := hann.journalId.symm.trans (of_decide_eq_true hcreated).2
    obtain rfl := List.inj_on_of_nodup_map hids hp' hp hjid'
    exact row_eq_of_id h.ids_nodup hin hrow (hid'.trans hid.symm)

end Relay.Inv

/-- Every journal has one `journal.created` row, with its id and its legs, and every row is
the event of a journal; and each row waits, is being worked on and can be swept, has been
published, or has failed for good. -/
theorem no_journal_event_lost {w : Relay} (hmax : 1 ≤ o.maxRetries)
    (h : RelayRuns cfg o anyStep Relay.initial w) :
    (∀ j ∈ w.sys.db.journals, ∃ row, (w.table.filter fun row =>
        row.eventType = "journal.created" ∧ row.payload.journalId = j.id) = [row] ∧
      row.payload.entries = j.legs) ∧
    (∀ row ∈ w.table, ∃ j ∈ w.sys.db.journals, row.Announces j) ∧
    ∀ row ∈ w.table, (row.claimedAt ≠ none → row.status = .processing) ∧
      match row.status with
      | .pending => row.retryCount < o.maxRetries
      | .processing => row.claimedAt ≠ none
      | .published => ∃ message ∈ w.published, message.outboxId = row.id ∧
          message.routingKey = row.eventType ∧ message.payload = row.payload
      | .failed => o.maxRetries ≤ row.retryCount := by
  have hinv := relayInv_of_runs h
  refine ⟨fun j hj => hinv.exists_row hj, fun row hrow => ?_, fun row hrow => ?_⟩
  · obtain ⟨pairs, hjournals, houtbox, -, -, hpairs⟩ := exists_pairs hinv.reachable
    obtain ⟨p, hp, -, hann⟩ := hinv.announces houtbox hpairs hrow
    exact ⟨p.1, hjournals ▸ List.mem_map_of_mem hp, hann⟩
  · have hsound := hinv.sound hmax row hrow
    refine ⟨hsound.claimedAt, ?_⟩
    split
    · exact hsound.pending ‹_›
    · exact (hsound.processing ‹_›).1
    · obtain ⟨message, hmessage, heq⟩ := hsound.published ‹_›
      simp only [Message.event, OutboxEntry.event, Prod.mk.injEq] at heq
      exact ⟨message, hmessage, heq⟩
    · exact hsound.failed ‹_›

/-- The event of a funding is claimed, published and marked. -/
def relayRun : List RelayEvent :=
  fundRun.map .sys ++ [.poll, .run 0 [] .ok, .run 0 [] .ok, .run 0 [] .ok]

theorem no_journal_event_lost_published : ∃ w row, RelayRuns {} {} anyStep Relay.initial w ∧
    w.table = [row] ∧ row.status = .published ∧
    (∃ message ∈ w.published, message.outboxId = row.id) ∧ row.claimedAt = none := by
  have hplay : (runAll (Relay.step {} {}) anyStep Relay.initial relayRun).any (fun w =>
      w.table.length = 1 ∧ w.table.all fun row => row.status = .published) = true := by
    decide +kernel
  obtain ⟨w, hrun, hw⟩ := exists_of_runAll hplay
  simp only [Bool.decide_and, Bool.and_eq_true, decide_eq_true_eq, List.all_eq_true] at hw
  obtain ⟨hlength, hstatus⟩ := hw
  obtain ⟨row, hrow⟩ := List.length_eq_one_iff.mp hlength
  have hmem : row ∈ w.table := by simp [hrow]
  obtain ⟨hclaimed, hpublished⟩ := (no_journal_event_lost (by decide) hrun).2.2 row hmem
  rw [hstatus row hmem] at hclaimed hpublished
  obtain ⟨message, hmessage, hid, -⟩ := hpublished
  exact ⟨w, row, hrun, hrow, hstatus row hmem, ⟨message, hmessage, hid⟩, by simpa using hclaimed⟩

end FxExchange
