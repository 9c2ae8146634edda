import FxExchange.Lib.Keyset
import FxExchange.Model.Transactions
import FxExchange.Proofs.Atomicity
import FxExchange.Proofs.Cursors
import Mathlib.Data.Prod.Lex

/-
# Walking the history

A caller that follows the cursors sees each matching journal once, the newest first, however
many journals are committed meanwhile.  The order of the pages is a keyset, and a cursor is the
position at which its page has ended, taken through two texts and back.
-/

namespace FxExchange

open OrderDual Transition

variable {F : Formats} {u : UserId} {q : TransactionsQuery}

/-! ## Cursors -/

/-- The texts of a position are read back. -/
structure Formats.Exact (F : Formats) (createdAt : ℕ) (id : Uuid) : Prop where
  timestamp : F.timestamp (F.toChar createdAt) = some createdAt
  uuid : F.uuid (F.uuidText id) = some id
  dateParse : F.dateParse (F.toChar createdAt) ≠ none
  bar : '|' ∉ (F.toChar createdAt).toList
  toChar_ne : F.toChar createdAt ≠ ""
  uuidText_ne : F.uuidText id ≠ ""

lemma Formats.Exact.texts {createdAt : ℕ} {id : Uuid} (h : F.Exact createdAt id) :
    CursorTexts F (F.toChar createdAt) (F.uuidText id) :=
  ⟨h.toChar_ne, h.bar, h.dateParse, h.uuidText_ne⟩

/-! ## Positions -/

/-- Where a journal stands in the history. -/
def JournalEntry.position (j : JournalEntry) : (ℕ ×ₗ ℕ)ᵒᵈ := toDual (toLex (j.createdAt, j.id))

lemma JournalEntry.newer_iff {a b : JournalEntry} : a.Newer b ↔ a.position ≤ b.position := by
  rw [position, position, toDual_le_toDual, Prod.Lex.toLex_le_toLex]
  rfl

lemma JournalEntry.lt_position_iff {j : JournalEntry} {p : (ℕ ×ₗ ℕ)ᵒᵈ} :
    p < j.position ↔ j.createdAt < (ofLex (ofDual p)).1 ∨
      j.createdAt = (ofLex (ofDual p)).1 ∧ j.id < (ofLex (ofDual p)).2 := by
  show toLex (j.createdAt, j.id) < ofDual p ↔ _
  rw [Prod.Lex.lt_iff]
  rfl

/-- The cursor that stands for a position. -/
def cursorOf (F : Formats) (p : (ℕ ×ₗ ℕ)ᵒᵈ) : String :=
  encodeCursor (F.toChar (ofLex (ofDual p)).1) (F.uuidText (ofLex (ofDual p)).2)

/-- The journals that a query is about. -/
def matching (u : UserId) (q : TransactionsQuery) (js : List JournalEntry) :
    List JournalEntry := js.filter fun j => j.userId = u ∧ q.selects j

lemma mem_matching {js : List JournalEntry} {j : JournalEntry} :
    j ∈ matching u q js ↔ j ∈ js ∧ j.userId = u ∧ q.selects j := by
  simp [matching]

/-- The rows of a page are those of the journals that come next. -/
lemma pageRows_eq {js : List JournalEntry} {position : Option (ℕ ×ₗ ℕ)ᵒᵈ} :
    pageRows F js u q (position.map fun p => ofLex (ofDual p)) =
      ((Keyset.rest JournalEntry.position position (matching u q js)).take (q.limit + 1)).map
        (JournalEntry.pageRow F) := by
  have hfilter : (js.filter fun j => j.userId = u ∧
      (∀ p ∈ position.map fun p => ofLex (ofDual p), j.createdAt < p.1 ∨
        j.createdAt = p.1 ∧ j.id < p.2) ∧ q.selects j) =
      (matching u q js).filter fun j => ∀ k ∈ position, k < j.position := by
    rw [matching, List.filter_filter]
    refine List.filter_congr fun j _ => ?_
    rw [← Bool.decide_and, decide_eq_decide]
    simp only [JournalEntry.lt_position_iff, Option.mem_def, Option.map_eq_some_iff,
      forall_exists_index, and_imp, forall_apply_eq_imp_iff₂]
    tauto
  have hsort : JournalEntry.Newer = fun a b => a.position ≤ b.position := by
    funext a b
    exact propext JournalEntry.newer_iff
  unfold pageRows Keyset.rest
  rw [hfilter]
  simp only [hsort]

/-! ## One page -/

/-- The journals of a page are found again by their ids, in the order of the page. -/
lemma hydrate_eq {rows js : List JournalEntry} (hsub : js ⊆ rows)
    (hids : (rows.map JournalEntry.id).Nodup)
    (hexact : ∀ j ∈ rows, F.Exact j.createdAt j.id) :
    hydrate F rows (js.map fun j => F.uuidText j.id) = js := by
  have hfind (j : JournalEntry) (hj : j ∈ js) :
      ((rows.filter fun j' => F.uuidText j'.id ∈ js.map fun j => F.uuidText j.id).find?
        fun j' => F.uuidText j'.id = F.uuidText j.id) = some j := by
    have hmem : j ∈ rows.filter fun j' =>
        decide (F.uuidText j'.id ∈ js.map fun j => F.uuidText j.id) :=
      List.mem_filter.mpr ⟨hsub hj, by
        simpa using ⟨j, hj, rfl⟩⟩
    cases hfound : (rows.filter fun j' => F.uuidText j'.id ∈
        js.map fun j => F.uuidText j.id).find? fun j' => F.uuidText j'.id = F.uuidText j.id with
    | none => exact absurd (List.find?_eq_none.mp hfound j hmem) (by simp)
    | some j' =>
      have htext : F.uuidText j'.id = F.uuidText j.id := by simpa using List.find?_some hfound
      have hj' : j' ∈ rows := (List.mem_filter.mp (List.mem_of_find?_eq_some hfound)).1
      have hid : j'.id = j.id := by
        have huuid := (hexact j' hj').uuid
        rw [htext, (hexact j (hsub hj)).uuid] at huuid
        exact (Option.some.inj huuid).symm
      rw [List.inj_on_of_nodup_map hids hj' (hsub hj) hid]
  unfold hydrate
  rw [List.filterMap_map]
  calc _ = js.filterMap some := List.filterMap_congr fun j hj => hfind j hj
    _ = js := List.filterMap_some

/-- What a request meets: the journals that its first query sees are there for its second. -/
structure View.Sound (F : Formats) (v : View) : Prop where
  keys : (v.keys.map JournalEntry.id).Nodup
  rows : (v.rows.map JournalEntry.id).Nodup
  within : v.keys ⊆ v.rows
  exact : ∀ j ∈ v.rows, F.Exact j.createdAt j.id

lemma positions_nodup {js : List JournalEntry} (h : (js.map JournalEntry.id).Nodup) :
    ((matching u q js).map JournalEntry.position).Nodup := by
  have hids : ((matching u q js).map JournalEntry.id).Nodup :=
    h.sublist (List.filter_sublist.map _)
  refine List.Nodup.of_map (fun p => (ofLex (ofDual p)).2) ?_
  rw [List.map_map]
  exact hids

/-- The position that a request reads from its cursor. -/
lemma readPosition_cursorOf {position : Option (ℕ ×ₗ ℕ)ᵒᵈ}
    (h : ∀ p ∈ position, F.Exact (ofLex (ofDual p)).1 (ofLex (ofDual p)).2) :
    readPosition F (position.map (cursorOf F)) =
      .ok (position.map fun p => ofLex (ofDual p)) := by
  cases position with
  | none => rfl
  | some p =>
    have hexact := h p rfl
    have hgiven : given (some (cursorOf F p)) = some (cursorOf F p) := by
      simp [given, cursorOf, encodeCursor_ne]
    have hdecoded := decodeCursor_encodeCursor hexact.texts
    unfold readPosition
    rw [Option.map_some, hgiven]
    show (decodeCursor F (cursorOf F p) >>= _) = _
    rw [cursorOf, hdecoded]
    show (castPosition F _ >>= _) = _
    simp only [castPosition, hexact.timestamp, hexact.uuid]
    rfl

/-- The answer to a request, from the journals that come next. -/
lemma pageOf_eq {rows js : List JournalEntry} {n : ℕ} (hn : 1 ≤ n) (hsub : js ⊆ rows)
    (hids : (rows.map JournalEntry.id).Nodup) (hexact : ∀ j ∈ rows, F.Exact j.createdAt j.id) :
    pageOf F rows n ((js.take (n + 1)).map (JournalEntry.pageRow F)) =
      { items := js.take n
        nextCursor := (if n < js.length then (js.take n).getLast?.map JournalEntry.position
          else none).map (cursorOf F)
        hasNextPage := (if n < js.length then (js.take n).getLast?.map JournalEntry.position
          else none).isSome } := by
  have hitems : hydrate F rows (((js.take n).map (JournalEntry.pageRow F)).map PageRow.id) =
      js.take n := by
    rw [List.map_map]
    exact hydrate_eq (fun j hj => hsub (List.mem_of_mem_take hj)) hids hexact
  have hlength : (js.take (n + 1)).length = min (n + 1) js.length := List.length_take
  unfold pageOf
  rw [List.length_map, hlength]
  by_cases hlt : n < js.length
  · have hmore : n < min (n + 1) js.length := by omega
    have hne : js.take n ≠ [] := by
      rw [Ne, List.take_eq_nil_iff]
      rintro (hzero | rfl)
      · omega
      · exact absurd hlt (Nat.not_lt_zero n)
    simp only [hmore, hlt, decide_true, if_true]
    rw [← List.map_take, List.take_take, min_eq_left (Nat.le_succ n), hitems,
      TransactionsPage.mk.injEq, List.getLast?_map]
    refine ⟨rfl, ?_, ?_⟩
    · cases (js.take n).getLast? <;> rfl
    · rw [Option.isSome_map, eq_comm, List.getLast?_isSome]
      exact hne
  · have hall : js.take (n + 1) = js.take n := by
      rw [List.take_of_length_le (by omega), List.take_of_length_le (by omega)]
    have hmore : ¬ n < min (n + 1) js.length := by omega
    simp only [hmore, hlt, decide_false, if_false, hall, Bool.false_eq_true, hitems]
    rfl

/-- A request for the page after a position. -/
lemma getTransactions_eq {v : View} (hv : v.Sound F) (hlimit : 1 ≤ q.limit)
    {position : Option (ℕ ×ₗ ℕ)ᵒᵈ}
    (hposition : ∀ p ∈ position, F.Exact (ofLex (ofDual p)).1 (ofLex (ofDual p)).2) :
    getTransactions F v u { q with cursor := position.map (cursorOf F) } = .ok
      { items := Keyset.page JournalEntry.position q.limit position (matching u q v.keys)
        nextCursor := (Keyset.next JournalEntry.position q.limit position
          (matching u q v.keys)).map (cursorOf F)
        hasNextPage := (Keyset.next JournalEntry.position q.limit position
          (matching u q v.keys)).isSome } := by
  have hsub : Keyset.rest JournalEntry.position position (matching u q v.keys) ⊆ v.rows :=
    fun j hj => hv.within (mem_matching.mp (Keyset.mem_rest.mp hj).1).1
  have hrows : pageRows F v.keys u { q with cursor := position.map (cursorOf F) }
      (position.map fun p => ofLex (ofDual p)) = _ := pageRows_eq (q := q)
  unfold getTransactions
  rw [readPosition_cursorOf hposition]
  show Except.ok (pageOf F v.rows q.limit (pageRows F v.keys u _ _)) = _
  rw [hrows, pageOf_eq hlimit hsub hv.rows hv.exact]
  rfl

/-! ## The walk -/

/-- The views of the requests of a caller, one after the other, while journals are added. -/
structure Growing (F : Formats) (views : List View) : Prop where
  sound : ∀ v ∈ views, v.Sound F
  grow : views.Pairwise fun v v' => v.rows ⊆ v'.keys

lemma Growing.keys {views : List View} (h : Growing F views) :
    (∀ js ∈ views.map fun v => matching u q v.keys, (js.map JournalEntry.position).Nodup) ∧
      (views.map fun v => matching u q v.keys).Pairwise (· ⊆ ·) := by
  constructor
  · intro js hjs
    obtain ⟨v, hv, rfl⟩ := List.mem_map.mp hjs
    exact positions_nodup (h.sound v hv).keys
  · have hkeys : views.Pairwise fun v v' => v.keys ⊆ v'.keys :=
      h.grow.imp_of_mem fun hv _ hsub => List.Subset.trans (h.sound _ hv).within hsub
    refine List.pairwise_map.mpr (hkeys.imp fun hsub j hj => ?_)
    obtain ⟨hmem, hmatch⟩ := mem_matching.mp hj
    exact mem_matching.mpr ⟨hsub hmem, hmatch⟩

/-- No journal is taken back. -/
lemma journals_mono {cfg : Config} {s s' : Sys} (h : Reachable cfg s)
    (hrun : Runs cfg anyStep s s') : s.db.journals ⊆ s'.db.journals := by
  intro j hj
  rw [(history_of_reachable h).journals, List.mem_flatMap] at hj
  obtain ⟨c, hc, hj⟩ := hj
  rw [(history_of_reachable (h.trans hrun)).journals, List.mem_flatMap]
  exact ⟨c, commits_mono hrun hc, hj⟩

lemma journal_ids_nodup {cfg : Config} {s : Sys} (h : Reachable cfg s) :
    (s.db.journals.map JournalEntry.id).Nodup := by
  obtain ⟨pairs, hjournals, -, hnodup, -⟩ := exists_pairs h
  rw [hjournals, List.map_map]
  exact hnodup

/-- The requests of a caller while the system runs: the states that the two queries of each
of them meet. -/
theorem growing_of_runs {cfg : Config} {states : List (Sys × Sys)}
    (hreach : ∀ p ∈ states, Reachable cfg p.1 ∧ Runs cfg anyStep p.1 p.2)
    (horder : states.Pairwise fun p p' => Runs cfg anyStep p.2 p'.1)
    (hexact : ∀ p ∈ states, ∀ j ∈ p.2.db.journals, F.Exact j.createdAt j.id) :
    Growing F (states.map fun p => ⟨p.1.db.journals, p.2.db.journals⟩) := by
  constructor
  · intro v hv
    obtain ⟨p, hp, rfl⟩ := List.mem_map.mp hv
    obtain ⟨hfirst, hsecond⟩ := hreach p hp
    exact ⟨journal_ids_nodup hfirst, journal_ids_nodup (hfirst.trans hsecond),
      journals_mono hfirst hsecond, hexact p hp⟩
  · refine List.pairwise_map.mpr (horder.imp_of_mem fun hp hp' hrun => ?_)
    obtain ⟨hfirst, hsecond⟩ := hreach _ hp
    exact journals_mono (hfirst.trans hsecond) hrun

/-- The walk of the caller is the walk of the keyset. -/
lemma walkTransactions_eq {views : List View} (h : Growing F views) (hlimit : 1 ≤ q.limit)
    (position : Option (ℕ ×ₗ ℕ)ᵒᵈ)
    (hposition : ∀ p ∈ position, F.Exact (ofLex (ofDual p)).1 (ofLex (ofDual p)).2) :
    ∃ pages, walkTransactions F u q views (position.map (cursorOf F)) = .ok (pages,
        (Keyset.walk JournalEntry.position q.limit position
          (views.map fun v => matching u q v.keys)).2) ∧
      pages.map TransactionsPage.items = (Keyset.walk JournalEntry.position q.limit position
          (views.map fun v => matching u q v.keys)).1 ∧
      ∀ page ∈ pages, page.hasNextPage = page.nextCursor.isSome := by
  induction views generalizing position with
  | nil => exact ⟨[], rfl, rfl, fun page hpage => by cases hpage⟩
  | cons v views ih =>
    have hv := h.sound v List.mem_cons_self
    have hrest : Growing F views :=
      ⟨fun v' hv' => h.sound v' (List.mem_cons_of_mem _ hv'), (List.pairwise_cons.mp h.grow).2⟩
    unfold walkTransactions
    rw [getTransactions_eq hv hlimit hposition, List.map_cons, Keyset.walk]
    cases hnext : Keyset.next JournalEntry.position q.limit position (matching u q v.keys) with
    | none =>
      refine ⟨[_], rfl, rfl, fun page hpage => ?_⟩
      rw [List.mem_singleton.mp hpage]
      rfl
    | some p =>
      -- the next position is that of a journal of this page
      obtain ⟨j, hj, rfl, -⟩ := Keyset.next_eq_some (positions_nodup hv.keys) hnext
      have hmem := (mem_matching.mp (Keyset.mem_of_mem_page hj).1).1
      have hexact := hv.exact j (hv.within hmem)
      obtain ⟨pages, hpages, hitems, hnextPage⟩ := ih hrest (some j.position) (by
        rintro p hp
        obtain rfl := Option.some.inj hp
        exact hexact)
      refine ⟨⟨Keyset.page JournalEntry.position q.limit position (matching u q v.keys),
        some (cursorOf F j.position), true⟩ :: pages, ?_, ?_, fun page hpage => ?_⟩
      · show (walkTransactions F u q views (some (cursorOf F j.position)) >>= _) = _
        rw [Option.map_some] at hpages
        rw [hpages]
        rfl
      · rw [List.map_cons, hitems]
      · rcases List.mem_cons.mp hpage with rfl | hpage
        · rfl
        · exact hnextPage page hpage

/-- A walk during which no journals of the user are added reads those that match in the order
of the history, to the end. -/
lemma exists_walk {views : List View} (h : Growing F views) (hlimit : 1 ≤ q.limit)
    {js : List JournalEntry} (hkeys : ∀ v ∈ views, v.keys.filter (fun j => j.userId = u) = js)
    (hlength : js.length < views.length) :
    ∃ pages, walkTransactions F u q views none = .ok (pages, true) ∧
      pages.flatMap TransactionsPage.items = (js.filter q.selects).insertionSort
        JournalEntry.Newer := by
  have hmatching {v : View} (hv : v ∈ views) : matching u q v.keys = js.filter q.selects := by
    rw [← hkeys v hv, List.filter_filter, matching]
    exact List.filter_congr fun j _ => by simp [Bool.and_comm]
  obtain ⟨v₀, hv₀⟩ := List.exists_mem_of_length_pos (Nat.zero_lt_of_lt hlength)
  obtain ⟨hnodup, hsubset⟩ := h.keys (u := u) (q := q)
  have hnd : ((js.filter q.selects).map JournalEntry.position).Nodup := by
    rw [← hmatching hv₀]
    exact positions_nodup (h.sound v₀ hv₀).keys
  have hrest : Keyset.rest JournalEntry.position none (js.filter q.selects) =
      (js.filter q.selects).insertionSort JournalEntry.Newer := by
    have hsort : JournalEntry.Newer = fun a b => a.position ≤ b.position := by
      funext a b
      exact propext JournalEntry.newer_iff
    simp [Keyset.rest, hsort]
  obtain ⟨pages, hpages, hitems, -⟩ := walkTransactions_eq (u := u) h hlimit none (by simp)
  have hdone : (Keyset.walk JournalEntry.position q.limit none
      (views.map fun v => matching u q v.keys)).2 = true := by
    refine Keyset.walk_ends hnodup hnd (fun xs hxs => ?_) ?_
    · obtain ⟨v, hv, rfl⟩ := List.mem_map.mp hxs
      rw [hmatching hv]
      exact List.Subset.refl _
    · rw [List.length_map, hrest, List.length_insertionSort]
      exact lt_of_le_of_lt (List.length_filter_le _ _) hlength
  refine ⟨pages, by rw [← hdone]; exact hpages, ?_⟩
  rw [List.flatMap_def, hitems, ← hrest]
  refine Keyset.flatten_walk_of_forall_eq hlimit hnd (fun ys hys => ?_) hdone
  obtain ⟨v, hv, rfl⟩ := List.mem_map.mp hys
  exact hmatching hv

/-- What a caller has seen that has followed the cursors through the views. -/
structure Walked (u : UserId) (q : TransactionsQuery) (views : List View)
    (pages : List TransactionsPage) (done : Bool) : Prop where
  /-- The newest first, so no journal comes twice. -/
  ordered : (pages.flatMap TransactionsPage.items).Pairwise fun j j' =>
    j'.createdAt < j.createdAt ∨ j'.createdAt = j.createdAt ∧ j'.id < j.id
  /-- Only journals that match, with all of their legs. -/
  sound : ∀ j ∈ pages.flatMap TransactionsPage.items,
    (∃ v ∈ views, j ∈ v.keys) ∧ j.userId = u ∧ q.selects j
  /-- At the end, all that were there at the beginning. -/
  complete : done = true → ∀ v ∈ views.head?, ∀ j ∈ v.keys, j.userId = u → q.selects j →
    j ∈ pages.flatMap TransactionsPage.items
  full : ∀ page ∈ pages.dropLast, page.items.length = q.limit
  hasNextPage : ∀ page ∈ pages, page.hasNextPage = page.nextCursor.isSome

/-- The pages that a caller gets by following the cursors. -/
lemma exists_walked {views : List View} (h : Growing F views) (hlimit : 1 ≤ q.limit) :
    ∃ pages done, walkTransactions F u q views none = .ok (pages, done) ∧
      Walked u q views pages done := by
  obtain ⟨pages, hpages, hitems, hnextPage⟩ :=
    walkTransactions_eq (u := u) h hlimit none (by simp)
  obtain ⟨hnodup, hsubset⟩ := h.keys (u := u) (q := q)
  have hflat : pages.flatMap TransactionsPage.items = (Keyset.walk JournalEntry.position q.limit
      none (views.map fun v => matching u q v.keys)).1.flatten := by rw [List.flatMap_def, hitems]
  refine ⟨pages, _, hpages, ?_, fun j hj => ?_, fun hdone v hv j hj hu hselects => ?_,
    fun page hpage => ?_, hnextPage⟩
  · rw [hflat]
    exact (Keyset.pairwise_walk hnodup).imp JournalEntry.lt_position_iff.mp
  · rw [hflat] at hj
    obtain ⟨⟨js, hjs, hmem⟩, -⟩ := Keyset.of_mem_walk hnodup hj
    obtain ⟨v, hv, rfl⟩ := List.mem_map.mp hjs
    obtain ⟨hmem, hmatch⟩ := mem_matching.mp hmem
    exact ⟨⟨v, hv, hmem⟩, hmatch⟩
  · rw [hflat]
    cases views with
    | nil => cases hv
    | cons v' views =>
      obtain rfl := Option.some.inj hv
      refine Keyset.mem_walk hlimit hnodup hsubset hdone (Keyset.mem_rest.mpr ⟨?_, by simp⟩)
      exact mem_matching.mpr ⟨hj, hu, hselects⟩
  · have hfull := (Keyset.length_of_mem_walk hnodup (n := q.limit) (c := none)).1
    rw [← hitems, ← List.map_dropLast] at hfull
    exact hfull _ (List.mem_map_of_mem hpage)

/-- Where no journals are added the walk comes to its end. -/
lemma walk_done {views : List View} (h : Growing F views) (hlimit : 1 ≤ q.limit)
    {js : List JournalEntry} (hids : (js.map JournalEntry.id).Nodup)
    (hkeys : ∀ v ∈ views, ∀ j, j ∈ v.keys ↔ j ∈ js) (hlength : js.length < views.length)
    {pages : List TransactionsPage} {done : Bool}
    (hwalk : walkTransactions F u q views none = .ok (pages, done)) : done = true := by
  obtain ⟨pages', hpages, -, -⟩ := walkTransactions_eq (u := u) h hlimit none (by simp)
  obtain ⟨-, rfl⟩ := Prod.mk.inj (Except.ok.inj (hwalk.symm.trans hpages))
  obtain ⟨hnodup, hsubset⟩ := h.keys (u := u) (q := q)
  refine Keyset.walk_ends hnodup (positions_nodup (u := u) (q := q) hids) (fun xs hxs => ?_) ?_
  · obtain ⟨v, hv, rfl⟩ := List.mem_map.mp hxs
    intro j hj
    obtain ⟨hmem, hmatch⟩ := mem_matching.mp hj
    exact mem_matching.mpr ⟨(hkeys v hv j).mp hmem, hmatch⟩
  · rw [List.length_map]
    refine lt_of_le_of_lt ?_ hlength
    calc (Keyset.rest JournalEntry.position none (matching u q js)).length
        ≤ (matching u q js).length := by
          rw [Keyset.rest, List.length_insertionSort]
          exact List.length_filter_le _ _
      _ ≤ js.length := List.length_filter_le _ _

/-- Such a walk has come across exactly the journals that match. -/
lemma Walked.mem_iff {views : List View} {pages : List TransactionsPage}
    (h : Walked u q views pages true) {js : List JournalEntry}
    (hkeys : ∀ v ∈ views, ∀ j, j ∈ v.keys ↔ j ∈ js) (hviews : views ≠ []) (j : JournalEntry) :
    j ∈ pages.flatMap TransactionsPage.items ↔ j ∈ js ∧ j.userId = u ∧ q.selects j := by
  constructor
  · intro hj
    obtain ⟨⟨v, hv, hmem⟩, hmatch⟩ := h.sound j hj
    exact ⟨(hkeys v hv j).mp hmem, hmatch⟩
  · rintro ⟨hmem, hu, hselects⟩
    cases views with
    | nil => exact absurd rfl hviews
    | cons v views =>
      exact h.complete rfl v rfl j ((hkeys v List.mem_cons_self j).mpr hmem) hu hselects

/-- The pages that a caller gets by following the cursors have each matching journal once,
newest first.  Where no journals are added the walk comes to an end, with exactly the
journals that match. -/
theorem history_walk {views : List View} (h : Growing F views) (hlimit : 1 ≤ q.limit) :
    ∃ pages done, walkTransactions F u q views none = .ok (pages, done) ∧
      Walked u q views pages done ∧
      ∀ js : List JournalEntry, (js.map JournalEntry.id).Nodup →
        (∀ v ∈ views, ∀ j, j ∈ v.keys ↔ j ∈ js) → js.length < views.length →
        done = true ∧ ∀ j, j ∈ pages.flatMap TransactionsPage.items ↔
          j ∈ js ∧ j.userId = u ∧ q.selects j := by
  obtain ⟨pages, done, hpages, hwalked⟩ := exists_walked (u := u) h hlimit
  refine ⟨pages, done, hpages, hwalked, fun js hids hkeys hlength => ?_⟩
  obtain rfl := walk_done h hlimit hids hkeys hlength hpages
  have hviews : views ≠ [] := List.ne_nil_of_length_pos (Nat.zero_lt_of_lt hlength)
  exact ⟨rfl, hwalked.mem_iff hkeys hviews⟩

/-! ## Two instants -/

/-- The texts of the first two microseconds of 2025, and of uuids with one digit. -/
def newYear : Formats where
  toChar t :=
    if t = 1735689600000000 then "2025-01-01T00:00:00.000000"
    else if t = 1735689600000001 then "2025-01-01T00:00:00.000001"
    else ""
  timestamp text :=
    if text = "2025-01-01T00:00:00.000000" then some 1735689600000000
    else if text = "2025-01-01T00:00:00.000001" then some 1735689600000001
    else none
  uuidText id := "00000000-0000-4000-8000-00000000000" ++ toString id
  uuid text := (List.range 10).find? fun id =>
    "00000000-0000-4000-8000-00000000000" ++ toString id = text
  dateParse text :=
    if text = "2025-01-01T00:00:00.000000" ∨ text = "2025-01-01T00:00:00.000001" then
      some 1735689600000
    else none

/-- A journal of user 1, without legs. -/
def bareJournal (id createdAt : ℕ) : JournalEntry :=
  { walletId := .user 1, userId := 1, purpose := .funding, status := .success
    idempotencyKey := toString id, exchangeRate := none, id, createdAt, entries := [] }

/-- Three journals, two of them of one instant. -/
def threeJournals : List JournalEntry :=
  [bareJournal 1 1735689600000000, bareJournal 2 1735689600000001,
    bareJournal 3 1735689600000000]

/-- The three are read one by one; the second query finds them in the other order. -/
theorem history_walk_three : ∃ pages, walkTransactions newYear 1 { limit := 1 }
    (List.replicate 4 ⟨threeJournals, threeJournals.reverse⟩) none = .ok (pages, true) ∧
      bareJournal 3 1735689600000000 ∈ pages.flatMap TransactionsPage.items := by
  have hexact : ∀ j ∈ threeJournals.reverse, newYear.Exact j.createdAt j.id := by
    have hall : newYear.Exact 1735689600000000 3 ∧ newYear.Exact 1735689600000001 2 ∧
        newYear.Exact 1735689600000000 1 := by
      refine ⟨?_, ?_, ?_⟩ <;> constructor <;> decide +kernel
    simpa [threeJournals, bareJournal] using hall
  have hgrowing : Growing newYear (List.replicate 4 ⟨threeJournals, threeJournals.reverse⟩) := by
    constructor
    · intro v hv
      rw [List.eq_of_mem_replicate hv]
      exact ⟨by decide, by decide, by decide, hexact⟩
    · exact List.pairwise_replicate.mpr (Or.inr (by decide))
  obtain ⟨pages, done, hwalk, -, hstatic⟩ :=
    history_walk (u := 1) (q := { limit := 1 }) hgrowing le_rfl
  obtain ⟨rfl, hitems⟩ := hstatic threeJournals (by decide)
    (fun v hv j => by rw [List.eq_of_mem_replicate hv]) (by decide)
  exact ⟨pages, hwalk, (hitems _).mpr ⟨by decide, rfl, by decide⟩⟩

end FxExchange
