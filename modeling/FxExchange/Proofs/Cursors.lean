import FxExchange.Model.Transactions

/-
# Cursors

A cursor is two texts, and comes back from its encoding as these two.  What is read from any
other string has only been looked at by `Date.parse`: the part behind the bar goes to Postgres
as it is.
-/

namespace FxExchange

variable {F : Formats} {v : View} {u : UserId} {q : TransactionsQuery} {cursor : String}

/-! ## What a cursor is read as -/

/-- The text that a string stands for as a cursor. -/
def cursorText (cursor : String) : List Char := (Utf8.decode (Base64.decode cursor)).toList

/-- A text is split at its first bar. -/
lemma takeWhile_dropWhile_bar {text before after : List Char} (hbar : '|' ∉ before)
    (h : text = before ++ '|' :: after) :
    text.takeWhile (· ≠ '|') = before ∧ (text.dropWhile (· ≠ '|')).drop 1 = after := by
  have hne : ∀ c ∈ before, decide (c ≠ '|') = true := by
    intro c hc
    rw [decide_eq_true_eq]
    rintro rfl
    exact hbar hc
  rw [h, List.takeWhile_append_of_pos hne, List.dropWhile_append_of_pos hne]
  simp

/-- A text that has a bar has a first one. -/
lemma exists_bar {text : List Char} (h : '|' ∈ text) :
    ∃ before after, text = before ++ '|' :: after ∧ '|' ∉ before := by
  induction text with
  | nil => simp at h
  | cons c text ih =>
    by_cases hc : c = '|'
    · exact ⟨[], text, by simp [hc], by simp⟩
    · obtain ⟨before, after, htext, hbar⟩ := ih (by simpa [Ne.symm hc] using h)
      exact ⟨c :: before, after, by simp [htext], by simp [hbar, Ne.symm hc]⟩

/-- A string with a bar in its text is refused only for what is in front of the bar, or
because there is nothing behind it. -/
lemma decodeCursor_of_bar {before after : List Char} (hbar : '|' ∉ before)
    (h : cursorText cursor = before ++ '|' :: after) :
    decodeCursor F cursor =
      if before = [] ∨ after = [] ∨ F.dateParse (String.ofList before) = none then
        .error invalidCursor
      else .ok (String.ofList before, String.ofList after) := by
  obtain ⟨htake, hdrop⟩ := takeWhile_dropWhile_bar hbar h
  have hmem : '|' ∈ cursorText cursor := by rw [h]; simp
  unfold decodeCursor
  change (if '|' ∉ cursorText cursor then _ else _) = _
  rw [if_neg (by simpa using hmem)]
  simp only [cursorText] at htake hdrop
  simp only [htake, hdrop, String.ofList_eq_empty_iff]

lemma decodeCursor_of_no_bar (h : '|' ∉ cursorText cursor) :
    decodeCursor F cursor = .error invalidCursor := if_pos h

/-! ## There and back -/

/-- Texts of a position as cursors are made for them: the first one is a date without a
bar, and neither is empty. -/
structure CursorTexts (F : Formats) (createdAt id : String) : Prop where
  createdAt_ne : createdAt ≠ ""
  bar : '|' ∉ createdAt.toList
  dateParse : F.dateParse createdAt ≠ none
  id_ne : id ≠ ""

lemma cursorText_encodeCursor (createdAt id : String) :
    cursorText (encodeCursor createdAt id) = createdAt.toList ++ '|' :: id.toList := by
  rw [cursorText, encodeCursor, Base64.decode_encode, Utf8.decode_encode, String.toList_append,
    String.toList_append, List.append_assoc]
  rfl

/-- The two texts of a cursor are read back. -/
lemma decodeCursor_encodeCursor {createdAt id : String} (h : CursorTexts F createdAt id) :
    decodeCursor F (encodeCursor createdAt id) = .ok (createdAt, id) := by
  obtain ⟨hcreatedAt, hbar, hdate, hid⟩ := h
  rw [decodeCursor_of_bar hbar (cursorText_encodeCursor createdAt id), String.ofList_toList,
    String.ofList_toList, if_neg]
  simp [hcreatedAt, hid, hdate]

lemma encodeCursor_ne (createdAt id : String) : encodeCursor createdAt id ≠ "" := by
  intro h
  have htext := cursorText_encodeCursor createdAt id
  have hmem : '|' ∈ cursorText "" := by
    rw [← h, htext]
    simp
  exact absurd hmem (by decide +kernel)

/-- The texts of a position come back from its cursor, so no two positions share one. -/
theorem cursor_round_trip (F : Formats) :
    (∀ createdAt id, CursorTexts F createdAt id →
      decodeCursor F (encodeCursor createdAt id) = .ok (createdAt, id)) ∧
    Set.InjOn (Function.uncurry encodeCursor) {texts | CursorTexts F texts.1 texts.2} := by
  refine ⟨fun createdAt id => decodeCursor_encodeCursor, ?_⟩
  rintro ⟨createdAt, id⟩ h ⟨createdAt', id'⟩ h' heq
  change encodeCursor createdAt id = encodeCursor createdAt' id' at heq
  have hread : decodeCursor F (encodeCursor createdAt id) = .ok (createdAt, id) :=
    decodeCursor_encodeCursor h
  rw [heq, decodeCursor_encodeCursor h'] at hread
  exact (Except.ok.inj hread).symm

/-! ## A request and its queries -/

lemma perform_hydratePage (ids : List String) :
    (hydratePage F ids).perform (View.answer F) v = (v, .ok (hydrate F v.rows ids)) := by
  unfold hydratePage
  split
  · rename_i hids
    subst hids
    rfl
  · rfl

lemma perform_completePage (limit : ℕ) (rows : List PageRow) :
    (completePage F limit rows).perform (View.answer F) v =
      (v, .ok (pageOf F v.rows limit rows)) := by
  unfold completePage
  rw [Prog.perform_bind, perform_hydratePage]
  rfl

lemma perform_readCursor (cursor : Option String) :
    (readCursor F cursor).perform (View.answer F) v =
      (v, ((given cursor).elim (.ok none) fun cursor => (decodeCursor F cursor).map some)) := by
  unfold readCursor
  cases given cursor with
  | none => rfl
  | some cursor =>
    simp only [Option.elim_some]
    cases decodeCursor F cursor <;> rfl

lemma perform_getRawMany (position : Option (String × String)) :
    (getRawMany u q position).perform (View.answer F) v =
      (v, (position.elim (.ok none) fun texts => (castPosition F texts).map some).map
        (pageRows F v.keys u q)) := by
  refine (Prog.perform_command (View.answer F) (HistoryQuery.getRawMany u q position) v).trans ?_
  cases position with
  | none => rfl
  | some texts =>
    simp only [Option.elim_some, View.answer]
    cases castPosition F texts <;> rfl

/-- Query by query, a request comes to the answer that the walks are about. -/
theorem perform_getTransactions :
    (TransactionsService.getTransactions F u q).perform (View.answer F) v =
      (v, getTransactions F v u q) := by
  unfold TransactionsService.getTransactions getTransactions readPosition
  rw [Prog.perform_bind, perform_readCursor]
  cases given q.cursor with
  | none =>
    simp only [Option.elim_none, Prog.perform_bind, perform_getRawMany, Except.map,
      perform_completePage]
    rfl
  | some cursor =>
    simp only [Option.elim_some]
    cases decodeCursor F cursor with
    | error e => rfl
    | ok texts =>
      simp only [Except.map, Prog.perform_bind, perform_getRawMany, Option.elim_some]
      cases hcast : castPosition F texts with
      | error e => simp [bind, Except.bind, hcast]
      | ok position =>
        simp only [perform_completePage]
        simp [bind, Except.bind, hcast]
        rfl

/-! ## What reaches the database -/

/-- The request is refused before its first query, or Postgres can cast the texts of this
query. -/
def FailsFast (F : Formats) : HistoryRequest TransactionsPage → Prop
  | .throw (.badRequest _) => True
  | .call (.getRawMany _ _ position) _ =>
    ∀ texts ∈ position, (F.timestamp texts.1).isSome ∧ (F.uuid texts.2).isSome
  | _ => False

/-- What stands in front of the first bar is refused by `Date.parse` or cast by Postgres, and
then what stands behind it is a uuid. -/
def Castable (F : Formats) (text : List Char) : Prop :=
  ∀ before after, text = before ++ '|' :: after → '|' ∉ before →
    before = [] ∨ after = [] ∨ F.dateParse (String.ofList before) = none ∨
      (F.timestamp (String.ofList before)).isSome ∧ (uuidIn after).isSome

lemma castable_of_bar {before after : List Char} (hbar : '|' ∉ before) :
    Castable F (before ++ '|' :: after) ↔
      before = [] ∨ after = [] ∨ F.dateParse (String.ofList before) = none ∨
        (F.timestamp (String.ofList before)).isSome ∧ (uuidIn after).isSome := by
  constructor
  · intro h
    exact h before after rfl hbar
  · intro h before' after' heq hbar'
    obtain ⟨htake, hdrop⟩ := takeWhile_dropWhile_bar hbar rfl
    obtain ⟨htake', hdrop'⟩ := takeWhile_dropWhile_bar hbar' heq
    obtain rfl := htake.symm.trans htake'
    obtain rfl := hdrop.symm.trans hdrop'
    exact h

lemma castable_of_no_bar {text : List Char} (h : '|' ∉ text) : Castable F text := by
  intro before after htext
  rw [htext] at h
  simp at h

lemma getTransactions_of_position {position : Option (String × String)}
    (h : readCursor F q.cursor = .pure position) :
    TransactionsService.getTransactions F u q =
      getRawMany u q position >>= completePage F q.limit := by
  rw [TransactionsService.getTransactions, h]
  rfl

lemma getTransactions_of_refused {e : Exn} (h : readCursor F q.cursor = .throw e) :
    TransactionsService.getTransactions F u q = .throw e := by
  rw [TransactionsService.getTransactions, h]
  rfl

lemma failsFast_getRawMany {position : Option (String × String)}
    {f : List PageRow → HistoryRequest TransactionsPage} :
    FailsFast F (getRawMany u q position >>= f) ↔
      ∀ texts ∈ position, (F.timestamp texts.1).isSome ∧ (F.uuid texts.2).isSome := Iff.rfl

lemma given_some (h : cursor ≠ "") : given (some cursor) = some cursor := by
  simp [given, h]

lemma readCursor_of_ok (h : cursor ≠ "") {texts : String × String}
    (hdecoded : decodeCursor F cursor = .ok texts) :
    readCursor F (some cursor) = .pure (some texts) := by
  simp only [readCursor, given_some h, hdecoded]

lemma readCursor_of_error (h : cursor ≠ "") {e : Exn}
    (hdecoded : decodeCursor F cursor = .error e) : readCursor F (some cursor) = .throw e := by
  simp only [readCursor, given_some h, hdecoded]

/-- A cursor keeps a malformed position from the database just where `Date.parse` and the
bar have told that there is one. -/
theorem fails_fast_iff (huuid : ∀ text, F.uuid text = uuidIn text.toList)
    (hcursor : q.cursor = some cursor) :
    FailsFast F (TransactionsService.getTransactions F u q) ↔ Castable F (cursorText cursor) := by
  by_cases hempty : cursor = ""
  · -- the empty string is no cursor: the query has no position
    subst hempty
    have hbar : '|' ∉ cursorText "" := by decide +kernel
    have hread : readCursor F q.cursor = .pure none := by
      rw [hcursor]
      rfl
    rw [getTransactions_of_position hread, failsFast_getRawMany]
    exact iff_of_true (by simp) (castable_of_no_bar hbar)
  · by_cases hbar : '|' ∈ cursorText cursor
    · obtain ⟨before, after, htext, hfirst⟩ := exists_bar hbar
      have hdecoded := decodeCursor_of_bar (F := F) hfirst htext
      rw [htext, castable_of_bar hfirst]
      by_cases hrefused : before = [] ∨ after = [] ∨ F.dateParse (String.ofList before) = none
      · rw [if_pos hrefused] at hdecoded
        rw [getTransactions_of_refused (hcursor ▸ readCursor_of_error hempty hdecoded)]
        exact iff_of_true trivial (hrefused.imp_right (Or.imp_right .inl))
      · rw [if_neg hrefused] at hdecoded
        rw [getTransactions_of_position (hcursor ▸ readCursor_of_ok hempty hdecoded),
          failsFast_getRawMany]
        simp only [not_or] at hrefused
        obtain ⟨hbefore, hafter, hdate⟩ := hrefused
        simp [huuid, hbefore, hafter, hdate]
    · have hdecoded := decodeCursor_of_no_bar (F := F) hbar
      rw [getTransactions_of_refused (hcursor ▸ readCursor_of_error hempty hdecoded)]
      exact iff_of_true trivial (castable_of_no_bar hbar)

/-! ## Three cursors -/

/-- The first instant of 6 June 2026, and uuids as Postgres reads them. -/
def juneSixth : Formats where
  toChar _ := "2026-06-06T00:00:00.000000"
  timestamp text := if text = "2026-06-06T00:00:00.000000" then some 1780704000000000 else none
  uuidText _ := "3f2504e0-4f89-41d3-9a0c-0305e82c3301"
  uuid text := uuidIn text.toList
  dateParse text := if text = "2026-06-06T00:00:00.000000" then some 1780704000000 else none

/-- A position may have a bar and letters outside ASCII in its id. -/
theorem cursor_round_trip_bar :
    decodeCursor juneSixth (encodeCursor "2026-06-06T00:00:00.000000" "é|2") =
      .ok ("2026-06-06T00:00:00.000000", "é|2") :=
  (cursor_round_trip juneSixth).1 _ _ ⟨by decide, by decide, by decide, by decide⟩

/-- A cursor of the service, in which the id is a uuid. -/
theorem fails_fast_iff_uuid :
    FailsFast juneSixth (TransactionsService.getTransactions juneSixth 1
      { cursor := some (encodeCursor "2026-06-06T00:00:00.000000"
          "3f2504e0-4f89-41d3-9a0c-0305e82c3301") }) := by
  have huuid (text : String) : juneSixth.uuid text = uuidIn text.toList := rfl
  rw [fails_fast_iff huuid rfl, cursorText_encodeCursor, castable_of_bar (by decide)]
  decide +kernel

/-- `x` behind the bar is nothing that Postgres can cast, and is sent to it. -/
theorem malformed_cursor_sent :
    ¬ FailsFast juneSixth (TransactionsService.getTransactions juneSixth 1
      { cursor := some "MjAyNi0wNi0wNlQwMDowMDowMC4wMDAwMDB8eA" }) := by
  have hdecoded : decodeCursor juneSixth "MjAyNi0wNi0wNlQwMDowMDowMC4wMDAwMDB8eA" =
      .ok ("2026-06-06T00:00:00.000000", "x") := by decide +kernel
  rw [getTransactions_of_position (readCursor_of_ok (by decide) hdecoded), failsFast_getRawMany]
  decide +kernel

end FxExchange
