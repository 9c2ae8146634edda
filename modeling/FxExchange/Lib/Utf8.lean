import Mathlib.Tactic.Common

/-
# UTF-8 with replacement

The bytes of a text, and the decoder of the web platform that reads any bytes: what does not
belong to a well-formed sequence becomes a replacement character, one for each longest part
of a sequence that is broken off.
-/

namespace Utf8

/-- The bytes of a text. -/
def encode (s : String) : List UInt8 := s.toList.flatMap String.utf8EncodeChar

/-- A sequence that has begun: how many bytes are still to come, the value so far, and the
range of the next byte. -/
structure Lead where
  needed : ℕ
  value : ℕ
  lower : ℕ := 0x80
  upper : ℕ := 0xBF

/-- What a byte at the beginning of a sequence is. -/
inductive First
  | ascii (value : ℕ)
  | lead (l : Lead)
  | invalid

/-- What the first byte of a character says about it. -/
def first (b : ℕ) : First :=
  if b < 0x80 then .ascii b
  else if 0xC2 ≤ b ∧ b ≤ 0xDF then .lead { needed := 1, value := b - 0xC0 }
  else if 0xE0 ≤ b ∧ b ≤ 0xEF then
    .lead { needed := 2, value := b - 0xE0
            lower := if b = 0xE0 then 0xA0 else 0x80
            upper := if b = 0xED then 0x9F else 0xBF }
  else if 0xF0 ≤ b ∧ b ≤ 0xF4 then
    .lead { needed := 3, value := b - 0xF0
            lower := if b = 0xF0 then 0x90 else 0x80
            upper := if b = 0xF4 then 0x8F else 0xBF }
  else .invalid

/-- The characters of the bytes, in the middle of a sequence or not. -/
def chars : Option Lead → List UInt8 → List Char
  | none, [] => []
  | some _, [] => ['\uFFFD']
  | none, b :: bs =>
    match first b.toNat with
    | .ascii v => Char.ofNat v :: chars none bs
    | .lead l => chars (some l) bs
    | .invalid => '\uFFFD' :: chars none bs
  | some l, b :: bs =>
    if l.lower ≤ b.toNat ∧ b.toNat ≤ l.upper then
      if l.needed = 1 then Char.ofNat (l.value * 64 + (b.toNat - 0x80)) :: chars none bs
      else chars
        (some { needed := l.needed - 1, value := l.value * 64 + (b.toNat - 0x80) }) bs
    else
      -- the sequence is broken off, and the byte begins the next one
      '\uFFFD' :: match first b.toNat with
        | .ascii v => Char.ofNat v :: chars none bs
        | .lead l => chars (some l) bs
        | .invalid => '\uFFFD' :: chars none bs

/-- The text of the bytes, with a replacement character for each sequence that is not one. -/
def decode (bs : List UInt8) : String := String.ofList (chars none bs)

lemma toNat_ofNat {n : ℕ} (h : n < 256) : (UInt8.ofNat n).toNat = n := by
  rw [UInt8.toNat_ofNat']
  exact Nat.mod_eq_of_lt h

/-- A continuation byte that is in range, and not the last one. -/
lemma chars_next {m v lower upper n : ℕ} {bs : List UInt8} (h : lower ≤ n ∧ n ≤ upper)
    (hn : n < 256) : chars (some ⟨m + 2, v, lower, upper⟩) (UInt8.ofNat n :: bs) =
      chars (some { needed := m + 1, value := v * 64 + (n - 0x80) }) bs := by
  rw [chars, toNat_ofNat hn, if_pos h, if_neg (Nat.succ_succ_ne_one m)]
  rfl

lemma chars_last {v lower upper n : ℕ} {bs : List UInt8} (h : lower ≤ n ∧ n ≤ upper)
    (hn : n < 256) : chars (some ⟨1, v, lower, upper⟩) (UInt8.ofNat n :: bs) =
      Char.ofNat (v * 64 + (n - 0x80)) :: chars none bs := by
  rw [chars, toNat_ofNat hn, if_pos h, if_pos rfl]

lemma chars_lead {n : ℕ} {l : Lead} {bs : List UInt8} (hn : n < 256) (h : first n = .lead l) :
    chars none (UInt8.ofNat n :: bs) = chars (some l) bs := by
  rw [chars, toNat_ofNat hn, h]

/-- A character is neither a surrogate nor too large. -/
lemma toNat_valid (c : Char) : c.toNat < 0xD800 ∨ 0xDFFF < c.toNat ∧ c.toNat < 0x110000 :=
  c.valid

/-! The first bytes of the longer sequences. -/

lemma first_two {x : ℕ} (h : 2 ≤ x) (h' : x < 32) :
    first (x + 0xC0) = .lead { needed := 1, value := x } := by
  rw [first, if_neg (by omega), if_pos (by omega), Nat.add_sub_cancel]

lemma first_three {x : ℕ} (h : x < 16) :
    first (x + 0xE0) = .lead { needed := 2, value := x, lower := if x = 0 then 0xA0 else 0x80
                               upper := if x = 13 then 0x9F else 0xBF } := by
  rw [first, if_neg (by omega), if_neg (by omega), if_pos (by omega), Nat.add_sub_cancel]
  simp

lemma first_four {x : ℕ} (h : x < 5) :
    first (x + 0xF0) = .lead { needed := 3, value := x, lower := if x = 0 then 0x90 else 0x80
                               upper := if x = 4 then 0x8F else 0xBF } := by
  rw [first, if_neg (by omega), if_neg (by omega), if_neg (by omega), if_pos (by omega),
    Nat.add_sub_cancel]
  simp

/-- The bytes of a character are read as that character. -/
lemma chars_append (c : Char) (bs : List UInt8) :
    chars none (String.utf8EncodeChar c ++ bs) = c :: chars none bs := by
  have hvalid := toNat_valid c
  have hchar {v : ℕ} (h : v = c.toNat) : Char.ofNat v = c := by rw [h, Char.ofNat_toNat]
  have hval : c.val.toNat = c.toNat := rfl
  unfold String.utf8EncodeChar
  rw [hval]
  generalize c.toNat = v at hvalid hchar ⊢
  dsimp only
  split_ifs with hone htwo hthree
  · rw [List.singleton_append, chars, toNat_ofNat (by omega)]
    simp only [first, if_pos (show v < 0x80 by omega)]
    rw [hchar rfl]
  · simp only [List.cons_append, List.nil_append]
    rw [Nat.mod_eq_of_lt (by omega : v / 64 < 32),
      chars_lead (by omega) (first_two (by omega) (by omega)),
      chars_last (by omega) (by omega), hchar (by omega)]
  · simp only [List.cons_append, List.nil_append]
    rw [Nat.mod_eq_of_lt (by omega : v / 4096 < 16),
      chars_lead (by omega) (first_three (by omega)),
      chars_next (by split_ifs <;> omega) (by omega), chars_last (by omega) (by omega),
      hchar (by omega)]
  · simp only [List.cons_append, List.nil_append]
    rw [Nat.mod_eq_of_lt (by omega : v / 262144 < 8),
      chars_lead (by omega) (first_four (by omega)),
      chars_next (by split_ifs <;> omega) (by omega), chars_next (by omega) (by omega),
      chars_last (by omega) (by omega), hchar (by omega)]

/-- What is written is read back. -/
theorem decode_encode (s : String) : decode (encode s) = s := by
  have hchars (cs : List Char) : chars none (cs.flatMap String.utf8EncodeChar) = cs := by
    induction cs with
    | nil => rfl
    | cons c cs ih => rw [List.flatMap_cons, chars_append, ih]
  rw [decode, encode, hchars, String.ofList_toList]

/-- Different texts have different bytes. -/
lemma encode_injective : Function.Injective encode :=
  Function.LeftInverse.injective decode_encode

lemma length_encode_le (s : String) : (encode s).length ≤ 4 * s.toList.length := by
  rw [encode]
  induction s.toList with
  | nil => exact Nat.le_refl 0
  | cons c cs ih =>
    have hfour : (String.utf8EncodeChar c).length ≤ 4 := by
      rw [String.length_utf8EncodeChar]
      exact c.utf8Size_le_four
    rw [List.flatMap_cons, List.length_append, List.length_cons]
    omega

end Utf8
