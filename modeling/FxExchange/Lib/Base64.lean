import Mathlib.Data.List.Basic
import Mathlib.Data.List.TakeWhile
import Mathlib.Tactic.Common

/-
# base64url

Bytes as text in the URL-safe alphabet, without padding.  The reader is a lenient one, as
runtimes have it: of each UTF-16 unit it looks at the low byte only, it stops at the first
padding character, takes the plain alphabet, too, skips what is in neither, and drops a single
digit that is left over.
-/

namespace Base64

/-- The digits of base64url. -/
def alphabet : List Char :=
  "ABCDEFGHIJKLMNOPQRSTUVWXYZabcdefghijklmnopqrstuvwxyz0123456789-_".toList

/-- The character of a digit. -/
def digit (n : ℕ) : Char := alphabet.getD n 'A'

/-- What a character stands for, if it is a digit. -/
def value (c : Char) : Option ℕ :=
  if c = '+' then some 62
  else if c = '/' then some 63
  else alphabet.idxOf? c

/-- Three bytes are four digits of six bits; the last group can be shorter. -/
def sextets : List UInt8 → List ℕ
  | a :: b :: c :: rest =>
    let n := a.toNat * 65536 + b.toNat * 256 + c.toNat
    n / 262144 :: n / 4096 % 64 :: n / 64 % 64 :: n % 64 :: sextets rest
  | [a, b] =>
    let n := a.toNat * 65536 + b.toNat * 256
    [n / 262144, n / 4096 % 64, n / 64 % 64]
  | [a] =>
    let n := a.toNat * 65536
    [n / 262144, n / 4096 % 64]
  | [] => []

/-- The bytes of groups of four digits; in the last group there can be fewer. -/
def bytes : List ℕ → List UInt8
  | a :: b :: c :: d :: rest =>
    let n := a * 262144 + b * 4096 + c * 64 + d
    UInt8.ofNat (n / 65536) :: UInt8.ofNat (n / 256) :: UInt8.ofNat n :: bytes rest
  | [a, b, c] =>
    let n := a * 262144 + b * 4096 + c * 64
    [UInt8.ofNat (n / 65536), UInt8.ofNat (n / 256)]
  | [a, b] => [UInt8.ofNat ((a * 262144 + b * 4096) / 65536)]
  | _ => []

/-- The text of some bytes. -/
def encode (bs : List UInt8) : String := String.ofList ((sextets bs).map digit)

/-- The UTF-16 units of a character: one, or a pair of surrogates. -/
def units (c : Char) : List ℕ :=
  if c.toNat < 0x10000 then [c.toNat]
  else [0xD800 + (c.toNat - 0x10000) / 0x400, 0xDC00 + (c.toNat - 0x10000) % 0x400]

/-- The low bytes of the units of a text. -/
def lowBytes (s : String) : List Char :=
  s.toList.flatMap fun c => (units c).map fun n => Char.ofNat (n % 0x100)

/-- The bytes that are read from a text. -/
def decode (s : String) : List UInt8 :=
  bytes (((lowBytes s).takeWhile fun c => c ≠ '=').filterMap value)

/-- The digits are told apart. -/
lemma value_digit {n : ℕ} (h : n < 64) : value (digit n) = some n := by
  revert n
  decide +kernel

/-- A digit is one byte. -/
lemma low_digit {n : ℕ} (h : n < 64) :
    ((units (digit n)).map fun n => Char.ofNat (n % 0x100)) = [digit n] := by
  revert n
  decide +kernel

lemma digit_ne {n : ℕ} (h : n < 64) : digit n ≠ '=' := by
  revert n
  decide +kernel

lemma sextets_lt {bs : List UInt8} {n : ℕ} (h : n ∈ sextets bs) : n < 64 := by
  induction bs using sextets.induct with
  | case1 a b c rest ih =>
    have ha := a.toNat_lt
    have hb := b.toNat_lt
    have hc := c.toNat_lt
    simp only [sextets, List.mem_cons] at h
    rcases h with rfl | rfl | rfl | rfl | h
    · omega
    · omega
    · omega
    · omega
    · exact ih h
  | case2 a b =>
    have ha := a.toNat_lt
    have hb := b.toNat_lt
    simp only [sextets, List.mem_cons, List.not_mem_nil, or_false] at h
    omega
  | case3 a =>
    have ha := a.toNat_lt
    simp only [sextets, List.mem_cons, List.not_mem_nil, or_false] at h
    omega
  | case4 => cases h

lemma ofNat_eq {a : UInt8} {n : ℕ} (h : n % 256 = a.toNat) : UInt8.ofNat n = a := by
  refine UInt8.toNat_inj.mp ?_
  rw [UInt8.toNat_ofNat']
  exact h

lemma bytes_sextets (bs : List UInt8) : bytes (sextets bs) = bs := by
  induction bs using sextets.induct with
  | case1 a b c rest ih =>
    have ha := a.toNat_lt
    have hb := b.toNat_lt
    have hc := c.toNat_lt
    rw [sextets, bytes, ih, ofNat_eq (a := a), ofNat_eq (a := b), ofNat_eq (a := c)] <;> omega
  | case2 a b =>
    have ha := a.toNat_lt
    have hb := b.toNat_lt
    rw [sextets, bytes, ofNat_eq (a := a), ofNat_eq (a := b)] <;> omega
  | case3 a =>
    have ha := a.toNat_lt
    rw [sextets, bytes, ofNat_eq (a := a)]
    omega
  | case4 => rfl

lemma lowBytes_encode (bs : List UInt8) : lowBytes (encode bs) = (sextets bs).map digit := by
  rw [lowBytes, encode, String.toList_ofList, List.flatMap_map]
  have hone : ∀ n ∈ sextets bs,
      ((units (digit n)).map fun n => Char.ofNat (n % 0x100)) = [digit n] :=
    fun n hn => low_digit (sextets_lt hn)
  rw [List.flatMap_congr hone]
  exact List.flatMap_pure_eq_map digit _

/-- No digit stops the reader. -/
lemma takeWhile_digits {ns : List ℕ} (h : ∀ n ∈ ns, n < 64) :
    ((ns.map digit).takeWhile fun c => c ≠ '=') = ns.map digit := by
  rw [List.takeWhile_eq_self_iff]
  intro c hc
  obtain ⟨n, hn, rfl⟩ := List.mem_map.mp hc
  exact decide_eq_true (digit_ne (h n hn))

lemma values_digits {ns : List ℕ} (h : ∀ n ∈ ns, n < 64) :
    (ns.map digit).filterMap value = ns := by
  induction ns with
  | nil => rfl
  | cons n ns ih =>
    rw [List.map_cons, List.filterMap_cons_some (value_digit (h n List.mem_cons_self)),
      ih fun m hm => h m (List.mem_cons_of_mem _ hm)]

/-- What is written is read back. -/
theorem decode_encode (bs : List UInt8) : decode (encode bs) = bs := by
  have hdigit (n : ℕ) (hn : n ∈ sextets bs) : n < 64 := sextets_lt hn
  rw [decode, lowBytes_encode, takeWhile_digits hdigit, values_digits hdigit, bytes_sextets]

end Base64
