import Mathlib.Data.List.Basic
import Mathlib.Tactic.Positivity
import Mathlib.Tactic.SplitIfs

/-!
# The order of texts is the order of their bytes

`bytes` are the bytes of a text in UTF-8. Character by character, the encoding is a
leading byte, which grows with the character, and the other digits of the
character to the base 64; so texts are ordered as their bytes are
(`bytes_lt_bytes`).
-/

namespace PromptDoc.Text

/-- The bytes of a text in UTF-8. -/
def bytes (s : String) : List UInt8 :=
  s.toUTF8.data.toList

theorem bytes_eq (s : String) : bytes s = s.toList.flatMap String.utf8EncodeChar := by
  conv_lhs => rw [← String.ofList_toList (s := s)]
  rw [bytes, String.toUTF8, String.toByteArray_ofList, List.utf8Encode, List.data_toByteArray,
    List.toList_toArray]

/-- How many bytes follow the first one. -/
def trailing (n : Nat) : Nat :=
  if n ≤ 0x7F then 0 else if n ≤ 0x7FF then 1 else if n ≤ 0xFFFF then 2 else 3

/-- The first byte of a character. -/
def leadingByte (n : Nat) : Nat :=
  if n ≤ 0x7F then n
  else if n ≤ 0x7FF then n / 64 + 0xC0
  else if n ≤ 0xFFFF then n / 64 ^ 2 + 0xE0
  else n / 64 ^ 3 + 0xF0

/-- The last digits of a number to the base 64, as bytes of a character. -/
def trailingBytes (n : Nat) : Nat → List UInt8
  | 0 => []
  | k + 1 => UInt8.ofNat (n / 64 ^ k % 64 + 0x80) :: trailingBytes n k

theorem toNat_lt (c : Char) : c.toNat < 0x110000 := by
  have := c.valid
  simp only [UInt32.isValidChar, Nat.isValidChar] at this
  simp only [Char.toNat]
  omega

theorem utf8EncodeChar_eq (c : Char) :
    String.utf8EncodeChar c =
      UInt8.ofNat (leadingByte c.toNat) :: trailingBytes c.toNat (trailing c.toNat) := by
  have hlt := toNat_lt c
  simp only [String.utf8EncodeChar, leadingByte, trailing, Char.toNat_val]
  split_ifs
  · simp [trailingBytes]
  · have hfirst : c.toNat / 64 % 32 = c.toNat / 64 := by omega
    simp [trailingBytes, hfirst]
  · have hfirst : c.toNat / 4096 % 16 = c.toNat / 4096 := by omega
    simp [trailingBytes, hfirst]
  · have hfirst : c.toNat / 262144 % 8 = c.toNat / 262144 := by omega
    simp [trailingBytes, hfirst]

theorem ofNat_cons_lt {m n : Nat} {s t : List UInt8} (hn : n < 256)
    (h : m < n ∨ m = n ∧ s < t) : UInt8.ofNat m :: s < UInt8.ofNat n :: t := by
  rw [List.cons_lt_cons_iff, UInt8.lt_iff_toNat_lt, UInt8.toNat_ofNat', UInt8.toNat_ofNat']
  rcases h with h | ⟨rfl, h⟩
  · left
    omega
  · exact .inr ⟨rfl, h⟩

theorem trailingBytes_append_lt {m n k : Nat} (s t : List UInt8)
    (h : m % 64 ^ k < n % 64 ^ k) : trailingBytes m k ++ s < trailingBytes n k ++ t := by
  induction k with
  | zero => simp [Nat.mod_one] at h
  | succ k ih =>
    rw [pow_succ, Nat.mod_mul, Nat.mod_mul] at h
    refine ofNat_cons_lt (by omega) ?_
    rcases Nat.lt_trichotomy (m / 64 ^ k % 64) (n / 64 ^ k % 64) with hdigit | hdigit | hdigit
    · left
      omega
    · rw [hdigit] at h ⊢
      exact .inr ⟨rfl, ih (by omega)⟩
    · have hstep := Nat.mul_le_mul_left (64 ^ k) hdigit
      have hrest : n % 64 ^ k < 64 ^ k := Nat.mod_lt _ (by positivity)
      rw [Nat.mul_succ] at hstep
      omega

/-- Of two characters in order, the first byte decides, or where it is the same, so is
the number of the others, and they do. -/
theorem leadingByte_lt_or {m n : Nat} (h : m < n) (hn : n < 0x110000) :
    leadingByte m < leadingByte n ∨
      leadingByte m = leadingByte n ∧ trailing m = trailing n ∧
        m % 64 ^ trailing n < n % 64 ^ trailing n := by
  unfold leadingByte trailing
  split_ifs <;> omega

theorem leadingByte_lt {n : Nat} (hn : n < 0x110000) : leadingByte n < 256 := by
  unfold leadingByte
  split_ifs <;> omega

theorem utf8EncodeChar_append_lt {c d : Char} (h : c < d) (s t : List UInt8) :
    String.utf8EncodeChar c ++ s < String.utf8EncodeChar d ++ t := by
  rw [utf8EncodeChar_eq, utf8EncodeChar_eq]
  refine ofNat_cons_lt (leadingByte_lt (toNat_lt d)) ?_
  have hlt : c.toNat < d.toNat := h
  rcases leadingByte_lt_or hlt (toNat_lt d) with hlead | ⟨hlead, hcount, hrest⟩
  · exact .inl hlead
  · rw [hcount]
    exact .inr ⟨hlead, trailingBytes_append_lt s t hrest⟩

theorem flatMap_utf8EncodeChar_lt {a b : List Char} (h : a < b) :
    a.flatMap String.utf8EncodeChar < b.flatMap String.utf8EncodeChar := by
  induction a generalizing b with
  | nil =>
    cases b with
    | nil => exact absurd h (List.lt_irrefl _)
    | cons d b =>
      rw [List.flatMap_cons, utf8EncodeChar_eq]
      exact List.nil_lt_cons _ _
  | cons c a ih =>
    cases b with
    | nil => exact absurd h (List.not_lt_nil _)
    | cons d b =>
      rw [List.flatMap_cons, List.flatMap_cons]
      rcases List.cons_lt_cons_iff.1 h with hchar | ⟨rfl, hrest⟩
      · exact utf8EncodeChar_append_lt hchar _ _
      · exact List.append_left_lt (ih hrest)

/-- Texts are ordered as their bytes are. -/
theorem bytes_lt_bytes {a b : String} (h : a < b) : bytes a < bytes b := by
  rw [bytes_eq, bytes_eq]
  exact flatMap_utf8EncodeChar_lt (String.lt_iff.1 h)

end PromptDoc.Text
