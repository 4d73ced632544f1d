import PromptDoc.Proofs.Yaml.Number
import PromptDoc.Yaml.Value
import PromptDoc.Yaml.Writer

/-!
# What the reader can read at all

The limits within which written text is read back. They lie with the reader: it
gives up on nesting beyond `Value.depthLimit`, takes a key for one only within
1024 bytes or behind an indicator of its own, and refuses the two codes without
a character. A double has to survive its own decimal text.
-/

namespace PromptDoc.Yaml

/-- Whether the lexer can read a key with its colon: on one line within the
limit of bytes, or with an indicator of its own. -/
def KeyFits (k : String) : Prop :=
  byteCount (Quoted.text k.toList) ≤ Token.keyByteLimit ∨
    Layout.implicitKeyLimit < (Quoted.text k.toList).length

instance (k : String) : Decidable (KeyFits k) :=
  inferInstanceAs (Decidable (_ ∨ _))

mutual

/-- Every key fits, every double reads back, and no string has a code that is
no character. -/
def Legible : Json → Prop
  | .float x => x.ReadsBack
  | .str s => '\ufffe' ∉ s.toList ∧ '\uffff' ∉ s.toList
  | .arr items => LegibleItems items
  | .obj fields => LegibleFields fields
  | _ => True

/-- All items are legible. -/
def LegibleItems : List Json → Prop
  | [] => True
  | x :: xs => Legible x ∧ LegibleItems xs

/-- All keys fit and all field values are legible. -/
def LegibleFields : List (String × Json) → Prop
  | [] => True
  | (k, x) :: fs => KeyFits k ∧ Legible x ∧ LegibleFields fs

end

mutual

/-- Decides whether a value is legible. -/
def decLegible : (v : Json) → Decidable (Legible v)
  | .float x => inferInstanceAs (Decidable x.ReadsBack)
  | .str s => inferInstanceAs (Decidable ('\ufffe' ∉ s.toList ∧ '\uffff' ∉ s.toList))
  | .arr items => decLegibleItems items
  | .obj fields => decLegibleFields fields
  | .null | .bool _ | .int _ => isTrue trivial

/-- Decides whether all items are legible. -/
def decLegibleItems : (xs : List Json) → Decidable (LegibleItems xs)
  | [] => isTrue trivial
  | x :: xs =>
    have := decLegible x
    have := decLegibleItems xs
    inferInstanceAs (Decidable (Legible x ∧ LegibleItems xs))

/-- Decides whether all fields are legible. -/
def decLegibleFields : (fs : List (String × Json)) → Decidable (LegibleFields fs)
  | [] => isTrue trivial
  | (k, x) :: fs =>
    have := decLegible x
    have := decLegibleFields fs
    inferInstanceAs (Decidable (KeyFits k ∧ Legible x ∧ LegibleFields fs))

end

instance (v : Json) : Decidable (Legible v) := decLegible v

mutual

/-- How deep collections are nested; a scalar has none. -/
def depth : Json → Nat
  | .arr items => depthItems items + 1
  | .obj fields => depthFields fields + 1
  | _ => 0

/-- The depth of the deepest item. -/
def depthItems : List Json → Nat
  | [] => 0
  | x :: xs => max (depth x) (depthItems xs)

/-- The depth of the deepest field value. -/
def depthFields : List (String × Json) → Nat
  | [] => 0
  | (_, x) :: fs => max (depth x) (depthFields fs)

end

/-- A value within the limits of the reader. -/
structure WithinLimits (v : Json) : Prop where
  depth_le : depth v ≤ Value.depthLimit
  legible : Legible v

instance (v : Json) : Decidable (WithinLimits v) :=
  decidable_of_iff (depth v ≤ Value.depthLimit ∧ Legible v)
    ⟨fun h => ⟨h.1, h.2⟩, fun h => ⟨h.depth_le, h.legible⟩⟩

mutual

/-- The strings of a value, keys left out. -/
def strings : Json → List String
  | .str s => [s]
  | .arr items => stringsItems items
  | .obj fields => stringsFields fields
  | _ => []

/-- The strings of items. -/
def stringsItems : List Json → List String
  | [] => []
  | x :: xs => strings x ++ stringsItems xs

/-- The strings of field values. -/
def stringsFields : List (String × Json) → List String
  | [] => []
  | (_, x) :: fs => strings x ++ stringsFields fs

end

mutual

theorem legible_of_mem_strings {s : String} :
    ∀ v : Json, Legible v → s ∈ strings v → Legible (.str s)
  | .str t, h, hs => by
      rw [List.mem_singleton.1 hs]
      exact h
  | .arr xs, h, hs => legible_of_mem_stringsItems xs h hs
  | .obj fs, h, hs => legible_of_mem_stringsFields fs h hs
  | .null, _, hs | .bool _, _, hs | .int _, _, hs | .float _, _, hs => nomatch hs

theorem legible_of_mem_stringsItems {s : String} :
    ∀ xs : List Json, LegibleItems xs → s ∈ stringsItems xs → Legible (.str s)
  | x :: xs, h, hs => by
      rcases List.mem_append.1 hs with hs | hs
      · exact legible_of_mem_strings x h.1 hs
      · exact legible_of_mem_stringsItems xs h.2 hs

theorem legible_of_mem_stringsFields {s : String} :
    ∀ fs : List (String × Json), LegibleFields fs → s ∈ stringsFields fs → Legible (.str s)
  | (_, x) :: fs, h, hs => by
      rcases List.mem_append.1 hs with hs | hs
      · exact legible_of_mem_strings x h.2.1 hs
      · exact legible_of_mem_stringsFields fs h.2.2 hs

end

theorem legibleItems_iff {xs : List Json} : LegibleItems xs ↔ ∀ x ∈ xs, Legible x := by
  induction xs with
  | nil => simp [LegibleItems]
  | cons x xs ih => simp [LegibleItems, ih]

theorem legibleFields_iff {fs : List (String × Json)} :
    LegibleFields fs ↔ ∀ f ∈ fs, KeyFits f.1 ∧ Legible f.2 := by
  induction fs with
  | nil => simp [LegibleFields]
  | cons f fs ih => simp [LegibleFields, ih, and_assoc]

theorem depthItems_le_iff {xs : List Json} {n : Nat} :
    depthItems xs ≤ n ↔ ∀ x ∈ xs, depth x ≤ n := by
  induction xs with
  | nil => simp [depthItems]
  | cons x xs ih =>
      rw [depthItems, Nat.max_le, ih]
      simp

theorem depthFields_le_iff {fs : List (String × Json)} {n : Nat} :
    depthFields fs ≤ n ↔ ∀ f ∈ fs, depth f.2 ≤ n := by
  induction fs with
  | nil => simp [depthFields]
  | cons f fs ih =>
      obtain ⟨k, x⟩ := f
      rw [depthFields, Nat.max_le, ih]
      simp

end PromptDoc.Yaml
