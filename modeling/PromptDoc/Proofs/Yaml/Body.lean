import PromptDoc.Yaml.Writer

/-!
# Written text without its last line feed

The writer ends every line with a line feed. The functions here put the line
feed in front of each line instead, so the last one is missing: `body` is the
document up to there (`document_eq_body`). That is what a reader gets who cuts
the last line break off, and what the entries of a collection look like to the
scalar before them.
-/

namespace PromptDoc.Yaml.Layout

mutual

/-- What follows the colon of a key at a column, without the last line feed. -/
def behindKey (o : Layout) (column : Nat) : Json → List Char
  | .arr (x :: xs) => itemLines o (column + o.step) (x :: xs)
  | .obj (f :: fs) => fieldLines o (column + o.step) (f :: fs)
  | v => ' ' :: o.scalar column v

/-- What follows the dash at a column, without the last line feed. -/
def behindDash (o : Layout) (column : Nat) : Json → List Char
  | .arr (x :: xs) =>
    spaces (o.entryStep - 1) ++ '-' :: (behindDash o (column + o.entryStep) x ++
      itemLines o (column + o.entryStep) xs)
  | .obj ((k, v) :: fs) =>
    spaces (o.entryStep - 1) ++ (key (column + o.entryStep) k ++
      (behindKey o (column + o.entryStep) v ++ fieldLines o (column + o.entryStep) fs))
  | v => spaces (o.entryStep - 1) ++ o.scalar column v

/-- The fields of a mapping, each with the line feed before its line. -/
def fieldLines (o : Layout) (column : Nat) : List (String × Json) → List Char
  | [] => []
  | (k, v) :: fs =>
    '\n' :: (spaces column ++ (key column k ++ (behindKey o column v ++ fieldLines o column fs)))

/-- The items of a sequence, each with the line feed before its line. -/
def itemLines (o : Layout) (column : Nat) : List Json → List Char
  | [] => []
  | x :: xs => '\n' :: (spaces column ++ '-' :: (behindDash o column x ++ itemLines o column xs))

end

/-- The document without its last line feed. -/
def body (o : Layout) : Json → List Char
  | .arr (x :: xs) => '-' :: (o.behindDash 0 x ++ o.itemLines 0 xs)
  | .obj ((k, v) :: fs) => key 0 k ++ (o.behindKey 0 v ++ o.fieldLines 0 fs)
  | .str s => Quoted.text s.toList
  | v => o.scalar 0 v

/-- Values that take no block of entries. -/
def isLeaf : Json → Bool
  | .arr (_ :: _) | .obj (_ :: _) => false
  | _ => true

theorem behindKey_leaf (o : Layout) (column : Nat) {v : Json} (h : isLeaf v = true) :
    o.behindKey column v = ' ' :: o.scalar column v := by
  rw [behindKey]
  · rintro x xs rfl
    cases h
  · rintro f fs rfl
    cases h

theorem behindDash_leaf (o : Layout) (column : Nat) {v : Json} (h : isLeaf v = true) :
    o.behindDash column v = spaces (o.entryStep - 1) ++ o.scalar column v := by
  rw [behindDash]
  · rintro x xs rfl
    cases h
  · rintro k x fs rfl
    cases h

mutual

theorem afterKey_eq (o : Layout) (column : Nat) :
    ∀ v, o.afterKey column v = o.behindKey column v ++ ['\n']
  | .null => by simp [afterKey, behindKey]
  | .bool b => by simp [afterKey, behindKey]
  | .int n => by simp [afterKey, behindKey]
  | .float x => by simp [afterKey, behindKey]
  | .str s => by simp [afterKey, behindKey]
  | .arr [] => by simp [afterKey, behindKey]
  | .obj [] => by simp [afterKey, behindKey]
  | .arr (x :: xs) => by
      rw [afterKey, behindKey]
      exact items_eq o (column + o.step) (x :: xs)
  | .obj (f :: fs) => by
      rw [afterKey, behindKey]
      exact fields_eq o (column + o.step) (f :: fs)

theorem afterDash_eq (o : Layout) (column : Nat) :
    ∀ v, o.afterDash column v = o.behindDash column v ++ ['\n']
  | .null => by simp [afterDash, behindDash]
  | .bool b => by simp [afterDash, behindDash]
  | .int n => by simp [afterDash, behindDash]
  | .float x => by simp [afterDash, behindDash]
  | .str s => by simp [afterDash, behindDash]
  | .arr [] => by simp [afterDash, behindDash]
  | .obj [] => by simp [afterDash, behindDash]
  | .arr (x :: xs) => by
      have hitems := items_eq o (column + o.entryStep) xs
      rw [afterDash, behindDash, afterDash_eq o (column + o.entryStep) x]
      simp only [List.append_assoc, List.nil_append, List.cons_append, hitems]
  | .obj ((k, v) :: fs) => by
      have hfields := fields_eq o (column + o.entryStep) fs
      rw [afterDash, behindDash, afterKey_eq o (column + o.entryStep) v]
      simp only [List.append_assoc, List.singleton_append, hfields]

theorem fields_eq (o : Layout) (column : Nat) :
    ∀ fs, '\n' :: o.fields column fs = o.fieldLines column fs ++ ['\n']
  | [] => rfl
  | (k, v) :: fs => by
      have hfields := fields_eq o column fs
      rw [fields, fieldLines, afterKey_eq o column v]
      simp only [List.append_assoc, List.nil_append, List.cons_append, hfields]

theorem items_eq (o : Layout) (column : Nat) :
    ∀ xs, '\n' :: o.items column xs = o.itemLines column xs ++ ['\n']
  | [] => rfl
  | x :: xs => by
      have hitems := items_eq o column xs
      rw [items, itemLines, afterDash_eq o column x]
      simp only [List.append_assoc, List.nil_append, List.cons_append, hitems]

end

theorem document_eq_body (o : Layout) (v : Json) : o.document v = o.body v ++ ['\n'] := by
  cases v with
  | arr xs =>
      cases xs with
      | nil => rfl
      | cons x xs =>
          have hitems := items_eq o 0 xs
          rw [document, body, items, afterDash_eq]
          simp only [spaces, List.replicate_zero, List.nil_append, List.append_assoc,
            List.cons_append, hitems]
  | obj fs =>
      cases fs with
      | nil => rfl
      | cons f fs =>
          have hfields := fields_eq o 0 fs
          rw [document, body, fields, afterKey_eq]
          simp only [spaces, List.replicate_zero, List.nil_append, List.append_assoc,
            List.singleton_append, hfields]
  | _ => rfl

end PromptDoc.Yaml.Layout
