/-!
# Edits

An edit is a run of lines that two texts have in common, that only the old one
has, or that only the new one has. `Edit.shortest` lists the edits between two
texts, finding a shortest script by searching from both ends and splitting the
texts where the searches meet.
-/

namespace PromptDoc.Text

/-- What an edit does with its lines. -/
inductive Edit.Kind where
  | keep
  | delete
  | insert
deriving DecidableEq, Inhabited

/-- A run of lines with one fate, and where it starts in either text. -/
structure Edit where
  kind : Edit.Kind
  oldStart : Nat
  newStart : Nat
  length : Nat
deriving DecidableEq, Inhabited

/-- Lines of a text. -/
abbrev Lines := Array (List Char)

namespace Edit

def oldEnd (e : Edit) : Nat :=
  if e.kind = .insert then e.oldStart else e.oldStart + e.length

def newEnd (e : Edit) : Nat :=
  if e.kind = .delete then e.newStart else e.newStart + e.length

/-- A part of the old text against a part of the new one. -/
structure Region where
  oldStart : Nat
  oldEnd : Nat
  newStart : Nat
  newEnd : Nat

namespace Region

def oldLength (r : Region) : Nat := r.oldEnd - r.oldStart

def newLength (r : Region) : Nat := r.newEnd - r.newStart

end Region

/-- How many lines from two places on are equal, at most `limit`. -/
def commonAhead (old new : Lines) : (limit i j : Nat) → Nat
  | 0, _, _ => 0
  | limit + 1, i, j =>
    if old[i]?.getD [] = new[j]?.getD [] then commonAhead old new limit (i + 1) (j + 1) + 1 else 0

/-- How many lines before two places are equal, at most `limit`. -/
def commonBehind (old new : Lines) : (limit i j : Nat) → Nat
  | 0, _, _ => 0
  | limit + 1, i, j =>
    if old[i - 1]?.getD [] = new[j - 1]?.getD [] then
      commonBehind old new limit (i - 1) (j - 1) + 1
    else 0

def commonStart (old new : Lines) (r : Region) : Nat :=
  commonAhead old new (min r.oldLength r.newLength) r.oldStart r.newStart

def commonEnd (old new : Lines) (r : Region) : Nat :=
  commonBehind old new (min r.oldLength r.newLength) r.oldEnd r.newEnd

/-- The furthest old line reached on each diagonal. -/
structure Reach where
  /-- The diagonal of the first entry is this far below zero. -/
  offset : Nat
  lines : Array Nat

namespace Reach

/-- Nothing reached, on the diagonals up to `n` above and below zero. -/
def empty (n : Nat) : Reach :=
  ⟨n, Array.replicate (2 * n + 1) 0⟩

/-- The line reached on a diagonal. -/
def get (v : Reach) (k : Int) : Nat :=
  v.lines[(k + v.offset).toNat]?.getD 0

/-- The reach with another line on one diagonal. -/
def set (v : Reach) (k : Int) (x : Nat) : Reach :=
  { v with lines := v.lines.setIfInBounds (k + v.offset).toNat x }

/-- The old line from which the search goes on along diagonal `k` after `d`
edits. -/
def startOn (v : Reach) (d : Nat) (k : Int) : Nat :=
  if k = -(d : Int) || (k ≠ d && v.get (k - 1) < v.get (k + 1)) then v.get (k + 1)
  else v.get (k - 1) + 1

end Reach

/-- The diagonals that `d` edits can reach, from the highest to the lowest. -/
def diagonals (d : Nat) : List Int :=
  (List.range (d + 1)).map fun (i : Nat) => (d : Int) - 2 * (i : Int)

/-- One round of the search from the start of a region. The other search has
reached `back` on its own diagonals; where the two meet, the place is given. -/
def forward (old new : Lines) (r : Region) (d : Nat) (back : Reach) :
    List Int → Reach → Reach × Option (Nat × Nat)
  | [], v => (v, none)
  | k :: ks, v =>
    let n := r.oldLength
    let delta : Int := (n : Int) - (r.newLength : Int)
    let x₀ := v.startOn d k
    let y₀ := ((x₀ : Int) - k).toNat
    let x := if x₀ < n ∧ y₀ < r.newLength then
      x₀ + commonStart old new ⟨r.oldStart + x₀, r.oldEnd, r.newStart + y₀, r.newEnd⟩ else x₀
    let v := v.set k x
    if delta % 2 ≠ 0 ∧ (k - delta).natAbs + 1 ≤ d ∧ n ≤ x + back.get (delta - k) then
      (v, some (r.oldStart + x₀, r.newStart + y₀))
    else forward old new r d back ks v

/-- One round of the search from the end of a region, which counts lines from
there. The other search has reached `ahead`. -/
def backward (old new : Lines) (r : Region) (d : Nat) (ahead : Reach) :
    List Int → Reach → Reach × Option (Nat × Nat)
  | [], v => (v, none)
  | k :: ks, v =>
    let n := r.oldLength
    let m := r.newLength
    let delta : Int := (n : Int) - (m : Int)
    let x₀ := v.startOn d k
    let y₀ := ((x₀ : Int) - k).toNat
    let common := if x₀ < n ∧ y₀ < m then
      commonEnd old new ⟨r.oldStart, r.oldStart + n - x₀, r.newStart, r.newStart + m - y₀⟩ else 0
    let v := v.set k (x₀ + common)
    if delta % 2 = 0 ∧ (k - delta).natAbs ≤ d ∧ n ≤ x₀ + common + ahead.get (delta - k) then
      (v, some (n - (x₀ + common) + r.oldStart, m - (y₀ + common) + r.newStart))
    else backward old new r d ahead ks v

/-- The place where the searches from both ends of a region meet, with at most
`fuel` rounds more after `d` edits. -/
def meeting? (old new : Lines) (r : Region) : (fuel d : Nat) → Reach → Reach → Option (Nat × Nat)
  | 0, _, _, _ => none
  | fuel + 1, d, ahead, back =>
    match forward old new r d back (diagonals d) ahead with
    | (_, some place) => some place
    | (ahead, none) =>
      match backward old new r d ahead (diagonals d) back with
      | (_, some place) => some place
      | (back, none) => meeting? old new r fuel (d + 1) ahead back

/-- An edit, unless it has no lines. -/
def unlessEmpty (e : Edit) : List Edit :=
  if e.length = 0 then [] else [e]

/-- The edits of a region: equal lines at either end are kept, and what is left
is split where the searches meet. `fuel` bounds the depth of splits. -/
def ofRegion (old new : Lines) : (fuel : Nat) → Region → List Edit
  | 0, r =>
    unlessEmpty ⟨.delete, r.oldStart, r.newStart, r.oldLength⟩ ++
      unlessEmpty ⟨.insert, r.oldStart, r.newStart, r.newLength⟩
  | fuel + 1, r =>
    let start := commonStart old new r
    let inner : Region := { r with oldStart := r.oldStart + start, newStart := r.newStart + start }
    let tail := commonEnd old new inner
    let core : Region := { inner with oldEnd := r.oldEnd - tail, newEnd := r.newEnd - tail }
    let delete : Edit := ⟨.delete, core.oldStart, core.newStart, core.oldLength⟩
    let insert : Edit := ⟨.insert, core.oldStart, core.newStart, core.newLength⟩
    let middle :=
      if core.newLength = 0 then unlessEmpty delete
      else if core.oldLength = 0 then unlessEmpty insert
      else
        let rounds := (core.oldLength + core.newLength + 1) / 2 + 1
        let nothing := Reach.empty (core.oldLength + core.newLength + 1)
        match meeting? old new core rounds 0 nothing nothing with
        | some (x, y) =>
          ofRegion old new fuel { core with oldEnd := x, newEnd := y } ++
            ofRegion old new fuel { core with oldStart := x, newStart := y }
        | none => [delete, insert]
    unlessEmpty ⟨.keep, r.oldStart, r.newStart, start⟩ ++ middle ++
      unlessEmpty ⟨.keep, core.oldEnd, core.newEnd, tail⟩

/-- The edits of a shortest script from the old lines to the new ones. -/
def shortest (old new : Lines) : List Edit :=
  ofRegion old new (old.size + new.size + 1) ⟨0, old.size, 0, new.size⟩

end Edit

end PromptDoc.Text
