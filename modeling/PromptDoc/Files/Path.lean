import PromptDoc.Text.Pieces

/-!
# Paths

A `Path` is a path as it is spelled, with slashes between its names. Two
spellings name the same path when their components are equal: repeated slashes,
a slash at the end and dots inside do not count, a dot at the start does.
Paths are ordered by their components.

To follow a path in a tree, more of the spelling counts, since a slash at the
end asks for a folder; that is what `Path.steps` keeps.
-/

namespace PromptDoc

/-- A path as it is spelled. -/
structure Path where
  spelling : String
deriving DecidableEq

namespace Path

/-- A step along a path. -/
inductive Component where
  /-- Go to the root of the tree. -/
  | root
  /-- Stay in the folder reached. -/
  | here
  /-- Go to the folder above. -/
  | parent
  /-- Go to the entry of that name. -/
  | name (s : String)
deriving DecidableEq

namespace Component

def rank : Component → Nat
  | .root => 0
  | .here => 1
  | .parent => 2
  | .name _ => 3

/-- The name that decides between two components of one kind. -/
def label : Component → String
  | .name s => s
  | _ => ""

instance : LT Component :=
  ⟨fun a b => a.rank < b.rank ∨ a.rank = b.rank ∧ a.label < b.label⟩

instance : DecidableLT Component := fun a b =>
  inferInstanceAs (Decidable (a.rank < b.rank ∨ a.rank = b.rank ∧ a.label < b.label))

/-- The step that a piece between two slashes asks for; an empty piece asks
for none. -/
def ofPiece? (piece : List Char) : Option Component :=
  match piece with
  | [] => none
  | ['.'] => some .here
  | ['.', '.'] => some .parent
  | _ => some (.name (String.ofList piece))

end Component

/-- The step to the root that a slash at the start asks for. -/
def rootStep : List (List Char) → List Component
  | [] :: _ :: _ => [.root]
  | _ => []

/-- The steps that a spelling asks for, one after another. A slash at the end
asks to stay in the place reached, which has to be a folder. -/
def steps (p : Path) : List Component :=
  let parts := Text.pieces '/' p.spelling.toList
  rootStep parts ++ parts.filterMap Component.ofPiece? ++
    if 1 < parts.length ∧ parts.getLast? = some [] then [.here] else []

/-- The components of a path: its steps, where staying in place counts at the
start only. -/
def components (p : Path) : List Component :=
  let parts := Text.pieces '/' p.spelling.toList
  let onward := (parts.filterMap Component.ofPiece?).filter (· ≠ .here)
  match parts with
  | ['.'] :: _ => .here :: onward
  | _ => rootStep parts ++ onward

/-- The last component, if it is a name. -/
def name? (p : Path) : Option String :=
  match p.components.getLast? with
  | some (.name s) => some s
  | _ => none

/-- The name of the place that a path leads to; the whole spelling where it
does not end with a name. -/
def lastName (p : Path) : String :=
  p.name?.getD p.spelling

/-- What follows the last dot of a name. A dot at the start of a name does not
set off an extension. -/
def extension? (p : Path) : Option String :=
  p.name?.bind fun s =>
    let reversed := s.toList.reverse
    if 1 < (reversed.dropWhile (· ≠ '.')).length then
      some (String.ofList (reversed.takeWhile (· ≠ '.')).reverse)
    else none

/-- The path of an entry in the folder at `p`. -/
def join (p : Path) (name : String) : Path :=
  match p.spelling.toList.getLast? with
  | none => ⟨name⟩
  | some c => if c = '/' then ⟨p.spelling ++ name⟩ else ⟨p.spelling ++ "/" ++ name⟩

/-- Whether the components of `p` do not come after those of `q`. -/
def precedes (p q : Path) : Bool :=
  decide (p.components ≤ q.components)

def sameAs (p q : Path) : Bool :=
  p.components == q.components

end Path

end PromptDoc
