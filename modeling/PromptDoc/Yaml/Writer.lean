import PromptDoc.Json.Value
import PromptDoc.Yaml.Block
import PromptDoc.Yaml.Quoted

/-!
# Writing YAML

`Layout.write` writes a JSON value as block-style YAML text. Mappings and
sequences that are not empty take one line per entry and are indented by a
fixed step; strings take one line, a literal block or a folded block. The
functions below write what stands after a key's colon (`afterKey`), after a
sequence's dash (`afterDash`), and the entries of a collection one below the
other, each indented to its column.
-/

namespace PromptDoc.Yaml

/-- The measures of a written document. -/
structure Layout where
  /-- Columns that a nested collection is indented by; zero counts as one. -/
  indent : Nat
  /-- Width beyond which strings of words are folded. -/
  width : Nat
deriving DecidableEq

namespace Layout

/-- The layout of stored documents. -/
def stable : Layout := ⟨2, 120⟩

/-- The indentation step, at least one. -/
def step (o : Layout) : Nat :=
  max 1 o.indent

/-- The indentation of a sequence's entries: they line up after the dash and
its space. -/
def entryStep (o : Layout) : Nat :=
  max 2 o.step

/-- Keys longer than this need an explicit indicator. -/
def implicitKeyLimit : Nat := 1024

/-- A key at a column, up to and including its colon. -/
def key (column : Nat) (k : String) : List Char :=
  let t := Quoted.text k.toList
  if implicitKeyLimit < t.length then '?' :: ' ' :: (t ++ '\n' :: (spaces column ++ [':']))
  else t ++ [':']

/-- A string below an owner that starts at a column. -/
def string (o : Layout) (column : Nat) (s : List Char) : List Char :=
  if s.contains '\n' && Literal.fits s then Literal.text o.step (column + o.step) s
  else if o.width < column + s.length && Folded.fits s then
    Folded.text o.width (column + o.step) s
  else Quoted.text s

/-- A value that takes no block of entries. -/
def scalar (o : Layout) (column : Nat) : Json → List Char
  | .null => "null".toList
  | .bool true => "true".toList
  | .bool false => "false".toList
  | .int n => Json.intText n
  | .float x => x.text
  | .str s => o.string column s.toList
  | .arr _ => ['[', ']']
  | .obj _ => ['\x7b', '\x7d']

mutual

/-- What follows the colon of a key at a column, up to the end of the line
or of the nested block. -/
def afterKey (o : Layout) (column : Nat) : Json → List Char
  | .arr (x :: xs) => '\n' :: items o (column + o.step) (x :: xs)
  | .obj (f :: fs) => '\n' :: fields o (column + o.step) (f :: fs)
  | v => ' ' :: (o.scalar column v ++ ['\n'])

/-- What follows the dash at a column: a nested collection starts on the
dash's own line. -/
def afterDash (o : Layout) (column : Nat) : Json → List Char
  | .arr (x :: xs) =>
    spaces (o.entryStep - 1) ++ '-' :: (afterDash o (column + o.entryStep) x ++
      items o (column + o.entryStep) xs)
  | .obj ((k, v) :: fs) =>
    spaces (o.entryStep - 1) ++ key (column + o.entryStep) k ++
      (afterKey o (column + o.entryStep) v ++ fields o (column + o.entryStep) fs)
  | v => spaces (o.entryStep - 1) ++ o.scalar column v ++ ['\n']

/-- The fields of a mapping, each on its own line at a column. -/
def fields (o : Layout) (column : Nat) : List (String × Json) → List Char
  | [] => []
  | (k, v) :: fs => spaces column ++ key column k ++ (afterKey o column v ++ fields o column fs)

/-- The items of a sequence, each on its own line at a column. -/
def items (o : Layout) (column : Nat) : List Json → List Char
  | [] => []
  | x :: xs => spaces column ++ '-' :: (afterDash o column x ++ items o column xs)

end

/-- The document text of a value, ending in a line feed. -/
def document (o : Layout) : Json → List Char
  | .arr (x :: xs) => items o 0 (x :: xs)
  | .obj (f :: fs) => fields o 0 (f :: fs)
  | .str s => Quoted.text s.toList ++ ['\n']
  | v => o.scalar 0 v ++ ['\n']

def write (o : Layout) (v : Json) : String :=
  String.ofList (o.document v)

end Layout

end PromptDoc.Yaml
