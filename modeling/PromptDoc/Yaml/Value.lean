import PromptDoc.Json.Value
import PromptDoc.Yaml.Reference
import PromptDoc.Yaml.Scalar

/-!
# YAML values

What a document denotes once its aliases are replaced and its scalars are
understood. Mapping keys may be any value here; two equal keys in one mapping
are an error. `Value.toJson` turns a value into JSON: keys become strings, and
what JSON has no place for is an error of its own kind.
-/

namespace PromptDoc.Yaml

/-- A YAML value. -/
inductive Value where
  | scalar (s : Scalar)
  | sequence (items : List Value)
  | mapping (entries : List (Value × Value))
  | tagged (tag : List Char) (value : Value)
deriving Inhabited

namespace Scalar

def sameKey : Scalar → Scalar → Bool
  | .null, .null => true
  | .bool a, .bool b => a == b
  | .number a, .number b => a.sameKey b
  | .text a, .text b => a == b
  | _, _ => false

/-- The value of a scalar with a global tag: the core types are enforced, all
others are text. -/
def ofTagged? (tag : List Char) (text : List Char) : Option Scalar :=
  if tag = "tag:yaml.org,2002:bool".toList then (boolWord? text).map .bool
  else if tag = "tag:yaml.org,2002:int".toList then
    match integerReading text with
    | .value n => some (.number (.int n))
    | _ => none
  else if tag = "tag:yaml.org,2002:float".toList then (float? text).map .number
  else if tag = "tag:yaml.org,2002:null".toList then
    if isNullWord text then some .null else none
  else some (.text text)

/-- The value of a scalar without a global tag. -/
def ofStyle? (plain : Bool) (text : List Char) : Option Scalar :=
  if plain then ofPlain? text else some (.text text)

end Scalar

namespace Value

mutual

/-- Equality of values as mapping keys; the order of a mapping's entries does
not count. -/
def sameKey : Value → Value → Bool
  | .scalar a, .scalar b => a.sameKey b
  | .sequence a, .sequence b => sameItems a b
  | .mapping a, .mapping b => a.length == b.length && sameEntries a b
  | .tagged s a, .tagged t b => s == t && sameKey a b
  | _, _ => false

def sameItems : List Value → List Value → Bool
  | [], [] => true
  | a :: as, b :: bs => sameKey a b && sameItems as bs
  | _, _ => false

/-- Every entry equals one of `others`. -/
def sameEntries : List (Value × Value) → List (Value × Value) → Bool
  | [], _ => true
  | (k, v) :: entries, others =>
    others.any (fun (l, w) => sameKey k l && sameKey v w) && sameEntries entries others

end

def keysDiffer : List (Value × Value) → Bool
  | [] => true
  | (k, _) :: entries => !entries.any (fun (l, _) => k.sameKey l) && keysDiffer entries

/-- The value under a tag that is private to an application; a tag has to have
a name. -/
def underLocalTag? (name : List Char) (value : Option Value) : Option Value :=
  if name.isEmpty then none else value.map (.tagged name)

/-- The nesting of collections that is understood. -/
def depthLimit : Nat := 128

/-- How often aliases may be replaced, for each mark of the document. -/
def repetitionLimit : Nat := 100

/-- What the values of a document's nodes depend on: the nodes with anchors,
last first, and how many aliases may be replaced altogether. -/
structure Scope where
  anchored : List (Nat × Node Nat)
  budget : Nat

def Scope.ofNode (root : Node Nat) : Scope :=
  ⟨root.anchored.reverse, repetitionLimit * root.marks⟩

/-- A value together with the number of aliases replaced so far. -/
abbrev Counted (α : Type) := Option (α × Nat)

/-- Computes values in turn, counting aliases. -/
def inTurn {α β : Type} (f : Nat → α → Counted β) : Nat → List α → Counted (List β)
  | n, [] => some ([], n)
  | n, a :: as =>
    match f n a with
    | none => none
    | some (b, n) => (inTurn f n as).map fun (bs, n) => (b :: bs, n)

/-- The value of an entry, its key first. -/
def ofEntry (f : Nat → Node Nat → Counted Value) (n : Nat) (entry : Node Nat × Node Nat) :
    Counted (Value × Value) :=
  match f n entry.1 with
  | none => none
  | some (key, n) => (f n entry.2).map fun (value, n) => ((key, value), n)

/-- A collection with its tag; only a local one counts. -/
def withTag? (tag : Option Tag) (value : Value) : Option Value :=
  match tag with
  | some (.localTag name) => underLocalTag? name (some value)
  | _ => some value

def ofScalar? (tag : Option Tag) (plain : Bool) (text : List Char) : Option Value :=
  match tag with
  | none => (Scalar.ofStyle? plain text).map .scalar
  | some (.localTag name) => underLocalTag? name ((Scalar.ofStyle? plain text).map .scalar)
  | some (.globalTag name) => (Scalar.ofTagged? name text).map .scalar

/-- The node that an alias stands for, counting the replacement; any other node
stands for itself. -/
def follow (scope : Scope) (n : Nat) : Node Nat → Counted (Node Nat)
  | .alias i =>
    if scope.budget < n + 1 then none
    else (scope.anchored.lookup i).map (·, n + 1)
  | node => some (node, n)

/-- The value of a node, with collections nested at most `depth` deep. -/
def ofNode? (scope : Scope) : (depth : Nat) → Nat → Node Nat → Counted Value
  | 0, n, node =>
    match follow scope n node with
    | some (.scalar p plain text, n) => (ofScalar? p.tag plain text).map (·, n)
    | _ => none
  | depth + 1, n, node =>
    match follow scope n node with
    | some (.scalar p plain text, n) => (ofScalar? p.tag plain text).map (·, n)
    | some (.sequence p items, n) =>
      match inTurn (ofNode? scope depth) n items with
      | none => none
      | some (values, n) => (withTag? p.tag (.sequence values)).map (·, n)
    | some (.mapping p entries, n) =>
      match inTurn (ofEntry (ofNode? scope depth)) n entries with
      | none => none
      | some (values, n) =>
        if keysDiffer values then (withTag? p.tag (.mapping values)).map (·, n) else none
    | _ => none

def ofRoot? (root : Node Nat) : Option Value :=
  (ofNode? (Scope.ofNode root) depthLimit 0 root).map Prod.fst

end Value

/-- Why a YAML value has no JSON form. -/
inductive NonJson where
  /-- A number that is not finite. -/
  | number (n : Number)
  /-- A sequence or a mapping as a mapping key. -/
  | collectionKey
deriving DecidableEq

def NonJson.message : NonJson → String
  | .number n => "non-finite number " ++ String.ofList n.text
  | .collectionKey => "collections cannot be used as mapping keys"

namespace Value

def numberToJson : Number → Except NonJson Json
  | .int n => .ok (.int n)
  | .float x => .ok (.float x)
  | n => .error (.number n)

def scalarToJson : Scalar → Except NonJson Json
  | .null => .ok .null
  | .bool b => .ok (.bool b)
  | .number n => numberToJson n
  | .text s => .ok (.str (String.ofList s))

def scalarKey : Scalar → List Char
  | .null => "null".toList
  | .bool true => "true".toList
  | .bool false => "false".toList
  | .number n => n.text
  | .text s => s

def keyText : Value → Except NonJson String
  | .scalar s => .ok (String.ofList (scalarKey s))
  | .tagged _ v => keyText v
  | .sequence _ | .mapping _ => .error .collectionKey

mutual

/-- The JSON form of a value. Tags are dropped; of entries whose keys become
the same string, the last value stays in the first one's place. -/
def toJson : Value → Except NonJson Json
  | .scalar s => scalarToJson s
  | .sequence items => (toJsonItems items).map .arr
  | .mapping entries => (toJsonEntries [] entries).map .obj
  | .tagged _ v => toJson v

def toJsonItems : List Value → Except NonJson (List Json)
  | [] => .ok []
  | v :: vs =>
    match toJson v with
    | .error e => .error e
    | .ok x => (toJsonItems vs).map (x :: ·)

/-- The JSON forms of entries, added to the fields of those before. -/
def toJsonEntries (fields : Fields) : List (Value × Value) → Except NonJson Fields
  | [] => .ok fields
  | (k, v) :: entries =>
    match keyText k with
    | .error e => .error e
    | .ok key =>
      match toJson v with
      | .error e => .error e
      | .ok x => toJsonEntries (fields.insert key x) entries

end

end Value

end PromptDoc.Yaml
