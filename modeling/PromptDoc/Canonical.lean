import PromptDoc.Json.Value

/-!
# Canonical key order

Documents with the same content are written alike: the keys of the root and
of every input stand in a fixed order, keys outside that order come last in
lexicographic order. Nothing else is moved: free records are the user's own
and keep the order they were given.
-/

namespace PromptDoc

/-- The fields of a prompt document, in the order they are written. -/
def rootOrder : List String :=
  ["version", "id", "name", "slug", "template", "inputs", "model", "controls", "enums", "labels",
    "metadata", "tests", "context", "policies", "tags", "snapshot_with_inputs", "frameworkRef"]

/-- The fields of an input, in the order they are written. -/
def inputOrder : List String :=
  ["name", "type", "required", "ref", "description", "default"]

namespace Fields

/-- Whether key `a` stands at or before key `b`: by the place in `order`, keys
outside it after all others and among themselves lexicographically. -/
def precedes (order : List String) (a b : String) : Bool :=
  let i := order.idxOf a
  let j := order.idxOf b
  decide (i < j) || (i == j && decide (a ≤ b))

/-- The fields sorted by their keys' places in `order`. -/
def inOrder (order : List String) (fs : Fields) : Fields :=
  fs.mergeSort fun a b => precedes order a.1 b.1

end Fields

namespace Json

/-- An input with its keys in order; anything but an object is left alone. -/
def canonicalInput : Json → Json
  | .obj fs => .obj (Fields.inOrder inputOrder fs)
  | v => v

/-- The inputs with the keys of each one in order; anything but an array is
left alone. -/
def canonicalInputs : Json → Json
  | .arr items => .arr (items.map canonicalInput)
  | v => v

/-- The document with the keys of its root and of its inputs in order. -/
def canonical : Json → Json
  | .obj fs => .obj (Fields.inOrder rootOrder (Fields.modify fs "inputs" canonicalInputs))
  | v => v

end Json

end PromptDoc
