import PromptDoc.Canonical
import PromptDoc.Schema.Basic
import PromptDoc.Version

/-!
# Editions of the document schema

An edition is a version number together with a strictness, and
`Edition.schema` is what it asks of a document. All editions declare the same
fields; they differ in the version tag and in what they do with other root keys.
Inputs, models and tests are strict in every edition, assertions are not.
-/

namespace PromptDoc

/-- The types that an input can have. -/
inductive InputKind where
  | string
  | number
  | boolean
  | array
  | object
deriving DecidableEq, Inhabited

namespace InputKind

def all : List InputKind :=
  [.string, .number, .boolean, .array, .object]

def name : InputKind → String
  | .string => "string"
  | .number => "number"
  | .boolean => "boolean"
  | .array => "array"
  | .object => "object"

def ofName? (s : String) : Option InputKind :=
  all.find? fun t => t.name = s

end InputKind

/-- A version number together with a strictness about unknown root keys. -/
structure Edition where
  version : Nat
  strictness : Strictness
deriving DecidableEq

namespace Edition

def ofVersion (v : Version) : Edition :=
  ⟨v.number, v.strictness⟩

def nonEmpty : Schema := .text .nonEmpty

def strings : Schema := .arrayOf (.text .any)

def free : Schema := .record [] .unspecified []

def input : Schema :=
  .record ["name", "type"] .forbidden
    [("name", nonEmpty), ("type", .oneOf (InputKind.all.map InputKind.name)),
      ("required", .boolean), ("ref", .text .any), ("description", .text .any),
      ("default", .anything)]

def model : Schema :=
  .record ["provider", "name"] .forbidden
    [("provider", nonEmpty), ("name", nonEmpty), ("params", free)]

/-- The shape of a test's assertions: unknown ones are tolerated. -/
def assertions : Schema :=
  .record [] .unspecified
    [("contains", strings), ("notContains", strings), ("maxTokens", .positiveInteger)]

def test : Schema :=
  .record ["name"] .forbidden [("name", nonEmpty), ("with", free), ("assert", assertions)]

def required : List String :=
  ["version", "id", "name", "template"]

def properties (version : Nat) : List (String × Schema) :=
  [("version", .constant version), ("id", .text .uuid), ("name", nonEmpty),
    ("slug", .text .slug), ("template", nonEmpty), ("inputs", .arrayOf input), ("model", model),
    ("controls", free), ("enums", .recordOf strings),
    ("labels", .recordOf (.recordOf (.text .any))), ("metadata", free), ("tests", .arrayOf test),
    ("context", free), ("policies", free), ("tags", strings), ("snapshot_with_inputs", .array),
    ("frameworkRef", .text .any)]

/-- Whether other root keys than the declared ones may occur. -/
def otherKeys : Strictness → OtherKeys
  | .strict => .forbidden
  | .lenient => .allowed

/-- What the edition asks of a document. -/
def schema (e : Edition) : Schema :=
  .record required (otherKeys e.strictness) (properties e.version)

/-- The violations of a document, sorted by path. -/
def violations (e : Edition) (document : Json) : List Violation :=
  e.schema.report document

def toJson (e : Edition) : Json :=
  e.schema.toJson ("PromptDslV" ++ toString e.version)

/-- The properties are the fields of a document in their written order. -/
theorem properties_keys (version : Nat) : (properties version).map Prod.fst = rootOrder := rfl

end Edition

end PromptDoc
