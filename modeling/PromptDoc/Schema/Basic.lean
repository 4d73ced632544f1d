import PromptDoc.Json.Pointer
import PromptDoc.Schema.Rule

/-!
# Schemas

A schema describes the shape of a JSON value. `Schema.violations` lists every
way in which a value departs from it; an empty list means that the value is
accepted. `Schema.toJson` is the schema as a document of its own.
-/

namespace PromptDoc

/-- What an object says about keys that are not among its properties. -/
inductive OtherKeys where
  /-- Nothing: they are allowed. -/
  | unspecified
  /-- They are allowed. -/
  | allowed
  /-- They are violations. -/
  | forbidden
deriving DecidableEq

/-- The shape of a value. -/
inductive Schema where
  /-- Any value. -/
  | anything
  /-- The number itself. -/
  | constant (n : Nat)
  /-- One of some strings. -/
  | oneOf (options : List String)
  | boolean
  /-- A string under a rule. -/
  | text (rule : TextRule)
  /-- An integer above zero, or a double that is one. -/
  | positiveInteger
  /-- An array of anything. -/
  | array
  /-- An array whose items all have one shape. -/
  | arrayOf (items : Schema)
  /-- An object with fields that have to be there, a policy for other keys and
  the shapes of its fields. -/
  | record (required : List String) (others : OtherKeys) (properties : List (String × Schema))
  /-- An object whose fields all have one shape. -/
  | recordOf (values : Schema)

/-- A place in the document under inspection: the tokens that lead to it. -/
abbrev Place := List String

namespace Schema

/-- Text without the quotes at its ends. -/
def trimQuotes (s : String) : String :=
  let s := s.toList.dropWhile (· = '"')
  String.ofList (s.reverse.dropWhile (· = '"')).reverse

def broken (place : Place) (kind : Violation.Kind) (message : String) : Violation :=
  ⟨Pointer.render place, kind, message⟩

def wrongType (place : Place) (v : Json) (type : String) : Violation :=
  broken place .type (v.compact ++ " is not of type \"" ++ type ++ "\"")

def missing (place : Place) (field : String) : Violation :=
  ⟨Pointer.render place ++ "/" ++ field, .missing, "required field is missing"⟩

/-- The violation of an object with a key that is not declared. The key stands
in the path as it is, without quotes at its ends. -/
def unknown (place : Place) (key : String) : Violation :=
  let key := trimQuotes key
  ⟨Pointer.render place ++ "/" ++ key, .unknownKey, "unrecognized key '" ++ key ++ "'"⟩

def missingFields (place : Place) (required : List String) (fields : Fields) : List Violation :=
  (required.filter fun name => !fields.has name).map (missing place)

/-- The violations of keys outside `names`, where these are the only ones. -/
def unknownKeys (place : Place) (others : OtherKeys) (names : List String) (fields : Fields) :
    List Violation :=
  match others with
  | .forbidden => (fields.keys.filter fun key => !names.contains key).map (unknown place)
  | _ => []

/-- The violations of a value that may only be one of some strings. -/
def optionViolations (place : Place) (options : List String) (v : Json) : List Violation :=
  if options.any fun option => v = .str option then []
  else [broken place .literal
    (v.compact ++ " is not one of " ++ (Json.arr (options.map .str)).compact)]

def textViolations (place : Place) (rule : TextRule) : Json → List Violation
  | .str s =>
    if rule.accepts s then [] else
      let (kind, message) := rule.violation s
      [broken place kind message]
  | v => [wrongType place v "string"]

def positiveIntegerViolations (place : Place) (v : Json) : List Violation :=
  (if v.isInteger then [] else [wrongType place v "integer"]) ++
    if v.isPositiveOrOther then []
    else [broken place .constraint (v.compact ++ " is less than or equal to the minimum of 0")]

mutual

/-- Every way in which the value at a place departs from the schema. -/
def violations (place : Place) : Schema → Json → List Violation
  | .anything, _ => []
  | .constant n, v =>
    if v.isNumber n then [] else [broken place .literal (toString n ++ " was expected")]
  | .oneOf options, v => optionViolations place options v
  | .boolean, .bool _ => []
  | .boolean, v => [wrongType place v "boolean"]
  | .text rule, v => textViolations place rule v
  | .positiveInteger, v => positiveIntegerViolations place v
  | .array, .arr _ => []
  | .array, v => [wrongType place v "array"]
  | .arrayOf items, .arr values =>
    values.zipIdx.flatMap fun (v, i) => violations (place ++ [toString i]) items v
  | .arrayOf _, v => [wrongType place v "array"]
  | .record required others properties, .obj fields =>
    missingFields place required fields ++ propertyViolations place fields properties ++
      unknownKeys place others (properties.map Prod.fst) fields
  | .record _ _ _, v => [wrongType place v "object"]
  | .recordOf values, .obj fields =>
    fields.flatMap fun (key, v) => violations (place ++ [key]) values v
  | .recordOf _, v => [wrongType place v "object"]

def propertyViolations (place : Place) (fields : Fields) : List (String × Schema) → List Violation
  | [] => []
  | (name, schema) :: rest =>
    (match fields.get? name with
      | some v => violations (place ++ [name]) schema v
      | none => []) ++ propertyViolations place fields rest

end

/-- The violations of a document, sorted by path. -/
def report (schema : Schema) (document : Json) : List Violation :=
  (violations [] schema document).mergeSort fun a b => decide (a.path ≤ b.path)

def typeField (name : String) : String × Json :=
  ("type", .str name)

def ruleFields : TextRule → Fields
  | .any => []
  | .nonEmpty => [("minLength", .int 1)]
  | rule => rule.pattern?.toList.map fun pattern => ("pattern", .str pattern)

def otherKeysFields : OtherKeys → Fields
  | .unspecified => []
  | .allowed => [("additionalProperties", .bool true)]
  | .forbidden => [("additionalProperties", .bool false)]

/-- The field that lists the required fields, if there are any. -/
def requiredFields : List String → Fields
  | [] => []
  | names => [("required", .arr (names.map .str))]

mutual

def toFields : Schema → Fields
  | .anything => []
  | .constant n => [("const", .int n)]
  | .oneOf options => [("enum", .arr (options.map .str))]
  | .boolean => [typeField "boolean"]
  | .text rule => typeField "string" :: ruleFields rule
  | .positiveInteger => [typeField "integer", ("exclusiveMinimum", .int 0)]
  | .array => [typeField "array"]
  | .arrayOf items => [typeField "array", ("items", .obj (toFields items))]
  | .record required others properties =>
    typeField "object" :: (requiredFields required ++ otherKeysFields others ++
      match propertyFields properties with
      | [] => []
      | fields => [("properties", .obj fields)])
  | .recordOf values => [typeField "object", ("additionalProperties", .obj (toFields values))]

def propertyFields : List (String × Schema) → Fields
  | [] => []
  | (name, schema) :: rest => (name, .obj (toFields schema)) :: propertyFields rest

end

def toJson (title : String) (schema : Schema) : Json :=
  .obj (("$schema", .str "http://json-schema.org/draft-07/schema#") :: ("title", .str title) ::
    schema.toFields)

end Schema

end PromptDoc
