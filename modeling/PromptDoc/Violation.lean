/-!
# Violations

A violation says which part of a document breaks which kind of rule. Its path
is a JSON pointer; for a reader it is shown as a dotted field name.
-/

namespace PromptDoc

/-- The kind of rule that is broken. -/
inductive Violation.Kind where
  /-- A required field is absent. -/
  | missing
  /-- A value has the wrong type. -/
  | type
  /-- A string does not match a pattern. -/
  | pattern
  /-- A value is not the one, or not among those, that are allowed. -/
  | literal
  /-- A key is not declared by a strict object. -/
  | unknownKey
  /-- Any other rule. -/
  | constraint
deriving DecidableEq, Inhabited

def Violation.Kind.name : Violation.Kind → String
  | .missing => "missing"
  | .type => "type"
  | .pattern => "pattern"
  | .literal => "literal"
  | .unknownKey => "unknown_key"
  | .constraint => "constraint"

/-- A broken rule, where it is broken and in which words. -/
structure Violation where
  path : String
  kind : Violation.Kind
  message : String
deriving DecidableEq, Inhabited

namespace Violation

def field (v : Violation) : String :=
  String.ofList <|
    (v.path.toList.dropWhile (· = '/')).map fun c => if c = '/' then '.' else c

def text (v : Violation) : String :=
  let place := if v.field.isEmpty then "(root)" else v.field
  place ++ ": " ++ v.message ++ " [" ++ v.kind.name ++ "]"

end Violation

end PromptDoc
