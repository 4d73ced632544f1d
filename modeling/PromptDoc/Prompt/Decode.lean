import PromptDoc.Decimal.Notation
import PromptDoc.Prompt.Basic

/-!
# Prompts from documents

`Prompt.ofFields` gives the prompt in the root fields of a document. Fields
that are not declared do not count. A document that its edition accepts has
the right shape; what the schema cannot say is which numbers fit: the version
has to be written as an integer, and the bound of a test's tokens has to fit 64
bits.
-/

namespace PromptDoc

/-- Why the fields of a document make no prompt. -/
inductive DecodeError where
  /-- The version is written as a double. -/
  | doubleVersion (x : Binary64)
  /-- A bound for tokens is no integer of 64 bits. -/
  | tokenBound (n : Json)
  /-- A field is absent or has the wrong type. -/
  | shape
deriving DecidableEq

def DecodeError.message : DecodeError → String
  | .doubleVersion x =>
    "invalid type: floating point \x60" ++ String.ofList x.positional ++ "\x60, expected u32"
  | .tokenBound n => "maxTokens " ++ n.compact ++ " is not a representable integer"
  | .shape => "unexpected shape"

namespace Json

def asText? : Json → Option String
  | .str s => some s
  | _ => none

def asBool? : Json → Option Bool
  | .bool b => some b
  | _ => none

def asTexts? (v : Json) : Option (List String) :=
  v.items?.bind fun items => items.mapM asText?

/-- The natural number of at most 64 bits that a number denotes. -/
def asCount? : Json → Option Nat
  | .int n => if Width.fitsUnsigned n then some n.toNat else none
  | .float x =>
    x.toInt?.bind fun n => if Width.fitsUnsigned n then some n.toNat else none
  | _ => none

def asNamed? {α : Type} (decode : Json → Option α) (v : Json) : Option (List (String × α)) :=
  v.fields?.bind fun fields => fields.mapM fun (name, v) => (decode v).map (name, ·)

end Json

namespace Fields

/-- The value of a field that has to be there. -/
def require? {α : Type} (fields : Fields) (name : String) (decode : Json → Option α) : Option α :=
  (fields.get? name).bind decode

/-- The value of a field that may be absent; none when it is there and has the
wrong type. -/
def allow? {α : Type} (fields : Fields) (name : String) (decode : Json → Option α) :
    Option (Option α) :=
  match fields.get? name with
  | none => some none
  | some v => (decode v).map some

end Fields

namespace Input

def ofJson? (v : Json) : Option Input := do
  let fields ← v.fields?
  let name ← fields.require? "name" Json.asText?
  let type ← fields.require? "type" fun v => v.asText?.bind InputKind.ofName?
  let required ← fields.allow? "required" Json.asBool?
  let reference ← fields.allow? "ref" Json.asText?
  let description ← fields.allow? "description" Json.asText?
  return ⟨name, type, required.getD false, reference, description, fields.get? "default"⟩

end Input

namespace Model

def ofJson? (v : Json) : Option Model := do
  let fields ← v.fields?
  let provider ← fields.require? "provider" Json.asText?
  let name ← fields.require? "name" Json.asText?
  let params ← fields.allow? "params" Json.fields?
  return ⟨provider, name, params⟩

end Model

namespace Assertions

def none : Assertions := ⟨.none, .none, .none⟩

def ofJson? (v : Json) : Option Assertions := do
  let fields ← v.fields?
  let contains ← fields.allow? "contains" Json.asTexts?
  let notContains ← fields.allow? "notContains" Json.asTexts?
  let maxTokens ← fields.allow? "maxTokens" Json.asCount?
  return ⟨contains, notContains, maxTokens⟩

end Assertions

namespace TestCase

def ofJson? (v : Json) : Option TestCase := do
  let fields ← v.fields?
  let name ← fields.require? "name" Json.asText?
  let inputs ← fields.allow? "with" Json.fields?
  let assertions ← fields.allow? "assert" Assertions.ofJson?
  return ⟨name, inputs.getD [], assertions.getD .none⟩

/-- The bound for tokens in a test, when it is not a count. -/
def badBound? (v : Json) : Option Json :=
  ((v.get? "assert").bind fun a => a.get? "maxTokens").filter fun n => n.asCount?.isNone

end TestCase

namespace Prompt

def misfit? : String × Json → Option DecodeError
  | ("version", .float x) => some (.doubleVersion x)
  | ("tests", .arr tests) => (tests.findSome? TestCase.badBound?).map .tokenBound
  | _ => none

/-- The prompt in the root fields of a document whose numbers fit. -/
def ofFields? (fields : Fields) : Option Prompt := do
  let version ← fields.require? "version" Json.asCount?
  let id ← fields.require? "id" Json.asText?
  let name ← fields.require? "name" Json.asText?
  let slug ← fields.allow? "slug" Json.asText?
  let template ← fields.require? "template" Json.asText?
  let inputs ← fields.allow? "inputs" fun v => v.items?.bind (·.mapM Input.ofJson?)
  let model ← fields.allow? "model" Model.ofJson?
  let controls ← fields.allow? "controls" Json.fields?
  let enums ← fields.allow? "enums" (Json.asNamed? Json.asTexts?)
  let labels ← fields.allow? "labels" (Json.asNamed? (Json.asNamed? Json.asText?))
  let metadata ← fields.allow? "metadata" Json.fields?
  let tests ← fields.allow? "tests" fun v => v.items?.bind (·.mapM TestCase.ofJson?)
  let context ← fields.allow? "context" Json.fields?
  let policies ← fields.allow? "policies" Json.fields?
  let tags ← fields.allow? "tags" Json.asTexts?
  let snapshots ← fields.allow? "snapshot_with_inputs" Json.items?
  let frameworkRef ← fields.allow? "frameworkRef" Json.asText?
  return {
    version, id, name, slug, template, model, controls, enums, labels, metadata, tests, context
    policies, snapshots, frameworkRef
    inputs := inputs.getD []
    tags := tags.getD [] }

/-- The prompt in the root fields of a document. Of several numbers that do not
fit, the first one in the document is reported. -/
def ofFields (fields : Fields) : Except DecodeError Prompt :=
  match fields.findSome? misfit? with
  | some e => .error e
  | none =>
    match ofFields? fields with
    | some p => .ok p
    | none => .error .shape

def ofJson (document : Json) : Except DecodeError Prompt :=
  match document.fields? with
  | some fields => ofFields fields
  | none => .error .shape

end Prompt

end PromptDoc
