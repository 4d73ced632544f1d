import PromptDoc.Prompt.Basic

/-!
# Prompts as documents

`Prompt.toJson` is the document form of a prompt. Fields stand in their written
order; optional ones that are absent are left out, and what has a default is
always there.
-/

namespace PromptDoc

namespace Fields

/-- A field that is left out when it has no value. -/
def optional {α : Type} (name : String) (encode : α → Json) : Option α → Fields
  | none => []
  | some a => [(name, encode a)]

def ofStrings (ss : List String) : Json :=
  .arr (ss.map .str)

def ofNamed {α : Type} (encode : α → Json) (entries : List (String × α)) : Json :=
  .obj (entries.map fun (name, a) => (name, encode a))

end Fields

namespace Input

def toJson (i : Input) : Json :=
  .obj <| [("name", .str i.name), ("type", .str i.type.name), ("required", .bool i.required)] ++
    Fields.optional "ref" .str i.reference ++
    Fields.optional "description" .str i.description ++
    Fields.optional "default" id i.standard

end Input

namespace Model

def toJson (m : Model) : Json :=
  .obj <| [("provider", .str m.provider), ("name", .str m.name)] ++
    Fields.optional "params" .obj m.params

end Model

namespace Assertions

def toJson (a : Assertions) : Json :=
  .obj <| Fields.optional "contains" Fields.ofStrings a.contains ++
    Fields.optional "notContains" Fields.ofStrings a.notContains ++
    Fields.optional "maxTokens" (fun n => .int n) a.maxTokens

end Assertions

namespace TestCase

def toJson (t : TestCase) : Json :=
  .obj [("name", .str t.name), ("with", .obj t.inputs), ("assert", t.assertions.toJson)]

end TestCase

namespace Prompt

def toFields (p : Prompt) : Fields :=
  [("version", .int p.version), ("id", .str p.id), ("name", .str p.name)] ++
    Fields.optional "slug" .str p.slug ++
    [("template", .str p.template), ("inputs", .arr (p.inputs.map Input.toJson))] ++
    Fields.optional "model" Model.toJson p.model ++
    Fields.optional "controls" .obj p.controls ++
    Fields.optional "enums" (Fields.ofNamed Fields.ofStrings) p.enums ++
    Fields.optional "labels" (Fields.ofNamed (Fields.ofNamed .str)) p.labels ++
    Fields.optional "metadata" .obj p.metadata ++
    Fields.optional "tests" (fun ts => .arr (ts.map TestCase.toJson)) p.tests ++
    Fields.optional "context" .obj p.context ++
    Fields.optional "policies" .obj p.policies ++
    [("tags", Fields.ofStrings p.tags)] ++
    Fields.optional "snapshot_with_inputs" .arr p.snapshots ++
    Fields.optional "frameworkRef" .str p.frameworkRef

def toJson (p : Prompt) : Json :=
  .obj p.toFields

/-- Equality of prompts up to the order of the keys in their records. -/
def agrees (p q : Prompt) : Bool :=
  p.toJson.agrees q.toJson

end Prompt

end PromptDoc
