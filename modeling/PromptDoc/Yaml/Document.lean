import PromptDoc.Yaml.Source
import PromptDoc.Yaml.Value

/-!
# Reading YAML documents

`Yaml.read` takes a text to the JSON value that its one document denotes. The
text is cut into tokens, the tokens describe a tree of nodes, aliases in the
tree are replaced, and the value is turned into JSON. The whole value has to be
understood before its JSON form is asked for.
-/

namespace PromptDoc.Yaml

/-- Why a text is no document. -/
inductive ReadError where
  /-- The text is not YAML, or exceeds what is understood. -/
  | malformed
  /-- The value has no JSON form. -/
  | nonJson (cause : NonJson)
deriving DecidableEq

/-- Results can be compared. -/
instance decEqResult {ε α : Type} [DecidableEq ε] [DecidableEq α] : DecidableEq (Except ε α)
  | .ok a, .ok b => decidable_of_iff (a = b) ⟨congrArg Except.ok, Except.ok.inj⟩
  | .error a, .error b => decidable_of_iff (a = b) ⟨congrArg Except.error, Except.error.inj⟩
  | .ok _, .error _ => isFalse nofun
  | .error _, .ok _ => isFalse nofun

/-- The value that a text denotes; a text without a document is null. -/
def value? (text : List Char) : Option Value :=
  match (Source.prepare? text).bind Token.scan? with
  | none => none
  | some tokens =>
    match Node.ofTokens? tokens with
    | none => none
    | some none => some (.scalar .null)
    | some (some root) => (root.number? []).bind fun (_, root) => Value.ofRoot? root

def readChars (text : List Char) : Except ReadError Json :=
  match value? text with
  | none => .error .malformed
  | some v => v.toJson.mapError .nonJson

/-- Reads the document in a text. -/
def read (text : String) : Except ReadError Json :=
  readChars text.toList

end PromptDoc.Yaml
