import PromptDoc.Canonical
import PromptDoc.FrontMatter.Envelope
import PromptDoc.Yaml.Writer

/-!
# Stable front matter

`Stabilized.ofText` brings the front matter of a text into its stable form:
keys in canonical order, stable layout, everything around the block as it was.
The document need not be a valid prompt. A text without front matter, or with
a blank block, stays as it is.
-/

namespace PromptDoc

/-- What the stable form changes. -/
inductive Change where
  /-- Keys were not in canonical order. -/
  | keyOrder
  /-- Indentation, quoting or folding differed. -/
  | layout
deriving DecidableEq

def Change.text : Change → String
  | .keyOrder => "canonical key order"
  | .layout => "indent 2 / line width 120 layout"

/-- A text whose front matter is in its stable form. -/
structure Stabilized where
  output : List Char
  changed : Bool
  changes : List Change
deriving DecidableEq

namespace Json

/-- The keys whose order counts: those of the root and of every input. -/
def orderedKeys (document : Json) : List (List String) :=
  match document.fields? with
  | none => []
  | some fields =>
    fields.keys :: (((fields.get? "inputs").bind items?).getD []).filterMap fun input =>
      input.fields?.map Fields.keys

end Json

namespace Stabilized

def unchanged (text : List Char) : Stabilized :=
  ⟨text, false, []⟩

/-- What differs between a block and its stable form. -/
def changesOf (block : List Char) (document : Json) : List Change :=
  (if document.orderedKeys = document.canonical.orderedKeys then [] else [.keyOrder]) ++
    if Yaml.Layout.stable.document document = Text.toLf block ++ ['\n'] then [] else [.layout]

def ofDocument (text : List Char) (e : Envelope) (document : Json) : Stabilized :=
  let output := e.rejoin (Yaml.Layout.stable.document document.canonical)
  if output = text then unchanged text else ⟨output, true, changesOf e.block document⟩

/-- Brings the front matter of a text into its stable form. A block that cannot
be read is an error. -/
def ofText (text : List Char) : Except Yaml.ReadError Stabilized :=
  match Envelope.split? text with
  | none => .ok (unchanged text)
  | some e =>
    if e.isBlank then .ok (unchanged text)
    else (Yaml.readChars e.block).map (ofDocument text e)

end Stabilized

end PromptDoc
