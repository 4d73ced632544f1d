import PromptDoc.FrontMatter.Envelope
import PromptDoc.Prompt.Parse
import PromptDoc.Template

/-!
# Findings

`Findings.ofText` inspects a text with front matter: the body is the template
of the prompt that the block describes. A prompt that does not parse is an
error, and so is a placeholder without an input; an input without a placeholder
is a warning, or an error where the settings say so.
-/

namespace PromptDoc

/-- What a finding is about. -/
inductive Finding.Code where
  | invalidFrontMatter
  | missingInput
  | unusedInput
deriving DecidableEq

def Finding.Code.name : Finding.Code → String
  | .invalidFrontMatter => "INVALID_FRONT_MATTER"
  | .missingInput => "MISSING_INPUT"
  | .unusedInput => "UNUSED_INPUT"

/-- A finding, with the field that it is about. -/
structure Finding where
  code : Finding.Code
  path : String
  message : String
deriving DecidableEq

/-- How far the inspection of a text came. -/
inductive Inspection where
  | checked
  | noFrontMatter
  | emptyFrontMatter
  /-- The block cannot be read. -/
  | unreadableFrontMatter
  /-- The text itself cannot be read. -/
  | unreadableFile
deriving DecidableEq

def Inspection.name : Inspection → String
  | .checked => "Checked"
  | .noFrontMatter => "NoFrontMatter"
  | .emptyFrontMatter => "EmptyFrontMatter"
  | .unreadableFrontMatter => "UnreadableFrontMatter"
  | .unreadableFile => "UnreadableFile"

/-- The findings in one text. -/
structure Findings where
  status : Inspection
  errors : List Finding
  warnings : List Finding
deriving DecidableEq

namespace Findings

def none (status : Inspection) : Findings :=
  ⟨status, [], []⟩

def isClean (f : Findings) : Bool :=
  f.errors.isEmpty

/-- A finding about names, if there are any. -/
def aboutNames (code : Finding.Code) (path intro : String) (names : List String) : List Finding :=
  if names.isEmpty then [] else [⟨code, path, intro ++ ", ".intercalate names⟩]

def ofPrompt (unusedAreErrors : Bool) (p : Prompt) : Findings :=
  let c := Consistency.ofPrompt p
  let missing := aboutNames .missingInput "template"
    "Variables used in template but missing in inputs: " c.undeclared
  let unused := aboutNames .unusedInput "inputs"
    "Input(s) not referenced in template: " c.unused
  if unusedAreErrors then ⟨.checked, missing ++ unused, []⟩ else ⟨.checked, missing, unused⟩

/-- A document with the body as its template, whatever template it had. -/
def withTemplate (body : List Char) : Json → Json
  | .obj fields => .obj (Fields.insert fields "template" (.str (String.ofList body)))
  | document => document

def ofDocument (unusedAreErrors : Bool) (document : Json) (body : List Char) : Findings :=
  match Prompt.parse (withTemplate body document) with
  | .ok p => ofPrompt unusedAreErrors p
  | .error e => ⟨.checked, [⟨.invalidFrontMatter, "", "Invalid front matter: " ++ e.message⟩], []⟩

def ofText (unusedAreErrors : Bool) (text : List Char) : Findings :=
  match Envelope.split? text with
  | .none => none .noFrontMatter
  | some e =>
    if e.isBlank then none .emptyFrontMatter
    else match Envelope.load? text with
      | .none => none .unreadableFrontMatter
      | some (document, body) => ofDocument unusedAreErrors document body

end Findings

end PromptDoc
