import PromptDoc.Prompt.Decode
import PromptDoc.Prompt.Encode
import PromptDoc.Yaml.Document
import PromptDoc.Yaml.Writer

/-!
# Parsing prompt documents

`Prompt.parse` finds the version of a document, checks it against the schema of
that version's edition, decodes it and migrates the prompt to the latest
version. Any error ends the parse; nothing is half applied. `Prompt.toText`
writes a prompt as stable text, which parses to the same prompt.
-/

namespace PromptDoc

/-- Why a document is no prompt. -/
inductive PromptError where
  /-- The document breaks rules of its edition. -/
  | invalid (version : Nat) (violations : List Violation)
  /-- The version tag names no supported version. -/
  | unsupportedVersion (tag : Json)
  /-- The text of the document cannot be read. -/
  | unreadable (cause : Yaml.ReadError)
deriving DecidableEq

namespace PromptError

/-- The wording of the error. The fault in a malformed text is not described
further. -/
def message : PromptError → String
  | .invalid version violations =>
    "Prompt schema v" ++ toString version ++ " validation failed (" ++
      toString violations.length ++ " violation(s)): " ++
      "; ".intercalate (violations.map Violation.text)
  | .unsupportedVersion tag => "Unsupported prompt version: " ++ tag.compact
  | .unreadable .malformed => "Invalid YAML/JSON document"
  | .unreadable (.nonJson cause) => "Document value cannot be represented: " ++ cause.message

end PromptError

/-- Checks a document against an edition and decodes it. All violations are
reported; a number that does not fit is one violation of the whole document. -/
def Edition.decode (e : Edition) (document : Json) : Except PromptError Prompt :=
  match e.violations document with
  | [] => (Prompt.ofJson document).mapError fun fault =>
      .invalid e.version [⟨"", .constraint, fault.message⟩]
  | violations => .error (.invalid e.version violations)

namespace Prompt

/-- One step of migration. The versions declare the same fields, so only the
tag changes. -/
def migrateTo (v : Version) (p : Prompt) : Prompt :=
  { p with version := v.number }

def migrate (p : Prompt) : Version → Prompt
  | .v1 => p.migrateTo .v2
  | .v2 => p

def parse (document : Json) : Except PromptError Prompt :=
  match Version.ofDocument document with
  | .error tag => .error (.unsupportedVersion tag)
  | .ok v => ((Edition.ofVersion v).decode (v.tag document)).map (migrate · v)

def parseText (text : String) : Except PromptError Prompt :=
  match Yaml.read text with
  | .error e => .error (.unreadable e)
  | .ok document => parse document

/-- The stable text of a prompt. -/
def toText (p : Prompt) : String :=
  Yaml.Layout.stable.write p.toJson.canonical

end Prompt

end PromptDoc
