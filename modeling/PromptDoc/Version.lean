import PromptDoc.Json.Value

/-!
# Versions of prompt documents

The supported versions form a closed set. A document carries its version as a
tag; one without a tag counts as the oldest. Versions differ in their
strictness about keys that are not declared.
-/

namespace PromptDoc

/-- What a version does with root keys outside the declared ones. -/
inductive Strictness where
  /-- They are violations. -/
  | strict
  /-- They are dropped. -/
  | lenient
deriving DecidableEq

/-- A supported version. -/
inductive Version where
  | v1
  | v2
deriving DecidableEq

namespace Version

/-- The version that parsed prompts have. -/
def latest : Version := .v2

/-- The version of documents without a tag. -/
def untagged : Version := .v1

/-- The number that stands in the tag. -/
def number : Version → Nat
  | .v1 => 1
  | .v2 => 2

def ofNumber? (n : Int) : Option Version :=
  if n = 1 then some .v1 else if n = 2 then some .v2 else none

/-- The version that a tag names: an integer, or a double that is one. -/
def ofTag? : Json → Option Version
  | .int n => ofNumber? n
  | .float x => x.toInt?.bind ofNumber?
  | _ => none

def next? : Version → Option Version
  | .v1 => some .v2
  | .v2 => none

def name (v : Version) : String :=
  "v" ++ toString v.number

/-- How strict the version is: the oldest one allows no other keys. -/
def strictness : Version → Strictness
  | .v1 => .strict
  | .v2 => .lenient

/-- The version of a document; an error gives the tag that names none. -/
def ofDocument (document : Json) : Except Json Version :=
  match document.get? "version" with
  | none => .ok untagged
  | some tag =>
    match ofTag? tag with
    | some v => .ok v
    | none => .error tag

/-- The document with the version's number as its version tag. -/
def tag (v : Version) : Json → Json
  | .obj fs => .obj (Fields.insert fs "version" (.int v.number))
  | document => document

end Version

end PromptDoc
