import PromptDoc.Json.Printer
import PromptDoc.Settings.Basic
import PromptDoc.Toml.Value

/-!
# Settings from a table

`Settings.ofToml?` finds the settings in a table. Fields that are missing have
their standard values and unknown fields do not count. Scalars of other types
are converted where they have a meaning, lists and tables are not. A group of
settings may also be a list of its fields in their order.
-/

namespace PromptDoc

namespace Toml

/-- The truth value that a value stands for: a number that is not zero is true,
and some words are truth values in letters of either case. -/
def asFlag? : Toml → Option Bool
  | .bool b => some b
  | .int n => some (n ≠ 0)
  | .float x => some (!x.isZero)
  | .text s =>
    let word := s.toLower
    if word ∈ ["1", "true", "on", "yes"] then some true
    else if word ∈ ["0", "false", "off", "no"] then some false
    else none
  | _ => none

def asText? : Toml → Option String
  | .bool b => some (if b then "true" else "false")
  | .int n => some (String.ofList (Json.intText n))
  | .float x => some (String.ofList x.text)
  | .text s => some s
  | _ => none

def asTexts? : Toml → Option (List String)
  | .list vs => vs.mapM asText?
  | _ => none

/-- A field of a group of settings by its key, or by its place where the group
is a list; `standard` takes the place of a missing one. -/
def setting? {α : Type} (group : Toml) (key : String) (place : Nat) (standard : α)
    (read : Toml → Option α) : Option α :=
  let found : Option (Option Toml) := match group with
    | .table fs => some (fs.lookup key)
    | .list vs => some vs[place]?
    | _ => none
  match found with
  | some (some v) => read v
  | some none => some standard
  | none => none

end Toml

namespace Settings

def selectionOf? (group : Toml) : Option Selection := do
  let standard : Selection := { }
  let extensions ← group.setting? "extensions" 0 standard.extensions Toml.asTexts?
  let folders ← group.setting? "skip_dirs" 1 standard.skippedFolders Toml.asTexts?
  let starts ← group.setting? "skip_prefixes" 2 standard.skippedStarts Toml.asTexts?
  some ⟨extensions, folders, starts⟩

def ofToml? (t : Toml) : Option Settings := do
  let selection ← t.setting? "walk" 0 { } selectionOf?
  let unused ← t.setting? "lint" 1 false
    (·.setting? "unused_inputs_are_errors" 0 false Toml.asFlag?)
  let diff ← t.setting? "format" 2 false (·.setting? "show_diff" 0 false Toml.asFlag?)
  some ⟨selection, unused, diff⟩

end Settings

end PromptDoc
