import PromptDoc.Command.Outcome
import PromptDoc.Files.Collect
import PromptDoc.FrontMatter.Stable
import PromptDoc.Prompt.Parse
import PromptDoc.Settings.Basic
import PromptDoc.Text.Diff.Unified

/-!
# The format command

`formatFiles` goes through files one after another and gives each one that is
not stable its stable form. A check changes no file and only says which ones
are not stable. Files that are no text or whose front matter cannot be read are
passed over. A file that cannot be written to ends the command, and the files
after it do not have their turn.
-/

namespace PromptDoc

/-- How far the format command has come. -/
structure FormatRun where
  tree : FileTree
  messages : List Message := []
  /-- The files that are not stable, with what their stable form changes. -/
  unstable : List (Path × String) := []

namespace FormatRun

def say (r : FormatRun) (m : Message) : FormatRun :=
  { r with messages := r.messages ++ [m] }

def note (r : FormatRun) (p : Path) (changes : String) : FormatRun :=
  { r with unstable := r.unstable ++ [(p, changes)] }

/-- What changes, in one line. -/
def changesText (changes : List Change) : String :=
  ", ".intercalate (changes.map Change.text)

/-- Goes on with a file that is not stable and of which only this is said. -/
def check (r : FormatRun) (showDiff : Bool) (p : Path) (text : String) (s : Stabilized) :
    FormatRun :=
  let r := if showDiff then
      r.say ⟨.output, String.ofList (Text.unifiedDiff p.spelling text.toList s.output)⟩
    else r
  r.note p (changesText s.changes)

/-- The end of the command at a file that cannot be written to. -/
def fail (r : FormatRun) (p : Path) (reason : String) : Outcome :=
  ⟨1, r.messages ++ [.errorLine ("[nexus-prompt] Fatal error: writing " ++ p.spelling ++ ": " ++
    reason)], r.tree⟩

/-- Gives a file that is not stable its stable form. -/
def update (r : FormatRun) (p : Path) (s : Stabilized) : Except Outcome FormatRun :=
  match r.tree.write p (String.ofList s.output) with
  | (tree, some reason) => .error ({ r with tree := tree }.fail p reason)
  | (tree, none) =>
    .ok (({ r with tree := tree }.say (.line ("[nexus-prompt][fmt] Updated " ++ p.spelling ++
      ": " ++ changesText s.changes))).note p (changesText s.changes))

/-- The turn of a file. Where there is no going on it gives the outcome of the
command. -/
def next (checkOnly showDiff : Bool) (r : FormatRun) (p : Path) : Except Outcome FormatRun :=
  match r.tree.readText? p with
  | none =>
    .ok (r.say (.errorLine ("[nexus-prompt][fmt] Skipped " ++ p.spelling ++
      ": stream did not contain valid UTF-8")))
  | some text =>
    match Stabilized.ofText text.toList with
    | .error e =>
      .ok (r.say (.errorLine ("[nexus-prompt][fmt] Invalid YAML front matter in " ++ p.spelling ++
        ": " ++ (PromptError.unreadable e).message)))
    | .ok s =>
      if !s.changed then .ok r
      else if checkOnly then .ok (r.check showDiff p text s)
      else r.update p s

/-- The end of a check: it fails if a file is not stable. -/
def finishCheck (r : FormatRun) : Outcome :=
  if r.unstable.isEmpty then
    ⟨0, r.messages ++ [.line "[nexus-prompt] All files are properly formatted."], r.tree⟩
  else
    let listed := r.unstable.map fun (p, changes) =>
      Message.errorLine ("  - " ++ p.spelling ++ "  (" ++ changes ++ ")")
    ⟨1, r.messages ++
      .errorLine "[nexus-prompt] Formatting required for the following file(s):" :: listed ++
      [.errorLine ("[nexus-prompt] " ++ toString r.unstable.length ++
        " file(s) need formatting. Run: nexus-prompt fmt [paths]")], r.tree⟩

def finishUpdate (r : FormatRun) (count : Nat) : Outcome :=
  ⟨0, r.messages ++ [.line ("[nexus-prompt] Formatted " ++ toString count ++
    " file(s), updated " ++ toString r.unstable.length ++ ".")], r.tree⟩

end FormatRun

/-- Formats the selected files, or checks their format only. -/
def formatFiles (settings : Settings) (checkOnly showDiff : Bool) (targets : List Path)
    (t : FileTree) : Outcome :=
  match t.collect settings.selection targets with
  | [] => ⟨0, [.line "[nexus-prompt] No files to format."], t⟩
  | files =>
    match files.foldlM (FormatRun.next checkOnly (showDiff || settings.showDiff)) { tree := t } with
    | .error outcome => outcome
    | .ok r => if checkOnly then r.finishCheck else r.finishUpdate files.length

end PromptDoc
