import PromptDoc.Command.Outcome
import PromptDoc.Files.Collect
import PromptDoc.FrontMatter.Findings
import PromptDoc.Settings.Basic

/-!
# The lint command

`FileTree.findings` inspects one file, and `lintFiles` says what is found in the
selected files. The command fails if there is an error among the findings.
-/

namespace PromptDoc

def FileTree.findings (t : FileTree) (unusedAreErrors : Bool) (p : Path) : Findings :=
  match t.readText? p with
  | some text => Findings.ofText unusedAreErrors text.toList
  | none => .none .unreadableFile

def Finding.toMessage (f : Finding) (p : Path) : Message :=
  .errorLine ("[nexus-prompt][lint] " ++ p.spelling ++ ": " ++ f.message ++ " [" ++
    f.code.name ++ "]")

def Findings.messages (f : Findings) (p : Path) : List Message :=
  if f.status = .unreadableFile then
    [.errorLine ("[nexus-prompt][lint] Skipped " ++ p.spelling ++ ": unreadable")]
  else (f.errors ++ f.warnings).map (·.toMessage p)

def lintFiles (settings : Settings) (targets : List Path) (t : FileTree) : Outcome :=
  match t.collect settings.selection targets with
  | [] => ⟨0, [.line "[nexus-prompt] No files to lint."], t⟩
  | files =>
    let found := files.map fun p => (p, t.findings settings.unusedAreErrors p)
    let errors := (found.flatMap fun (_, f) => f.errors).length
    let warnings := (found.flatMap fun (_, f) => f.warnings).length
    ⟨if errors = 0 then 0 else 1,
      found.flatMap (fun (p, f) => f.messages p) ++
        [.line ("[nexus-prompt] Lint complete. " ++ toString errors ++ " error(s), " ++
          toString warnings ++ " warning(s), checked " ++ toString files.length ++ " file(s).")],
      t⟩

end PromptDoc
