import PromptDoc.Command.Arguments
import PromptDoc.Command.Format
import PromptDoc.Command.Lint
import PromptDoc.Settings.Load

/-!
# Running a command line

`Command.run` runs a command line on a file tree: it loads the settings and
hands the targets to the command. Without targets the working folder is the
target.
-/

namespace PromptDoc.Command

def targets (i : Invocation) : List Path :=
  if i.targets.isEmpty then [⟨"."⟩] else i.targets.map Path.mk

def runWith (settings : Settings) (i : Invocation) (t : FileTree) : Outcome :=
  match i.action with
  | .format check showDiff => formatFiles settings check showDiff (targets i) t
  | .lint => lintFiles settings (targets i) t

/-- Runs a command line; `user` is the settings file of the user. -/
def run (t : FileTree) (user : Path) (environment : List (String × String))
    (words : List String) : Outcome :=
  match Invocation.ofArguments words with
  | .error refusal =>
    ⟨refusal.code, [⟨if refusal.code = 0 then .output else .errors, refusal.message ++ "\n"⟩], t⟩
  | .ok i =>
    match Settings.load t user i.settingsFile environment with
    | .error e =>
      ⟨1, [.errorLine ("[nexus-prompt] Fatal error: loading configuration: " ++ e.message)], t⟩
    | .ok settings => runWith settings i t

end PromptDoc.Command
