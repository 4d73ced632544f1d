import PromptDoc.Files.Selection
import PromptDoc.Toml.Writer

/-!
# Settings

`Settings` says which files are processed and how; `Settings.toText` writes
settings as a file that gives the same settings again.
-/

namespace PromptDoc

/-- What can be configured. -/
structure Settings where
  selection : Selection := { }
  /-- Whether an input that no placeholder uses is an error. -/
  unusedAreErrors : Bool := false
  /-- Whether a check of the format shows what it would change. -/
  showDiff : Bool := false
deriving DecidableEq

namespace Settings

def flagText (b : Bool) : String :=
  if b then "true" else "false"

def toText (s : Settings) : String :=
  "[walk]\nextensions = " ++ Toml.quoteList s.selection.extensions ++
    "\nskip_dirs = " ++ Toml.quoteList s.selection.skippedFolders ++
    "\nskip_prefixes = " ++ Toml.quoteList s.selection.skippedStarts ++
    "\n\n[lint]\nunused_inputs_are_errors = " ++ flagText s.unusedAreErrors ++
    "\n\n[format]\nshow_diff = " ++ flagText s.showDiff ++ "\n"

end Settings

end PromptDoc
