import PromptDoc.Files.Path
import PromptDoc.Text.Lowercase

/-!
# Which files are selected

A `Selection` says which files are processed: by their extension, unless their
name starts in a certain way, and not below folders of certain names.
-/

namespace PromptDoc

/-- The files to process. -/
structure Selection where
  /-- The extensions of selected files, with or without their dots. -/
  extensions : List String := ["md"]
  /-- The names of folders that are left out with everything below them. -/
  skippedFolders : List String := ["node_modules", ".git", "dist", "build", "coverage", "target"]
  /-- Files whose names start with one of these are left out. -/
  skippedStarts : List String := ["framework-"]
deriving DecidableEq

namespace Selection

def skipsFolder (sel : Selection) (name : String) : Bool :=
  sel.skippedFolders.contains name

/-- Whether a configured extension stands for the extension of a file, which
is compared in lowercase. -/
def matchesExtension (configured extension : String) : Bool :=
  Text.sameIgnoringAsciiCase (String.ofList (configured.toList.dropWhile (· = '.')))
    (Text.lowercase extension)

def accepts (sel : Selection) (p : Path) : Bool :=
  match p.name?, p.extension? with
  | some name, some extension =>
    !sel.skippedStarts.any (·.toList.isPrefixOf name.toList) &&
      sel.extensions.any (matchesExtension · extension)
  | _, _ => false

end Selection

end PromptDoc
