import PromptDoc.Files.Selection
import PromptDoc.Files.Tree

/-!
# Collecting files

`FileTree.collect` lists the selected files that are targets or lie below
targets. The list is ordered by path components and names no path twice. A
target that does not exist adds nothing. Links are not followed, except where a
target is a link to a folder.
-/

namespace PromptDoc

namespace FileTree

mutual

/-- The selected files at and below a node. A folder that cannot be read stands in the
tree without entries, so it adds nothing and the others go on. -/
def Node.select (sel : Selection) (p : Path) : Node → List Path
  | .file _ => if sel.accepts p then [p] else []
  | .link _ => []
  | .folder es => if sel.skipsFolder p.lastName then [] else selectEntries sel p es

/-- The selected files at and below the entries of the folder at a path. -/
def selectEntries (sel : Selection) (p : Path) : List (String × Node) → List Path
  | [] => []
  | (name, n) :: es => Node.select sel (p.join name) n ++ selectEntries sel p es

end

def selectTarget (t : FileTree) (sel : Selection) (target : Path) : List Path :=
  match t.entry? target with
  | none => []
  | some (.link _) => selectEntries sel target ((t.node? target).getD (.folder [])).entries
  | some n => n.select sel target

/-- The paths after `last` without those that name the same path as the one kept
before them. -/
def dropRepeatsOf (last : Path) : List Path → List Path
  | [] => []
  | p :: rest => if last.sameAs p then dropRepeatsOf last rest else p :: dropRepeatsOf p rest

/-- An ordered list without repetitions: of spellings of the same path the first
is kept. -/
def dropRepeats : List Path → List Path
  | [] => []
  | p :: rest => p :: dropRepeatsOf p rest

/-- The files to process for a list of targets. -/
def collect (t : FileTree) (sel : Selection) (targets : List Path) : List Path :=
  dropRepeats ((targets.flatMap (t.selectTarget sel)).mergeSort Path.precedes)

end FileTree

end PromptDoc
