import PromptDoc.Command.Run

/-!
# The program

`main` reads what the command line may touch from the disk into a file tree,
runs the command line on it, says what it says and writes the files that are
not as they were.
-/

namespace PromptDoc.Program

open FileTree (Node)

/-- The content of a file. One that cannot be read counts as no text. -/
def orNoText (read : IO ByteArray) : IO ByteArray :=
  try read catch _ => return ⟨#[0xff]⟩

/-- The entries of a folder. One that cannot be read counts as empty. -/
def orNoEntries (read : IO (Array IO.FS.DirEntry)) : IO (Array IO.FS.DirEntry) :=
  try read catch _ => return #[]

/-- Reads directory entries with everything below them. -/
partial def readEntries (entries : Array IO.FS.DirEntry) : IO (List (String × Node)) :=
  entries.toList.mapM fun entry => do
    match (← entry.path.symlinkMetadata).type with
    | .symlink => return (entry.fileName, .link ⟨(← IO.FS.realPath entry.path).toString⟩)
    | .dir =>
      return (entry.fileName, .folder (← readEntries (← orNoEntries entry.path.readDir)))
    | _ => return (entry.fileName, .file (← orNoText (IO.FS.readBinFile entry.path)))

/-- Adds what a path leads to on the disk to a tree, at its real place, and the
link that stands at the end of the path, if there is one. -/
def addFromDisk (t : FileTree) (p : Path) : IO FileTree := do
  let spelled := (← IO.currentDir) / p.spelling
  if p.spelling.isEmpty || !(← spelled.pathExists) then return t
  let real ← IO.FS.realPath spelled
  let node ← if ← real.isDir then
      Node.folder <$> readEntries (← orNoEntries real.readDir)
    else
      Node.file <$> orNoText (IO.FS.readBinFile real)
  let t := t.add ⟨real.toString⟩ node
  match (← spelled.symlinkMetadata).type, spelled.parent, spelled.fileName with
  | .symlink, some folder, some name =>
    return t.add ⟨((← IO.FS.realPath folder) / name).toString⟩ (.link ⟨real.toString⟩)
  | _, _, _ => return t

/-- The names of the steps down to the working folder. -/
def workingPlace : IO (List String) := do
  let p : Path := ⟨(← IO.currentDir).toString⟩
  return p.components.filterMap fun
    | .name s => some s
    | _ => none

def userSettings : IO Path := do
  let folder ← match ← IO.getEnv "XDG_CONFIG_HOME" with
    | some folder => pure folder
    | none => pure (((← IO.getEnv "HOME").getD "") ++ "/.config")
  return ⟨folder ++ "/nexus-prompt/nexus-prompt.toml"⟩

def environment : IO (List (String × String)) := do
  let names := ["NEXUS_PROMPT__LINT__UNUSED_INPUTS_ARE_ERRORS", "NEXUS_PROMPT__FORMAT__SHOW_DIFF",
    "NEXUS_PROMPT__WALK__EXTENSIONS", "NEXUS_PROMPT__WALK__SKIP_DIRS",
    "NEXUS_PROMPT__WALK__SKIP_PREFIXES"]
  names.filterMapM fun name => do
    return (← IO.getEnv name).map fun value => (name, value)

/-- The paths that an invocation may read. -/
def pathsOf (user : Path) (i : Invocation) : List Path :=
  let asked := (i.settingsFile.map Path.mk).toList
  Settings.standardFiles ++ user :: (asked ++ asked.map Settings.withExtension) ++
    Command.targets i

/-- What the system says of a file that cannot be opened. -/
def reasonOf : IO.Error → String
  | .permissionDenied _ code details => details ++ " (os error " ++ toString code ++ ")"
  | e => toString e

/-- The files of a tree that cannot be opened for writing. -/
def findObstacles (t : FileTree) : IO (List (List String × FileTree.Obstacle)) :=
  (t.root.filesAt []).filterMapM fun (place, _) => do
    try
      discard (IO.FS.Handle.mk ("/" ++ "/".intercalate place) .readWrite)
      return none
    catch e => return some (place, ⟨none, reasonOf e⟩)

/-- The part of the disk that a command line may touch. -/
def readTree (user : Path) (words : List String) : IO FileTree := do
  let working ← workingPlace
  let t : FileTree := { FileTree.empty with
    root := FileTree.empty.root.put working (.folder []) }
  let paths := match Invocation.ofArguments words with
    | .ok i => pathsOf user i
    | .error _ => []
  let t ← paths.foldlM addFromDisk t
  return { t with working := working, obstacles := ← findObstacles t }

def say (m : Message) : IO Unit := do
  match m.stream with
  | .output => (← IO.getStdout).putStr m.text
  | .errors => (← IO.getStderr).putStr m.text

def runOnDisk (words : List String) : IO UInt32 := do
  let user ← userSettings
  let before ← readTree user words
  let outcome := Command.run before user (← environment) words
  for (place, content) in outcome.tree.changedSince before do
    IO.FS.writeBinFile ("/" ++ "/".intercalate place) content
  outcome.messages.forM say
  return outcome.code.toUInt32

end PromptDoc.Program

def main (words : List String) : IO UInt32 :=
  PromptDoc.Program.runOnDisk words
