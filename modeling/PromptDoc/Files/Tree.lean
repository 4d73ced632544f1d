import PromptDoc.Files.Path
import PromptDoc.Keyed

/-!
# File trees

A file tree is a folder with everything below it, and the place of the folder
that relative paths start from. `FileTree.locate` follows a path step by step
and gives the place that it leads to; the place reached is carried along, and
links are followed where they stand, up to forty of them.

Writing to a file can fail, and a tree knows where it does: an `Obstacle` keeps a
file from being opened, or lets it take only the beginning of its new content.
Reading cannot fail otherwise than by what is read. So a file that cannot be read
is taken as one whose content is no text, and a folder that cannot be read as one
without entries.
-/

namespace PromptDoc

namespace FileTree

/-- A file, a symbolic link, or a folder with named entries. -/
inductive Node where
  | file (content : ByteArray)
  | link (target : Path)
  | folder (entries : List (String × Node))
deriving Inhabited

namespace Node

/-- The entries of a folder; nothing else has any. -/
def entries : Node → List (String × Node)
  | .folder es => es
  | _ => []

def isFolder : Node → Bool
  | .folder _ => true
  | _ => false

/-- The node reached by going down the names. -/
def below? : Node → List String → Option Node
  | n, [] => some n
  | n, s :: rest =>
    match n.entries.lookup s with
    | some m => below? m rest
    | none => none

mutual

/-- The files at and below a node at a place, with their places. -/
def filesAt (place : List String) : Node → List (List String × ByteArray)
  | .file content => [(place, content)]
  | .link _ => []
  | .folder es => filesAmong place es

def filesAmong (place : List String) : List (String × Node) → List (List String × ByteArray)
  | [] => []
  | (name, n) :: es => n.filesAt (place ++ [name]) ++ filesAmong place es

end

/-- Puts a node at a place, with folders on the way to it. -/
def put : Node → List String → Node → Node
  | _, [], new => new
  | n, s :: rest, new =>
    .folder (Keyed.insert n.entries s (put ((n.entries.lookup s).getD (.folder [])) rest new))

end Node

/-- What is in the way of another content for a file. -/
structure Obstacle where
  /-- How many bytes of the content the file takes once it has been emptied; none
  where it cannot be opened and stays as it is. -/
  taken : Option Nat
  /-- What the system says of it. -/
  reason : String
deriving DecidableEq

end FileTree

/-- A tree of files, and the folder in it that relative paths start from. -/
structure FileTree where
  root : FileTree.Node
  working : List String
  /-- The places of files that something is in the way of writing to. -/
  obstacles : List (List String × FileTree.Obstacle) := []

namespace FileTree

/-- The number of links that are followed on the way to one place. -/
def linkLimit : Nat := 40

/-- The place that steps lead to from a place. A link on the way is replaced by
its own steps; `follow` says whether the last step may be a link, too. -/
def locate (root : Node) (follow : Bool) :
    (links : Nat) → (place : List String) → List Path.Component → Option (List String)
  | _, place, [] => some place
  | links, _, .root :: rest => locate root follow links [] rest
  | links, place, .here :: rest =>
    if (root.below? place).any Node.isFolder then locate root follow links place rest else none
  | links, place, .parent :: rest =>
    if (root.below? place).any Node.isFolder then locate root follow links place.dropLast rest
    else none
  | links, place, .name s :: rest =>
    match root.below? (place ++ [s]) with
    | none => none
    | some (.link target) =>
      if !follow && rest.isEmpty then some (place ++ [s])
      else match links with
        | 0 => none
        | links + 1 => locate root follow links place (target.steps ++ rest)
    | some _ => locate root follow links (place ++ [s]) rest
termination_by links _ steps => (links, steps.length)

/-- The place that a path leads to. An empty path leads nowhere. -/
def place? (t : FileTree) (follow : Bool) (p : Path) : Option (List String) :=
  if p.spelling.isEmpty then none else locate t.root follow linkLimit t.working p.steps

/-- What stands at the end of a path, which may be a link. -/
def entry? (t : FileTree) (p : Path) : Option Node :=
  (t.place? false p).bind t.root.below?

/-- What a path leads to when all links are followed. -/
def node? (t : FileTree) (p : Path) : Option Node :=
  (t.place? true p).bind t.root.below?

def read? (t : FileTree) (p : Path) : Option ByteArray :=
  match t.node? p with
  | some (.file content) => some content
  | _ => none

def isFile (t : FileTree) (p : Path) : Bool :=
  (t.read? p).isSome

/-- The text of the file that a path leads to; none where the content is not
the UTF-8 form of a text. -/
def readText? (t : FileTree) (p : Path) : Option String :=
  (t.read? p).bind String.fromUTF8?

/-- Gives the file at a place another content. -/
def setContent (t : FileTree) (place : List String) (content : ByteArray) : FileTree :=
  { t with root := t.root.put place (.file content) }

/-- What is in the way of writing to the file that a path leads to. -/
def obstacle? (t : FileTree) (p : Path) : Option Obstacle :=
  (t.place? true p).bind (t.obstacles.lookup ·)

/-- Gives the file that a path leads to a text as its content. Where that fails, the
reason comes with the tree that is left behind. -/
def write (t : FileTree) (p : Path) (text : String) : FileTree × Option String :=
  match t.place? true p with
  | none => (t, some "No such file or directory (os error 2)")
  | some place =>
    match t.obstacles.lookup place with
    | none => (t.setContent place text.toUTF8, none)
    | some ⟨none, reason⟩ => (t, some reason)
    | some ⟨some n, reason⟩ => (t.setContent place (text.toUTF8.extract 0 n), some reason)

/-- Puts a node at the end of a path that goes down from the working folder. -/
def add (t : FileTree) (p : Path) (new : Node) : FileTree :=
  let names := p.components.filterMap fun
    | .name s => some s
    | _ => none
  { t with root := t.root.put (t.working ++ names) new }

/-- The content of the file at a place. -/
def contentAt? (t : FileTree) (place : List String) : Option ByteArray :=
  match t.root.below? place with
  | some (.file content) => some content
  | _ => none

/-- The files of a tree whose content is another one than before. -/
def changedSince (t before : FileTree) : List (List String × ByteArray) :=
  (t.root.filesAt []).filter fun (place, content) =>
    (before.contentAt? place).map ByteArray.data ≠ some content.data

def empty : FileTree :=
  { root := .folder [], working := [] }

end FileTree

end PromptDoc
