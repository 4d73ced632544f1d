import PromptDoc.Toml.Value

/-!
# Building TOML tables

A document gives its tables piece by piece: headers open tables, and pairs add
fields to the table that is open. `Draft` is what has been given so far. It
remembers how each table came about, since that decides what may still be added
to it: a table has one header, and dotted keys extend only tables that dotted
keys have made.
-/

namespace PromptDoc.Toml

/-- How a table came about. -/
inductive Origin where
  /-- It has a header of its own. -/
  | header
  /-- The header of a table inside it named it. -/
  | outer
  /-- A dotted key named it. -/
  | dotted
deriving DecidableEq

/-- A field of a table that is being built. -/
inductive Entry where
  | value (v : Toml)
  | table (origin : Origin) (fields : List (String × Entry))
  /-- A list of tables: the fields of the last one and the ones before it. -/
  | tables (last : List (String × Entry)) (earlier : List Toml)

mutual

def Entry.toToml : Entry → Toml
  | .value v => v
  | .table _ fs => .table (entriesToToml fs)
  | .tables last earlier => .list (earlier ++ [.table (entriesToToml last)])

def entriesToToml : List (String × Entry) → List (String × Toml)
  | [] => []
  | (key, e) :: fs => (key, e.toToml) :: entriesToToml fs

end

/-- Changes the fields of the table at the end of a path from a table of the
given origin. Tables on the way that do not exist are made, with the origin
`new`; with dotted keys the way must not lead through a table with a header. -/
def descend (new : Origin)
    (change : Origin → List (String × Entry) → Option (List (String × Entry))) :
    Origin → List String → List (String × Entry) → Option (List (String × Entry))
  | origin, [], fs => change origin fs
  | _, key :: path, fs =>
    match fs.lookup key with
    | none => (descend new change new path []).map fun inner => Keyed.insert fs key (.table new inner)
    | some (.value _) => none
    | some (.tables last earlier) =>
      (descend new change .header path last).map fun inner =>
        Keyed.insert fs key (.tables inner earlier)
    | some (.table origin inner) =>
      if new = .dotted ∧ origin = .header then none
      else (descend new change origin path inner).map fun inner =>
        Keyed.insert fs key (.table origin inner)

/-- Adds a field under a dotted key. The key must be new, and a table on the
way has to be one that only dotted keys have named. -/
def addPair (fs : List (String × Entry)) (path : List String) (key : String) (v : Toml) :
    Option (List (String × Entry)) :=
  descend .dotted (fun origin fs =>
    if (origin = .dotted) = (path = []) then none
    else match fs.lookup key with
      | none => some (Keyed.insert fs key (.value v))
      | some _ => none) .header path fs

/-- The last name of a path, and the names before it. -/
def splitLast? : List String → Option (List String × String)
  | [] => none
  | [name] => some ([], name)
  | name :: rest => (splitLast? rest).map fun (path, last) => (name :: path, last)

/-- A line of a document. -/
inductive Line where
  /-- The header of a table. -/
  | table (path : List String)
  /-- The header of a further table in a list of tables. -/
  | item (path : List String)
  | pair (path : List String) (v : Toml)

/-- The tables given so far, and the path of the table that is open. -/
structure Draft where
  fields : List (String × Entry) := []
  current : List String := []

namespace Draft

/-- Opens the table under a key: it must be new, or named by headers of tables
inside it only. -/
def openTable (key : String) (fs : List (String × Entry)) : Option (List (String × Entry)) :=
  match fs.lookup key with
  | none => some (Keyed.insert fs key (.table .header []))
  | some (.table .outer inner) => some (Keyed.insert fs key (.table .header inner))
  | some _ => none

def openItem (key : String) (fs : List (String × Entry)) : Option (List (String × Entry)) :=
  match fs.lookup key with
  | none => some (Keyed.insert fs key (.tables [] []))
  | some (.tables last earlier) =>
    some (Keyed.insert fs key (.tables [] (earlier ++ [.table (entriesToToml last)])))
  | some _ => none

/-- The draft with a line more; none where the line contradicts those before
it. -/
def add? (d : Draft) : Line → Option Draft
  | .table path => do
    let (outer, key) ← splitLast? path
    let fields ← descend .outer (fun _ => openTable key) .header outer d.fields
    some ⟨fields, path⟩
  | .item path => do
    let (outer, key) ← splitLast? path
    let fields ← descend .outer (fun _ => openItem key) .header outer d.fields
    some ⟨fields, path⟩
  | .pair path v => do
    let (inner, key) ← splitLast? path
    let fields ← descend .outer (fun _ fs => addPair fs inner key v) .header d.current d.fields
    some { d with fields := fields }

end Draft

def ofLines? (lines : List Line) : Option Toml :=
  (lines.foldlM Draft.add? { }).map fun d => .table (entriesToToml d.fields)

def ofPairs? (pairs : List (List String × Toml)) : Option Toml :=
  ofLines? (pairs.map fun (path, v) => .pair path v)

end PromptDoc.Toml
