import PromptDoc.Toml.Quoted
import PromptDoc.Toml.Scalar
import PromptDoc.Toml.Table

/-!
# Reading TOML documents

`Toml.read?` reads a document line by line and builds the table that the lines
describe. Values go on over several lines only inside lists and in text of
several lines. Lists and inline tables are nested less than eighty deep, and
dotted keys have less than eighty names.
-/

namespace PromptDoc.Toml

/-- The bound on nesting and on the names of a dotted key. -/
def depthLimit : Nat := 80

def isKeyChar (c : Char) : Bool :=
  c.isAlphanum || c = '_' || c = '-'

def readName? (cs : List Char) : Option (String × List Char) :=
  match cs with
  | [] => none
  | c :: rest =>
    if c = '"' then readLine? c true (rest.length + 1) [] rest
    else if isMark c then readLine? c false (rest.length + 1) [] rest
    else if isKeyChar c then
      some (String.ofList (cs.takeWhile isKeyChar), cs.dropWhile isKeyChar)
    else none

/-- Reads a key from the front: names with dots between them. Blanks around
the names do not count. -/
def readKey? : (fuel : Nat) → List Char → Option (List String × List Char)
  | 0, _ => none
  | fuel + 1, cs =>
    match readName? (cs.dropWhile isBlank) with
    | none => none
    | some (name, rest) =>
      match rest.dropWhile isBlank with
      | '.' :: rest => (readKey? fuel rest).map fun (names, rest) => (name :: names, rest)
      | rest => some ([name], rest)

/-- Skips blanks, breaks and comments; `inComment` says whether a comment has
begun. -/
def skipSpace : (inComment : Bool) → List Char → List Char
  | _, [] => []
  | _, '\r' :: '\n' :: rest => skipSpace false rest
  | inComment, c :: rest =>
    if c = '\n' then skipSpace false rest
    else if (inComment && isVisible c) || isBlank c then skipSpace inComment rest
    else if !inComment && c = '#' then skipSpace true rest
    else c :: rest

/-- Reads an unquoted value from the front. A blank may take the place of the T
between a date and a time. -/
def readToken? (cs : List Char) : Option (Toml × List Char) :=
  let token := cs.takeWhile (!endsToken ·)
  let rest := cs.dropWhile (!endsToken ·)
  match rest with
  | ' ' :: after =>
    let second := after.takeWhile (!endsToken ·)
    match Moment.isDate token, Moment.text? (token ++ 'T' :: second) with
    | true, some moment =>
      some (.text (String.ofList moment), after.dropWhile (!endsToken ·))
    | _, _ => (ofToken? token).map (·, rest)
  | _ => (ofToken? token).map (·, rest)

mutual

/-- Reads a value from the front; `depth` bounds the nesting. -/
def readValue? : (fuel depth : Nat) → List Char → Option (Toml × List Char)
  | 0, _, _ => none
  | _ + 1, _, [] => none
  | fuel + 1, depth, c :: rest =>
    if isMark c then (readQuoted? c rest).map fun (s, rest) => (.text s, rest)
    else if c = '[' then
      if depth ≤ 1 then none
      else (readItems? fuel (depth - 1) rest).map fun (vs, rest) => (.list vs, rest)
    else if c = '\x7b' then
      if depth ≤ 1 then none
      else match rest.dropWhile isBlank with
        | '\x7d' :: rest => some (.table [], rest)
        | rest => (readPairs? fuel (depth - 1) rest).bind fun (pairs, rest) =>
            (ofPairs? pairs).map (·, rest)
    else readToken? (c :: rest)

/-- Reads the items of a list up to its closing bracket. A comma may follow the
last item. -/
def readItems? : (fuel depth : Nat) → List Char → Option (List Toml × List Char)
  | 0, _, _ => none
  | fuel + 1, depth, cs =>
    match skipSpace false cs with
    | ']' :: rest => some ([], rest)
    | cs =>
      match readValue? fuel depth cs with
      | none => none
      | some (v, rest) =>
        match skipSpace false rest with
        | ',' :: rest => (readItems? fuel depth rest).map fun (vs, rest) => (v :: vs, rest)
        | ']' :: rest => some ([v], rest)
        | _ => none

/-- Reads the pairs of an inline table up to its closing brace. No comma
follows the last pair. -/
def readPairs? : (fuel depth : Nat) → List Char →
    Option (List (List String × Toml) × List Char)
  | 0, _, _ => none
  | fuel + 1, depth, cs =>
    match readKey? (depthLimit - 1) cs with
    | some (path, '=' :: rest) =>
      match readValue? fuel depth (rest.dropWhile isBlank) with
      | none => none
      | some (v, rest) =>
        match rest.dropWhile isBlank with
        | ',' :: rest =>
          (readPairs? fuel depth rest).map fun (pairs, rest) => ((path, v) :: pairs, rest)
        | '\x7d' :: rest => some ([(path, v)], rest)
        | _ => none
    | _ => none

end

/-- What follows the end of a line, at which blanks and a comment may stand. -/
def endLine? (cs : List Char) : Option (List Char) :=
  let rest := match cs.dropWhile isBlank with
    | '#' :: rest => rest.dropWhile isVisible
    | rest => rest
  match rest with
  | [] => some []
  | rest => afterBreak? rest

/-- Reads a header or a pair from the front, up to the end of its line. -/
def readLineAt? (cs : List Char) : Option (Line × List Char) := do
  match cs with
  | '[' :: '[' :: rest =>
    let (path, rest) ← readKey? (depthLimit - 1) rest
    match rest with
    | ']' :: ']' :: rest => (endLine? rest).map (Line.item path, ·)
    | _ => none
  | '[' :: rest =>
    let (path, rest) ← readKey? (depthLimit - 1) rest
    match rest with
    | ']' :: rest => (endLine? rest).map (Line.table path, ·)
    | _ => none
  | _ =>
    let (path, rest) ← readKey? (depthLimit - 1) cs
    match rest with
    | '=' :: rest =>
      let (v, rest) ← readValue? (rest.length + 1) depthLimit (rest.dropWhile isBlank)
      (endLine? rest).map (Line.pair path v, ·)
    | _ => none

def readLines? : (fuel : Nat) → List Char → Option (List Line)
  | 0, _ => none
  | fuel + 1, cs =>
    match skipSpace false cs with
    | [] => some []
    | cs =>
      match readLineAt? cs with
      | none => none
      | some (line, rest) => (readLines? fuel rest).map (line :: ·)

/-- The table that a document describes. A byte order mark at its start does not
count. -/
def read? (cs : List Char) : Option Toml :=
  let cs := match cs with
    | '\ufeff' :: rest => rest
    | cs => cs
  (readLines? (cs.length + 1) cs).bind ofLines?

end PromptDoc.Toml
