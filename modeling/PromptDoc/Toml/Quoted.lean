import PromptDoc.Decimal.Reading

/-!
# Quoted text in TOML

A text is quoted with one or three quotation marks, where a backslash starts an
escape, or with one or three apostrophes, where nothing does. Three marks let
the text go on over several lines.
-/

namespace PromptDoc.Toml

def isBlank (c : Char) : Bool :=
  c = ' ' || c = '\t'

/-- Characters that may stand in comments and, but for the marks, in quoted
text: all but control characters other than the tab. -/
def isVisible (c : Char) : Bool :=
  c = '\t' || (0x20 ≤ c.toNat && c.toNat ≠ 0x7F)

def afterBreak? : List Char → Option (List Char)
  | '\n' :: rest => some rest
  | '\r' :: '\n' :: rest => some rest
  | _ => none

def dropBlankLines : List Char → List Char
  | [] => []
  | '\r' :: '\n' :: rest => dropBlankLines rest
  | c :: rest => if isBlank c || c = '\n' then dropBlankLines rest else c :: rest

/-- The character with a number written in so many hexadecimal digits. -/
def readCode? (count : Nat) (cs : List Char) : Option (Char × List Char) :=
  match Digits.read? 16 (cs.take count) with
  | some n =>
    if (cs.take count).length = count ∧ n.isValidChar then some (Char.ofNat n, cs.drop count)
    else none
  | none => none

/-- The character that an escape stands for, after its backslash. -/
def readEscape? : List Char → Option (Char × List Char)
  | [] => none
  | c :: rest =>
    if c = 'b' then some ('\x08', rest)
    else if c = 't' then some ('\t', rest)
    else if c = 'n' then some ('\n', rest)
    else if c = 'f' then some ('\x0c', rest)
    else if c = 'r' then some ('\r', rest)
    else if c = '"' ∨ c = '\\' then some (c, rest)
    else if c = 'u' then readCode? 4 rest
    else if c = 'U' then readCode? 8 rest
    else none

/-- Reads a text on one line after its opening mark; `escapes` says whether a
backslash starts an escape, and `seen` holds what was read, last first. -/
def readLine? (mark : Char) (escapes : Bool) :
    (fuel : Nat) → (seen : List Char) → List Char → Option (String × List Char)
  | 0, _, _ => none
  | _ + 1, _, [] => none
  | fuel + 1, seen, c :: rest =>
    if c = mark then some (String.ofList seen.reverse, rest)
    else if escapes && c = '\\' then
      match readEscape? rest with
      | some (d, rest) => readLine? mark escapes fuel (d :: seen) rest
      | none => none
    else if isVisible c then readLine? mark escapes fuel (c :: seen) rest
    else none

/-- What follows a backslash at the end of a line: the break and all blanks and
breaks after it are not part of the text. -/
def afterContinuation? (cs : List Char) : Option (List Char) :=
  (afterBreak? (cs.dropWhile isBlank)).map dropBlankLines

/-- Reads a text of several lines after its opening marks. Up to two marks more
than the three that close it belong to the text. -/
def readBlock? (mark : Char) (escapes : Bool) :
    (fuel : Nat) → (seen : List Char) → List Char → Option (String × List Char)
  | 0, _, _ => none
  | _ + 1, _, [] => none
  | fuel + 1, seen, c :: rest =>
    if c = mark then
      let marks := (c :: rest).takeWhile (· = mark)
      let rest := rest.dropWhile (· = mark)
      if marks.length < 3 then readBlock? mark escapes fuel (marks ++ seen) rest
      else if marks.length ≤ 5 then
        some (String.ofList (marks.drop 3 ++ seen).reverse, rest)
      else none
    else if escapes && c = '\\' then
      match afterContinuation? rest with
      | some rest => readBlock? mark escapes fuel seen rest
      | none =>
        match readEscape? rest with
        | some (d, rest) => readBlock? mark escapes fuel (d :: seen) rest
        | none => none
    else match afterBreak? (c :: rest) with
      | some rest => readBlock? mark escapes fuel ('\n' :: seen) rest
      | none => if isVisible c then readBlock? mark escapes fuel (c :: seen) rest else none

/-- Reads a quoted text from the front, after its first mark. -/
def readQuoted? (mark : Char) (rest : List Char) : Option (String × List Char) :=
  let escapes := mark = '"'
  match rest with
  | a :: b :: rest =>
    if a = mark && b = mark then
      readBlock? mark escapes (rest.length + 1) [] ((afterBreak? rest).getD rest)
    else readLine? mark escapes (rest.length + 3) [] (a :: b :: rest)
  | rest => readLine? mark escapes (rest.length + 1) [] rest

def isMark (c : Char) : Bool :=
  c = '"' || c = '\x27'

end PromptDoc.Toml
