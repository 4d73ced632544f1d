import PromptDoc.Toml.Quoted

/-!
# Writing TOML text

`Toml.quote` writes a text. Apostrophes are the marks where the text holds a
quotation mark or a backslash and can do without escapes; quotation marks and
escapes serve all other texts. A text with a line feed gets three marks and
starts on a line of its own.
-/

namespace PromptDoc.Toml

/-- The length of the longest run of apostrophes, the run `run` so far
included. -/
def longestApostrophes : (run : Nat) → List Char → Nat
  | run, [] => run
  | run, c :: rest =>
    if c = '\x27' then longestApostrophes (run + 1) rest
    else max run (longestApostrophes 0 rest)

/-- Whether a text is written between apostrophes. -/
def isLiteral (cs : List Char) : Bool :=
  cs.any (fun c => c = '"' || c = '\\') && cs.all (fun c => isVisible c || c = '\n') &&
    longestApostrophes 0 cs < 3 && cs.getLast? != some '\x27'

/-- A character below `0x80` as an escape of four hexadecimal digits. -/
def codeEscape (c : Char) : List Char :=
  let digits := (Nat.toDigits 16 c.toNat).map Char.toUpper
  '\\' :: 'u' :: (List.replicate (4 - digits.length) '0' ++ digits)

/-- A character between quotation marks; in text of several lines a line feed
stands for itself. -/
def escapeChar (lines : Bool) (c : Char) : List Char :=
  if c = '\x08' then ['\\', 'b']
  else if c = '\t' then ['\\', 't']
  else if c = '\n' then if lines then ['\n'] else ['\\', 'n']
  else if c = '\x0c' then ['\\', 'f']
  else if c = '\r' then ['\\', 'r']
  else if c = '"' then ['\\', '"']
  else if c = '\\' then ['\\', '\\']
  else if c.toNat < 0x20 || c.toNat = 0x7F then codeEscape c
  else [c]

def quote (s : String) : String :=
  let cs := s.toList
  let lines := cs.contains '\n'
  if isLiteral cs then
    let mark := if lines || cs.contains '\x27' then "'''" else "'"
    mark ++ (if lines then "\n" else "") ++ s ++ mark
  else
    let mark := if lines then "\"\"\"" else "\""
    mark ++ (if lines then "\n" else "") ++ String.ofList (cs.flatMap (escapeChar lines)) ++ mark

/-- The written form of a list of texts: on one line up to one text, and with a
line for every text beyond. -/
def quoteList : List String → String
  | [] => "[]"
  | [s] => "[" ++ quote s ++ "]"
  | texts => "[\n" ++ "".intercalate (texts.map fun s => "    " ++ quote s ++ ",\n") ++ "]"

end PromptDoc.Toml
