import PromptDoc.Text.Lines
import PromptDoc.Text.Space
import PromptDoc.Yaml.Document

/-!
# Front matter

A text with front matter starts with a line of three hyphens and goes on with a
YAML block, another line of three hyphens and a body. `Envelope.split?` takes
such a text apart, `Envelope.rejoin` puts it together around another block, and
`Envelope.load?` reads the block more leniently.
-/

namespace PromptDoc

/-- A text taken apart around its front matter. -/
structure Envelope where
  /-- What stands between the delimiters. -/
  block : List Char
  /-- The line break after the closing delimiter; empty at the end of the text. -/
  closing : List Char
  /-- The text after the closing delimiter's line. -/
  body : List Char
  /-- Whether lines end with a carriage return and a line feed. -/
  crlf : Bool
deriving DecidableEq

namespace Envelope

/-- Takes a line break from the front of a text. -/
def takeBreak? : List Char → Option (List Char × List Char)
  | '\r' :: '\n' :: rest => some (['\r', '\n'], rest)
  | '\n' :: rest => some (['\n'], rest)
  | _ => none

/-- Takes a delimiter's line from the front of a text: gives its line break,
which may be missing at the end of the text, and what follows. -/
def takeDelimiter? : List Char → Option (List Char × List Char)
  | '-' :: '-' :: '-' :: [] => some ([], [])
  | '-' :: '-' :: '-' :: rest => takeBreak? rest
  | _ => none

def closingAt? (s : List Char) : Option (List Char × List Char) :=
  (takeBreak? s).bind fun (_, rest) => takeDelimiter? rest

/-- The text before the first line break that a delimiter's line follows, the
break after the delimiter, and the text behind. -/
def splitBlock? : List Char → Option (List Char × List Char × List Char)
  | [] => none
  | c :: rest =>
    match closingAt? (c :: rest) with
    | some (closing, body) => some ([], closing, body)
    | none => (splitBlock? rest).map fun (block, after) => (c :: block, after)

/-- Takes a text with front matter apart. -/
def split? (text : List Char) : Option Envelope :=
  match takeDelimiter? text with
  | some (_ :: _, rest) =>
    (splitBlock? rest).map fun (block, closing, body) =>
      ⟨block, closing, body, Text.hasCrlf text⟩
  | _ => none

/-- Whether there is nothing but white space in the block. -/
def isBlank (e : Envelope) : Bool :=
  e.block.all Text.isSpace

/-- The line break of the text. -/
def lineBreak (e : Envelope) : List Char :=
  if e.crlf then ['\r', '\n'] else ['\n']

/-- A block that ends with a line feed. -/
def terminate (block : List Char) : List Char :=
  if block.getLast? = some '\n' then block else block ++ ['\n']

/-- The text with another block, whose line feeds are converted to the text's
own line breaks. -/
def rejoin (e : Envelope) (block : List Char) : List Char :=
  let block := terminate block
  ['-', '-', '-'] ++ e.lineBreak ++ (if e.crlf then Text.toCrlf block else block) ++
    ['-', '-', '-'] ++ e.closing ++ e.body

/-- Whether a line is a delimiter once white space at its end is gone. -/
def isDelimiter (line : List Char) : Bool :=
  Text.trimEnd line == ['-', '-', '-']

/-- The lines between the delimiters and those after them. -/
def splitLines? (text : List Char) : Option (List (List Char) × List (List Char)) :=
  match Text.lines text with
  | [] => none
  | first :: rest =>
    if isDelimiter first then
      match rest.dropWhile (!isDelimiter ·) with
      | [] => none
      | _ :: after => some (rest.takeWhile (!isDelimiter ·), after)
    else none

/-- The document in the front matter, and the body without blank lines at its
start. White space around the block and at the end of a delimiter's line does
not count, and all line breaks of the body become line feeds. -/
def load? (text : List Char) : Option (Json × List Char) :=
  match splitLines? text with
  | none => none
  | some (block, body) =>
    match Yaml.readChars (Text.trim (Text.unlines block)) with
    | .ok document => some (document, (Text.unlines body).dropWhile (· = '\n'))
    | .error _ => none

end Envelope

end PromptDoc
