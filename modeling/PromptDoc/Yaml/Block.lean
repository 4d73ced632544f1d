import PromptDoc.Text.Pieces
import PromptDoc.Text.Space
import PromptDoc.Yaml.Character

/-!
# Strings over several lines

A string with line feeds is written as a literal block, line for line, when
`Literal.fits` says that every line survives. A long string on one line is
written as a folded block: its words are put on lines as full as the width
allows, and a reader joins them again with single spaces.
-/

namespace PromptDoc.Yaml

def spaces (n : Nat) : List Char :=
  List.replicate n ' '

/-- A visible character or a space: no control character, no separator of
lines or paragraphs and no byte order mark. -/
def isGraphic (c : Char) : Bool :=
  let n := c.toNat
  !(n < 0x20 || (0x7F ≤ n && n < 0xA0) || n = 0x2028 || n = 0x2029 || n = 0xFEFF)

/-- What a literal block does with the line breaks at its end. -/
inductive Chomping where
  | strip
  | clip
  | keep
deriving DecidableEq

def Chomping.indicator : Chomping → List Char
  | .strip => ['-']
  | .clip => []
  | .keep => ['+']

namespace Literal

/-- Whether the string can be a literal block: something in it is visible, no
character is lost and no line starts with a tab, which would count as
indentation. -/
def fits (s : List Char) : Bool :=
  !s.all Text.isSpace &&
    s.all (fun c => c = '\n' || c = '\t' || isGraphic c) &&
    (Text.pieces '\n' s).all fun line => line.head? != some '\t'

/-- The chomping that a string needs, and the string without the line break
that the chomping gives back. -/
def chomp (s : List Char) : Chomping × List Char :=
  match s.reverse with
  | '\n' :: '\n' :: rest => (.keep, ('\n' :: rest).reverse)
  | '\n' :: rest => (.clip, rest.reverse)
  | _ => (.strip, s)

/-- Whether the first line that is not empty starts with a space, so that the
header has to give the indentation. -/
def needsIndentation (lines : List (List Char)) : Bool :=
  match lines.find? (fun line => !line.isEmpty) with
  | some (' ' :: _) => true
  | _ => false

/-- One line of the block: empty lines stay empty. -/
def line (column : Nat) (l : List Char) : List Char :=
  '\n' :: if l.isEmpty then [] else spaces column ++ l

/-- The block from its header to the end of its last line; `step` is the
indentation beyond the owner and `column` where the content starts. -/
def text (step column : Nat) (s : List Char) : List Char :=
  let (chomping, body) := chomp s
  let lines := Text.pieces '\n' body
  let digit := if needsIndentation lines then Nat.toDigits 10 step else []
  '|' :: (digit ++ chomping.indicator ++ lines.flatMap (line column))

end Literal

namespace Folded

/-- Whether the string can be folded at its spaces and read back: single
spaces between words only. -/
def fits (s : List Char) : Bool :=
  s.contains ' ' && (Text.pieces ' ' s).all (fun word => !word.isEmpty) && s.all isGraphic

/-- Puts words on lines of at most `budget` characters; a longer word has a
line of its own. `current` is the line being filled. -/
def fill (budget : Nat) : (current : List Char) → List (List Char) → List (List Char)
  | current, [] => [current]
  | current, word :: words =>
    if current.isEmpty then fill budget word words
    else if current.length + 1 + word.length ≤ budget then
      fill budget (current ++ ' ' :: word) words
    else current :: fill budget word words

def lines (budget : Nat) (s : List Char) : List (List Char) :=
  fill budget [] (Text.pieces ' ' s)

/-- The block from its header to the end of its last line. -/
def text (width column : Nat) (s : List Char) : List Char :=
  '>' :: '-' :: (lines (max 1 (width - column)) s).flatMap fun l => '\n' :: (spaces column ++ l)

end Folded

end PromptDoc.Yaml
