/-!
# Character classes of YAML

The classes that decide how text is read and written. `isReadable` says which
characters may occur in a YAML text at all; `isPrintable` says which ones the
writer puts into a quoted or plain scalar as they are. Every printable
character is readable and is no line break.
-/

namespace PromptDoc.Yaml

def isBlank (c : Char) : Bool :=
  c = ' ' || c = '\t'

/-- A line break. Carriage returns and next-line characters are line breaks
too; the reader turns them into line feeds before anything else. -/
def isBreak (c : Char) : Bool :=
  c = '\n' || c = '\r' || c = '\u0085' || c = '\u2028' || c = '\u2029'

def byteOrderMark : Char := '\ufeff'

/-- Whether the character may occur in a YAML text. -/
def isReadable (c : Char) : Bool :=
  let n := c.toNat
  n = 0x09 || n = 0x0A || n = 0x0D || (0x20 ≤ n && n ≤ 0x7E) || n = 0x85 ||
    (0xA0 ≤ n && n ≤ 0xD7FF) || (0xE000 ≤ n && n ≤ 0xFFFD) || 0x10000 ≤ n

/-- Whether the character may stand for itself on one line of text. -/
def isPrintable (c : Char) : Bool :=
  let n := c.toNat
  (0x20 ≤ n && n ≤ 0x7E) ||
    (0xA0 ≤ n && n ≤ 0xD7FF && n ≠ 0x2028 && n ≠ 0x2029) ||
    (0xE000 ≤ n && n ≤ 0xFFFD && n ≠ 0xFEFF) || 0x10000 ≤ n

/-- Letters, digits, hyphen and underscore: what names of anchors, directives
and tag handles consist of. -/
def isWordChar (c : Char) : Bool :=
  c.isAlphanum || c = '-' || c = '_'

/-- Characters that open something other than a plain scalar. -/
def isIndicator (c : Char) : Bool :=
  c ∈ ['-', '?', ':', ',', '[', ']', '\x7b', '\x7d', '#', '&', '*', '!', '|', '>', '\'', '"',
    '%', '@', '\x60']

/-- Whether the text is at its end or at a blank or a line break. -/
def atGap : List Char → Bool
  | [] => true
  | c :: _ => isBlank c || isBreak c

/-- Whether the text starts with three given characters followed by a gap, as
the markers between documents do. -/
def startsMarker (c : Char) : List Char → Bool
  | a :: b :: d :: rest => a = c && b = c && d = c && atGap rest
  | _ => false

end PromptDoc.Yaml
