import PromptDoc.Yaml.Character
import PromptDoc.Yaml.Scalar

/-!
# Strings on one line

`Quoted.text` writes a string as a plain scalar where YAML reads that back as
the same string, between single quotes where plain text would mean something
else, and between double quotes with escapes where a character cannot stand
for itself.
-/

namespace PromptDoc.Yaml.Quoted

/-- Characters that a plain scalar never starts with. -/
def opensOther (c : Char) : Bool :=
  c ∈ ['#', ',', '[', ']', '\x7b', '\x7d', '&', '*', '!', '|', '>', '\'', '"', '%', '@', '\x60']

/-- Whether plain text contains an indicator after its first character: a colon
before a gap or a number sign after a space. -/
def hasInnerIndicator : (previous : Char) → List Char → Bool
  | _, [] => false
  | previous, c :: rest =>
    (c = ':' && atGap rest) || (c = '#' && isBlank previous) || hasInnerIndicator c rest

def startsWithIndicator : List Char → Bool
  | [] => false
  | c :: rest => opensOther c || ((c = '-' || c = '?' || c = ':') && atGap rest)

/-- Whether the text starts with the marker of a document's start or end. -/
def startsWithMarker : List Char → Bool
  | '-' :: '-' :: '-' :: _ => true
  | '.' :: '.' :: '.' :: _ => true
  | _ => false

/-- Whether the string can be written as a plain scalar. -/
def plainSafe (s : List Char) : Bool :=
  Scalar.staysText s && !startsWithMarker s && !startsWithIndicator s &&
    !hasInnerIndicator 'x' s && s.head? != some ' ' && s.getLast? != some ' '

/-- The string between single quotes, each inner one doubled. -/
def single (s : List Char) : List Char :=
  '\'' :: (s.flatMap (fun c => if c = '\'' then ['\'', '\''] else [c]) ++ ['\''])

def hexDigit (n : Nat) : Char :=
  if n < 10 then Char.ofNat ('0'.toNat + n) else Char.ofNat ('A'.toNat + (n - 10))

/-- The last `width` hexadecimal digits of `n`. -/
def hex : (width : Nat) → (n : Nat) → List Char
  | 0, _ => []
  | width + 1, n => hex width (n / 16) ++ [hexDigit (n % 16)]

/-- The escapes that have a letter of their own. -/
def namedEscape? (c : Char) : Option Char :=
  if c = '\x00' then some '0'
  else if c = '\x07' then some 'a'
  else if c = '\x08' then some 'b'
  else if c = '\t' then some 't'
  else if c = '\n' then some 'n'
  else if c = '\x0b' then some 'v'
  else if c = '\x0c' then some 'f'
  else if c = '\r' then some 'r'
  else if c = '\x1b' then some 'e'
  else if c = '"' then some '"'
  else if c = '\\' then some '\\'
  else if c = '\u0085' then some 'N'
  else if c = '\u2028' then some 'L'
  else if c = '\u2029' then some 'P'
  else none

/-- The text of one character between double quotes. -/
def escape (c : Char) : List Char :=
  match namedEscape? c with
  | some letter => ['\\', letter]
  | none =>
    if isPrintable c then [c]
    else if c.toNat ≤ 0xFF then '\\' :: 'x' :: hex 2 c.toNat
    else if c.toNat ≤ 0xFFFF then '\\' :: 'u' :: hex 4 c.toNat
    else '\\' :: 'U' :: hex 8 c.toNat

/-- The string between double quotes. -/
def double (s : List Char) : List Char :=
  '"' :: (s.flatMap escape ++ ['"'])

/-- The text of a string on one line. -/
def text (s : List Char) : List Char :=
  if !s.all isPrintable then double s
  else if plainSafe s then s
  else single s

end PromptDoc.Yaml.Quoted
