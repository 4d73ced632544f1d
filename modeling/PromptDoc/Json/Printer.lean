import PromptDoc.Json.Value
import PromptDoc.Decimal.Notation

/-!
# Compact JSON text

`Json.compact` writes a value without spaces, fields in their own order. In
strings only the quote, the backslash and the characters below the space are
escaped; everything else stands for itself.
-/

namespace PromptDoc

namespace Json

def hexDigit (n : Nat) : Char :=
  if n < 10 then Char.ofNat ('0'.toNat + n) else Char.ofNat ('a'.toNat + (n - 10))

def escapeChar (c : Char) : List Char :=
  if c = '"' then ['\\', '"']
  else if c = '\\' then ['\\', '\\']
  else if c = '\n' then ['\\', 'n']
  else if c = '\r' then ['\\', 'r']
  else if c = '\t' then ['\\', 't']
  else if c = '\x08' then ['\\', 'b']
  else if c = '\x0c' then ['\\', 'f']
  else if c.toNat < 0x20 then
    ['\\', 'u', '0', '0', hexDigit (c.toNat / 16), hexDigit (c.toNat % 16)]
  else [c]

def quote (s : List Char) : List Char :=
  '"' :: (s.flatMap escapeChar ++ ['"'])

/-- The decimal text of an integer. -/
def intText (n : Int) : List Char :=
  if n < 0 then '-' :: Nat.toDigits 10 n.natAbs else Nat.toDigits 10 n.natAbs

mutual

def compactChars : Json → List Char
  | .null => ['n', 'u', 'l', 'l']
  | .bool true => ['t', 'r', 'u', 'e']
  | .bool false => ['f', 'a', 'l', 's', 'e']
  | .int n => intText n
  | .float x => x.text
  | .str s => quote s.toList
  | .arr items => '[' :: (compactItems items ++ [']'])
  | .obj fields => '\x7b' :: (compactFields fields ++ ['\x7d'])

/-- The items with commas between them. -/
def compactItems : List Json → List Char
  | [] => []
  | [x] => compactChars x
  | x :: y :: xs => compactChars x ++ ',' :: compactItems (y :: xs)

/-- The fields with commas between them. -/
def compactFields : List (String × Json) → List Char
  | [] => []
  | [(k, x)] => quote k.toList ++ ':' :: compactChars x
  | (k, x) :: f :: fs => quote k.toList ++ ':' :: (compactChars x ++ ',' :: compactFields (f :: fs))

end

def compact (v : Json) : String :=
  String.ofList v.compactChars

end Json

end PromptDoc
