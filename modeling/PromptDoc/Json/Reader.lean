import PromptDoc.Json.Value
import PromptDoc.Decimal.Reading

/-!
# Reading JSON text

`Json.read?` reads one JSON text. A repeated key keeps its first place and
takes its last value. A number without point and exponent is an integer when
it fits 64 bits, signed or unsigned, and a double otherwise; `-0` is the double
negative zero.
-/

namespace PromptDoc

namespace Json

/-- Drops the blanks that JSON allows between tokens. -/
def skipBlanks (cs : List Char) : List Char :=
  cs.dropWhile fun c => c = ' ' || c = '\t' || c = '\n' || c = '\r'

def readHex4? : List Char → Option (Nat × List Char)
  | a :: b :: c :: d :: rest => (Digits.read? 16 [a, b, c, d]).map (·, rest)
  | _ => none

/-- The character named after a backslash and `u`, a pair of surrogates
being one character. -/
def readUnicode? (cs : List Char) : Option (Char × List Char) :=
  match readHex4? cs with
  | none => none
  | some (high, rest) =>
    if 0xD800 ≤ high ∧ high < 0xDC00 then
      match rest with
      | '\\' :: 'u' :: rest =>
        match readHex4? rest with
        | some (low, rest) =>
          if 0xDC00 ≤ low ∧ low < 0xE000 then
            some (Char.ofNat (0x10000 + (high - 0xD800) * 0x400 + (low - 0xDC00)), rest)
          else none
        | none => none
      | _ => none
    else if 0xDC00 ≤ high ∧ high < 0xE000 then none
    else some (Char.ofNat high, rest)

/-- The character named by the escape after a backslash. -/
def readEscape? : List Char → Option (Char × List Char)
  | [] => none
  | c :: rest =>
    if c = 'n' then some ('\n', rest)
    else if c = 't' then some ('\t', rest)
    else if c = 'r' then some ('\r', rest)
    else if c = 'b' then some ('\x08', rest)
    else if c = 'f' then some ('\x0c', rest)
    else if c = '"' ∨ c = '\\' ∨ c = '/' then some (c, rest)
    else if c = 'u' then readUnicode? rest
    else none

/-- The rest of a string after its opening quote; `seen` holds the characters
read so far, last first. -/
def readString? : (fuel : Nat) → (seen : List Char) → List Char → Option (String × List Char)
  | 0, _, _ => none
  | _ + 1, _, [] => none
  | fuel + 1, seen, c :: rest =>
    if c = '"' then some (String.ofList seen.reverse, rest)
    else if c = '\\' then
      match readEscape? rest with
      | some (d, rest) => readString? fuel (d :: seen) rest
      | none => none
    else if c.toNat < 0x20 then none
    else readString? fuel (c :: seen) rest

/-- Whether the text is an integer literal: an optional minus and digits. -/
def isIntegerText : List Char → Bool
  | '-' :: cs => !cs.isEmpty && cs.all Char.isDigit
  | cs => !cs.isEmpty && cs.all Char.isDigit

def number? (cs : List Char) : Option Json :=
  let (negative, digits) := Numeral.takeSign cs
  if isIntegerText cs then
    let n : Int := if negative then -(Digits.decimal digits : Int) else Digits.decimal digits
    if negative ∧ n = 0 then some (.float (Binary64.zero true))
    else if Width.fitsWord n then some (.int n)
    else (Binary64.read? cs).map .float
  else (Binary64.read? cs).map .float

def isNumberChar (c : Char) : Bool :=
  c.isDigit || c = '-' || c = '+' || c = '.' || c = 'e' || c = 'E'

/-- Drops `word` from the front of the text. -/
def dropWord? : (word : List Char) → List Char → Option (List Char)
  | [], rest => some rest
  | _ :: _, [] => none
  | w :: ws, c :: cs => if w = c then dropWord? ws cs else none

mutual

def readValue? : (fuel : Nat) → List Char → Option (Json × List Char)
  | 0, _ => none
  | fuel + 1, text =>
    match skipBlanks text with
    | [] => none
    | c :: rest =>
      if c = '"' then
        (readString? (rest.length + 1) [] rest).map fun (s, rest) => (.str s, rest)
      else if c = '[' then
        match skipBlanks rest with
        | ']' :: rest => some (.arr [], rest)
        | rest => (readItems? fuel rest).map fun (items, rest) => (.arr items, rest)
      else if c = '\x7b' then
        match skipBlanks rest with
        | '\x7d' :: rest => some (.obj [], rest)
        | rest => (readFields? fuel [] rest).map fun (fields, rest) => (.obj fields, rest)
      else if c = 'n' then (dropWord? ['u', 'l', 'l'] rest).map (.null, ·)
      else if c = 't' then (dropWord? ['r', 'u', 'e'] rest).map (.bool true, ·)
      else if c = 'f' then (dropWord? ['a', 'l', 's', 'e'] rest).map (.bool false, ·)
      else
        let literal := (c :: rest).takeWhile isNumberChar
        (number? literal).map (·, (c :: rest).dropWhile isNumberChar)

/-- Reads the items of an array up to its closing bracket. -/
def readItems? : (fuel : Nat) → List Char → Option (List Json × List Char)
  | 0, _ => none
  | fuel + 1, text =>
    match readValue? fuel text with
    | none => none
    | some (item, rest) =>
      match skipBlanks rest with
      | ']' :: rest => some ([item], rest)
      | ',' :: rest => (readItems? fuel rest).map fun (items, rest) => (item :: items, rest)
      | _ => none

/-- Reads the fields of an object up to its closing brace, adding them to
those already read. -/
def readFields? : (fuel : Nat) → Fields → List Char → Option (Fields × List Char)
  | 0, _, _ => none
  | fuel + 1, fields, text =>
    match skipBlanks text with
    | '"' :: rest =>
      match readString? (rest.length + 1) [] rest with
      | none => none
      | some (key, rest) =>
        match skipBlanks rest with
        | ':' :: rest =>
          match readValue? fuel rest with
          | none => none
          | some (value, rest) =>
            match skipBlanks rest with
            | '\x7d' :: rest => some (fields.insert key value, rest)
            | ',' :: rest => readFields? fuel (fields.insert key value) rest
            | _ => none
        | _ => none
    | _ => none

end

def read? (text : String) : Option Json :=
  let cs := text.toList
  match readValue? (cs.length + 1) cs with
  | some (v, rest) => if (skipBlanks rest).isEmpty then some v else none
  | none => none

end Json

end PromptDoc
