import PromptDoc.Decimal.Notation
import PromptDoc.Decimal.Reading
import PromptDoc.Json.Printer

/-!
# The values of scalars

`Scalar.ofPlain?` gives the value of a plain scalar: null, a truth value, a
number or the text itself. The reader uses it to understand scalars and the
writer to find the strings that have to be quoted.
-/

namespace PromptDoc.Yaml

/-- A number of a YAML document. -/
inductive Number where
  | int (n : Int)
  | float (x : Binary64)
  | infinity (negative : Bool)
  | nan
deriving DecidableEq

namespace Number

/-- The written form of a number, as it appears in messages and in keys. -/
def text : Number → List Char
  | .int n => Json.intText n
  | .float x => x.keyText
  | .infinity true => ['-', '.', 'i', 'n', 'f']
  | .infinity false => ['.', 'i', 'n', 'f']
  | .nan => ['.', 'n', 'a', 'n']

/-- Equality of numbers as mapping keys: an integer never equals a double, the
two zeros are equal, and so are two numbers that are not numbers. -/
def sameKey : Number → Number → Bool
  | .int a, .int b => a == b
  | .float a, .float b => a.sameNumber b
  | .infinity a, .infinity b => a == b
  | .nan, .nan => true
  | _, _ => false

end Number

/-- The value of a scalar. -/
inductive Scalar where
  | null
  | bool (b : Bool)
  | number (n : Number)
  | text (s : List Char)
deriving DecidableEq

namespace Scalar

def isNullWord (s : List Char) : Bool :=
  s ∈ ["~".toList, "null".toList, "Null".toList, "NULL".toList]

def boolWord? (s : List Char) : Option Bool :=
  if s ∈ ["true".toList, "True".toList, "TRUE".toList] then some true
  else if s ∈ ["false".toList, "False".toList, "FALSE".toList] then some false
  else none

def dropSign : List Char → List Char
  | '-' :: s => s
  | '+' :: s => s
  | s => s

/-- Digits after a leading zero: such text is never a number. -/
def isZeroPadded (s : List Char) : Bool :=
  match dropSign s with
  | '0' :: c :: rest => (c :: rest).all Char.isDigit
  | _ => false

/-- The base that a mark such as `0x` announces, and the digits after it. -/
def markedBase? : List Char → Option (Nat × List Char)
  | '0' :: 'x' :: rest => some (16, rest)
  | '0' :: 'o' :: rest => some (8, rest)
  | '0' :: 'b' :: rest => some (2, rest)
  | _ => none

def natural? (s : List Char) : Option Nat :=
  match markedBase? s with
  | some (base, digits) => Digits.read? base digits
  | none => Digits.read? 10 s

/-- The integer that the text spells: an optional sign, an optional base mark
and digits. -/
def integer? (s : List Char) : Option Int :=
  if isZeroPadded s then none
  else match s with
    | '-' :: rest => (natural? rest).map fun n => -(n : Int)
    | '+' :: rest => (natural? rest).map Int.ofNat
    | rest => (natural? rest).map Int.ofNat

/-- What is left of the text without one plus sign; none when another sign
follows it. -/
def withoutPlus? : List Char → Option (List Char)
  | '+' :: '+' :: _ => none
  | '+' :: '-' :: _ => none
  | '+' :: s => some s
  | s => some s

/-- The double that the text spells, infinities and not-a-number included. -/
def float? (s : List Char) : Option Number :=
  match withoutPlus? s with
  | none => none
  | some t =>
    if t ∈ [".inf".toList, ".Inf".toList, ".INF".toList] then some (.infinity false)
    else if s ∈ ["-.inf".toList, "-.Inf".toList, "-.INF".toList] then some (.infinity true)
    else if s ∈ [".nan".toList, ".NaN".toList, ".NAN".toList] then some .nan
    else (Binary64.read? t).map .float

/-- How the size of an integer decides its value: 64 bits hold it, 128 bits
would, or it is beyond both. -/
inductive Width where
  | word
  | double
  | beyond
deriving DecidableEq

/-- The width of an integer, signed or unsigned. -/
def width (n : Int) : Width :=
  if PromptDoc.Width.fitsWord n then .word
  else if PromptDoc.Width.fitsDoubleWord n then .double
  else .beyond

/-- The integer that a scalar denotes, if it spells one of at most 128 bits:
those that need more than 64 are an error. -/
inductive IntegerReading where
  | value (n : Int)
  | tooWide
  | other
deriving DecidableEq

def integerReading (s : List Char) : IntegerReading :=
  match integer? s with
  | none => .other
  | some n =>
    match width n with
    | .word => .value n
    | .double => .tooWide
    | .beyond => .other

/-- The value of a plain scalar; none for an integer that needs more than 64
but at most 128 bits. -/
def ofPlain? (s : List Char) : Option Scalar :=
  if s.isEmpty || isNullWord s then some .null
  else match boolWord? s with
    | some b => some (.bool b)
    | none =>
      match integerReading s with
      | .value n => some (.number (.int n))
      | .tooWide => none
      | .other =>
        if isZeroPadded s then some (.text s)
        else match float? s with
          | some n => some (.number n)
          | none => some (.text s)

/-- Whether a plain scalar with this text is read back as the text itself. -/
def staysText (s : List Char) : Bool :=
  ofPlain? s = some (.text s) && !isZeroPadded s

end Scalar

end PromptDoc.Yaml
