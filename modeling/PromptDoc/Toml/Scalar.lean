import PromptDoc.Decimal.Width
import PromptDoc.Toml.Moment
import PromptDoc.Toml.Value

/-!
# Unquoted values in TOML

Truth values, numbers and moments are written without quotation marks. Such a
value is a run of characters up to a blank, a break, a comma, a closing bracket
or a comment; `ofToken?` gives the value of a run.
-/

namespace PromptDoc.Toml

def endsToken (c : Char) : Bool :=
  c ∈ [' ', '\t', '\n', '\r', ',', ']', '\x7d', '#']

/-- Digits in a base, without the underscores that may stand one by one between
them. -/
def digits? (base : Nat) : List Char → Option (List Char)
  | [] => none
  | [c] => (Digits.value? base c).map fun _ => [c]
  | c :: '_' :: rest => (Digits.value? base c).bind fun _ => (digits? base rest).map (c :: ·)
  | c :: rest => (Digits.value? base c).bind fun _ => (digits? base rest).map (c :: ·)

/-- Decimal digits of a whole number: only zero itself starts with zero. -/
def wholeDigits? (cs : List Char) : Option (List Char) :=
  match cs with
  | '0' :: _ :: _ => none
  | cs => digits? 10 cs

/-- A natural number in decimal, or with a mark for another base in front. -/
def natural? : List Char → Option Nat
  | '0' :: 'x' :: cs => (digits? 16 cs).bind (Digits.read? 16)
  | '0' :: 'o' :: cs => (digits? 8 cs).bind (Digits.read? 8)
  | '0' :: 'b' :: cs => (digits? 2 cs).bind (Digits.read? 2)
  | cs => (wholeDigits? cs).bind (Digits.read? 10)

/-- An integer of 64 bits. Only decimal numbers carry a sign. -/
def integer? (cs : List Char) : Option Int :=
  let value : Option Int := match cs with
    | '-' :: rest => ((wholeDigits? rest).bind (Digits.read? 10)).map fun n => -(n : Int)
    | '+' :: rest => ((wholeDigits? rest).bind (Digits.read? 10)).map Int.ofNat
    | rest => (natural? rest).map Int.ofNat
  value.bind fun n => if Width.fitsSigned n then some n else none

/-- An exponent that takes up the whole text, if there is any text. -/
def exponent? : List Char → Option (List Char)
  | [] => some []
  | c :: cs =>
    if c = 'e' ∨ c = 'E' then
      match cs with
      | '-' :: ds => (digits? 10 ds).map fun ds => 'e' :: '-' :: ds
      | '+' :: ds => (digits? 10 ds).map ('e' :: ·)
      | ds => (digits? 10 ds).map ('e' :: ·)
    else none

/-- A fraction and an exponent that take up the whole text; there has to be one
of them. -/
def fractionAndExponent? : List Char → Option (List Char)
  | '.' :: cs => do
    let digits ← digits? 10 (cs.takeWhile fun c => c.isDigit || c = '_')
    let power ← exponent? (cs.dropWhile fun c => c.isDigit || c = '_')
    some ('.' :: (digits ++ power))
  | [] => none
  | cs => exponent? cs

/-- The number with a fraction or an exponent after its sign. A number may be
too small for a double, but not too large. -/
def unsignedFloat? (negative : Bool) (cs : List Char) : Option Extended := do
  let whole ← wholeDigits? (cs.takeWhile fun c => c.isDigit || c = '_')
  let rest ← fractionAndExponent? (cs.dropWhile fun c => c.isDigit || c = '_')
  let numeral ← Numeral.read? (whole ++ rest)
  let value := Extended.ofNumeral { numeral with negative := negative }
  if value = .infinite false then none else some value

/-- A number with a fraction or an exponent, an infinity, or the word for no
number. -/
def float? (cs : List Char) : Option Extended :=
  let (negative, rest) := Numeral.takeSign cs
  if rest = "inf".toList then some (.infinite negative)
  else if rest = "nan".toList then some .nan
  else unsignedFloat? negative rest

def ofToken? (cs : List Char) : Option Toml :=
  if cs = "true".toList then some (.bool true)
  else if cs = "false".toList then some (.bool false)
  else match Moment.text? cs, float? cs, integer? cs with
    | some moment, _, _ => some (.text (String.ofList moment))
    | none, some x, _ => some (.float x)
    | none, none, some n => some (.int n)
    | none, none, none => none

end PromptDoc.Toml
