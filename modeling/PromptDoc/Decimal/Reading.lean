import PromptDoc.Decimal.Binary64

/-!
# Reading decimal text

`readFloat?` reads an optional sign, digits with an optional point, and an
optional exponent. At least one digit has to stand before or after the point.
The value is the nearest double; text that denotes no finite double is refused.
-/

namespace PromptDoc

namespace Digits

/-- The value of a digit in a base up to sixteen, letters of either case. -/
def value? (base : Nat) (c : Char) : Option Nat :=
  let v :=
    if '0' ≤ c ∧ c ≤ '9' then c.toNat - '0'.toNat
    else if 'a' ≤ c ∧ c ≤ 'f' then c.toNat - 'a'.toNat + 10
    else if 'A' ≤ c ∧ c ≤ 'F' then c.toNat - 'A'.toNat + 10
    else base
  if v < base then some v else none

/-- The number written by `cs` after the digits already read. -/
def readFrom? (base : Nat) : Nat → List Char → Option Nat
  | n, [] => some n
  | n, c :: cs =>
    match value? base c with
    | some v => readFrom? base (n * base + v) cs
    | none => none

def read? (base : Nat) : List Char → Option Nat
  | [] => none
  | cs => readFrom? base 0 cs

/-- The value of decimal digits; anything else counts as the digit it is not
and does not occur where this is used. -/
def decimal (cs : List Char) : Nat :=
  cs.foldl (fun n c => n * 10 + (c.toNat - '0'.toNat)) 0

end Digits

/-- The parts of a decimal numeral. -/
structure Numeral where
  negative : Bool
  whole : List Char
  fraction : List Char
  exponent : Int
deriving Inhabited

namespace Numeral

/-- Splits an optional sign off; true stands for minus. -/
def takeSign : List Char → Bool × List Char
  | '-' :: cs => (true, cs)
  | '+' :: cs => (false, cs)
  | cs => (false, cs)

/-- An exponent part that takes up the whole rest of the text. -/
def exponent? : List Char → Option Int
  | [] => some 0
  | c :: cs =>
    if c = 'e' ∨ c = 'E' then
      let (negative, ds) := takeSign cs
      if ds ≠ [] ∧ ds.all Char.isDigit then
        let n : Int := Digits.decimal ds
        some (if negative then -n else n)
      else none
    else none

def read? (cs : List Char) : Option Numeral :=
  let (negative, rest) := takeSign cs
  let whole := rest.takeWhile Char.isDigit
  let rest := rest.dropWhile Char.isDigit
  let (fraction, rest) := match rest with
    | '.' :: r => (r.takeWhile Char.isDigit, r.dropWhile Char.isDigit)
    | r => ([], r)
  if whole.isEmpty && fraction.isEmpty then none
  else (exponent? rest).map fun e => ⟨negative, whole, fraction, e⟩

/-- The nearest double; `none` when it would be infinite. -/
def toBinary64? (n : Numeral) : Option Binary64 :=
  Binary64.ofDecimal? n.negative (Digits.decimal (n.whole ++ n.fraction))
    (n.exponent - n.fraction.length)

end Numeral

def Binary64.read? (cs : List Char) : Option Binary64 :=
  (Numeral.read? cs).bind Numeral.toBinary64?

end PromptDoc
