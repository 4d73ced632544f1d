import PromptDoc.Decimal.Shortest

/-!
# Written forms of doubles

Doubles are written with their shortest digits. `Binary64.text` is the form of
JSON and YAML values: positional while the first digit stands between the
fifth place after the point and the sixteenth before it, always with a
fraction, and scientific outside. `Binary64.positional` never uses an exponent.
-/

namespace PromptDoc

namespace Decimal

/-- The digits written out in full, with a fraction of at least one digit. -/
def positional (d : Decimal) : List Char :=
  let ds := d.digits
  if 0 ≤ d.exponent then
    ds ++ List.replicate d.exponent.toNat '0' ++ ['.', '0']
  else
    let places := (-d.exponent).toNat
    if places < ds.length then
      ds.take (ds.length - places) ++ '.' :: ds.drop (ds.length - places)
    else
      '0' :: '.' :: (List.replicate (places - ds.length) '0' ++ ds)

/-- One digit, the other digits after a point, and the exponent; `plus` says
whether a positive exponent carries its sign. -/
def scientific (plus : Bool) (d : Decimal) : List Char :=
  let fraction := match d.digits with
    | [] => []
    | [c] => [c]
    | c :: cs => c :: '.' :: cs
  let sign := if d.leading < 0 then ['-'] else if plus then ['+'] else []
  fraction ++ 'e' :: (sign ++ Nat.toDigits 10 d.leading.natAbs)

end Decimal

namespace Binary64

/-- The sign of a negative number, negative zero included. -/
def signText (x : Binary64) : List Char :=
  if x.negative then ['-'] else []

/-- The written form with a given sign policy for positive exponents. -/
def textWith (plus : Bool) (x : Binary64) : List Char :=
  let d := x.shortest
  x.signText ++
    if -5 ≤ d.leading ∧ d.leading < 16 then d.positional else d.scientific plus

/-- The written form of a number in JSON and YAML documents. -/
def text (x : Binary64) : List Char :=
  x.textWith true

/-- The written form of a number that has become a mapping key. -/
def keyText (x : Binary64) : List Char :=
  x.textWith false

/-- The number without an exponent, however large or small. -/
def positional (x : Binary64) : List Char :=
  x.signText ++ x.shortest.positional

end Binary64

end PromptDoc
