import PromptDoc.Decimal.Notation
import PromptDoc.Decimal.Reading

/-!
# Doubles with infinities

`Extended` adds the infinities and the value that is no number to the finite
doubles. A numeral too large for a finite double denotes an infinity.
-/

namespace PromptDoc

/-- A double, finite or not. -/
inductive Extended where
  | finite (x : Binary64)
  | infinite (negative : Bool)
  | nan
deriving DecidableEq

namespace Extended

/-- Whether the number is zero, of either sign. -/
def isZero : Extended → Bool
  | .finite x => x.isZero
  | _ => false

def ofNumeral (n : Numeral) : Extended :=
  match n.toBinary64? with
  | some x => .finite x
  | none => .infinite n.negative

/-- The value that a word denotes, in letters of either case. -/
def ofWord? (negative : Bool) (word : List Char) : Option Extended :=
  let word := word.map Char.toLower
  if word = "inf".toList ∨ word = "infinity".toList then some (.infinite negative)
  else if word = "nan".toList then some .nan
  else none

def read? (cs : List Char) : Option Extended :=
  match Numeral.read? cs with
  | some n => some (ofNumeral n)
  | none =>
    let (negative, word) := Numeral.takeSign cs
    ofWord? negative word

/-- The number in full, without an exponent and with a fraction only where
there is one. -/
def text : Extended → List Char
  | .finite x =>
    let written := x.positional
    if x.shortest.exponent < 0 then written else written.take (written.length - 2)
  | .infinite true => "-inf".toList
  | .infinite false => "inf".toList
  | .nan => "NaN".toList

end Extended

end PromptDoc
