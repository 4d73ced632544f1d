/-!
# Finite binary64 numbers

A finite double is a sign, a significand below `2 ^ 53` and a power of two.
The representation is canonical: either the significand has all its 53 bits
or the exponent is the least one, so two numbers with the same sign and
magnitude are the same triple. All arithmetic is on natural numbers; nothing
here depends on floating point hardware.

`Binary64.ofRatio?` rounds a quotient of naturals to the nearest double, ties
to the even significand, and `Binary64.ofDecimal?` does so for a decimal.
-/

namespace PromptDoc

/-- The significand and exponent of a finite double in canonical form. -/
def Binary64.Canonical (significand : Nat) (exponent : Int) : Prop :=
  significand < 0x20000000000000 ∧ -1074 ≤ exponent ∧ exponent ≤ 971 ∧
    (0x10000000000000 ≤ significand ∨ exponent = -1074)

instance (significand : Nat) (exponent : Int) :
    Decidable (Binary64.Canonical significand exponent) := by
  unfold Binary64.Canonical
  infer_instance

/-- A finite double: `significand * 2 ^ exponent` with a sign. -/
structure Binary64 where
  negative : Bool
  significand : Nat
  exponent : Int
  canonical : Binary64.Canonical significand exponent
deriving DecidableEq

namespace Binary64

def zero (negative : Bool) : Binary64 :=
  ⟨negative, 0, -1074, by unfold Canonical; decide⟩

instance : Inhabited Binary64 := ⟨zero false⟩

/-- The double with the given parts, when they are canonical. -/
def ofParts? (negative : Bool) (significand : Nat) (exponent : Int) : Option Binary64 :=
  if h : Canonical significand exponent then
    some ⟨negative, significand, exponent, h⟩
  else
    none

/-- `a / b` rounded to the nearest natural number, a half to the even one. -/
def roundHalfEven (a b : Nat) : Nat :=
  let q := a / b
  let r := a % b
  if 2 * r < b then q
  else if b < 2 * r then q + 1
  else q + q % 2

/-- The quotient `a / (b * 2 ^ e)` as a pair of naturals. -/
def scaledQuotient (a b : Nat) (e : Int) : Nat × Nat :=
  if 0 ≤ e then (a, b * Nat.pow 2 e.toNat) else (a * Nat.pow 2 (-e).toNat, b)

/-- The greatest `k` with `2 ^ k ≤ a / b`, for positive `a` and `b`. -/
def binaryExponent (a b : Nat) : Int :=
  let k : Int := (a.log2 : Int) - (b.log2 : Int)
  let (x, y) := scaledQuotient a b k
  if y ≤ x then k else k - 1

/-- The double nearest to `a / b`; `none` when it would be infinite. -/
def ofRatio? (negative : Bool) (a b : Nat) : Option Binary64 :=
  if a = 0 then some (zero negative)
  else
    let e := max (binaryExponent a b - 52) (-1074)
    let (x, y) := scaledQuotient a b e
    let m := roundHalfEven x y
    if m = 0x20000000000000 then ofParts? negative 0x10000000000000 (e + 1)
    else ofParts? negative m e

/-- The number of decimal digits of `n`; zero has one. -/
def digitCount (n : Nat) : Nat :=
  (Nat.toDigits 10 n).length

/-- The double nearest to `coefficient * 10 ^ exponent`; `none` when it would
be infinite. Decimals far outside the range are settled by their magnitude
alone, so the powers computed stay small. -/
def ofDecimal? (negative : Bool) (coefficient : Nat) (exponent : Int) : Option Binary64 :=
  let magnitude : Int := exponent + digitCount coefficient
  if coefficient = 0 then some (zero negative)
  else if 400 < magnitude then none
  else if magnitude < -400 then some (zero negative)
  else if 0 ≤ exponent then ofRatio? negative (coefficient * Nat.pow 10 exponent.toNat) 1
  else ofRatio? negative coefficient (Nat.pow 10 (-exponent).toNat)

/-- Whether the number is zero, of either sign. -/
def isZero (x : Binary64) : Bool :=
  x.significand == 0

/-- Numeric equality: the two zeros are equal. -/
def sameNumber (x y : Binary64) : Bool :=
  x == y || (x.isZero && y.isZero)

/-- The integer that the number denotes, if it denotes one. -/
def toInt? (x : Binary64) : Option Int :=
  let magnitude : Option Nat :=
    if 0 ≤ x.exponent then some (x.significand * Nat.pow 2 x.exponent.toNat)
    else
      let d := Nat.pow 2 (-x.exponent).toNat
      if x.significand % d = 0 then some (x.significand / d) else none
  magnitude.map fun (n : Nat) => if x.negative then -(n : Int) else (n : Int)

def ratio (x : Binary64) : Nat × Nat :=
  if 0 ≤ x.exponent then (x.significand * Nat.pow 2 x.exponent.toNat, 1)
  else (x.significand, Nat.pow 2 (-x.exponent).toNat)

end Binary64

end PromptDoc
