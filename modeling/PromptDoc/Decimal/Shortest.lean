import PromptDoc.Decimal.Binary64

/-!
# The shortest decimal of a double

`Binary64.shortest x` is the decimal with the fewest digits among those that
round to `x`, and the nearest to `x` among these; of two equally near ones it
is the one with the even last digit.

The decimals that round to `x` form an interval around `x`. For each number of
digits the two neighbours of `x` on the grid of decimals with so many digits
are tried, and the first grid with a neighbour inside the interval wins.
-/

namespace PromptDoc

/-- The decimal number `coefficient * 10 ^ exponent`. -/
structure Decimal where
  coefficient : Nat
  exponent : Int
deriving DecidableEq, Inhabited

namespace Decimal

/-- Moves trailing zeros of the coefficient into the exponent; `fuel` bounds
the number of zeros. -/
def stripZeros : Nat → Decimal → Decimal
  | 0, d => d
  | fuel + 1, d =>
    if d.coefficient ≠ 0 ∧ d.coefficient % 10 = 0 then
      stripZeros fuel ⟨d.coefficient / 10, d.exponent + 1⟩
    else d

def digits (d : Decimal) : List Char :=
  Nat.toDigits 10 d.coefficient

/-- The decimal exponent of the first digit. -/
def leading (d : Decimal) : Int :=
  d.exponent + (d.digits.length - 1 : Nat)

end Decimal

namespace Binary64

/-- The greatest `k` with `10 ^ k ≤ a / b`, for positive `a` and `b`. -/
def decimalExponent (a b : Nat) : Int :=
  if b ≤ a then (digitCount (a / b) - 1 : Nat)
  else -(digitCount ((a + b - 1) / a - 1 : Nat) : Int)

/-- The order of `c * 10 ^ k` and `n / 4 * 2 ^ e`, by exact cross products. -/
def compareQuarter (c : Nat) (k : Int) (n : Nat) (e : Int) : Ordering :=
  let left := c * Nat.pow 10 k.toNat * Nat.pow 2 (2 - e).toNat
  let right := n * Nat.pow 2 (e - 2).toNat * Nat.pow 10 (-k).toNat
  compare left right

/-- Four times the significand of the lower end of the interval of reals that
round to `x`: half a step below, or a quarter step where the step size changes. -/
def lowerQuarters (x : Binary64) : Nat :=
  if x.significand = 0x10000000000000 ∧ -1074 < x.exponent then 4 * x.significand - 1
  else 4 * x.significand - 2

/-- Whether `c * 10 ^ k` rounds to the magnitude of `x`. The ends of the
interval round to `x` exactly when its significand is even. -/
def roundsTo (x : Binary64) (c : Nat) (k : Int) : Bool :=
  let low := compareQuarter c k x.lowerQuarters x.exponent
  let high := compareQuarter c k (4 * x.significand + 2) x.exponent
  if x.significand % 2 = 0 then low != .lt && high != .gt
  else low == .gt && high == .lt

/-- The nearer of the neighbours `c` and `c + 1` of `x` on the grid `10 ^ k`,
among those that round to `x`. -/
def gridNeighbour? (x : Binary64) (c : Nat) (k : Int) : Option Decimal :=
  match x.roundsTo c k, x.roundsTo (c + 1) k with
  | false, false => none
  | true, false => some ⟨c, k⟩
  | false, true => some ⟨c + 1, k⟩
  | true, true =>
    match compareQuarter (2 * c + 1) k (8 * x.significand) x.exponent with
    | .gt => some ⟨c, k⟩
    | .lt => some ⟨c + 1, k⟩
    | .eq => some ⟨c + c % 2, k⟩

/-- Searches the grids with `digits`, `digits + 1`, … digits, at most `fuel`
of them. Seventeen digits always suffice. -/
def searchGrids (x : Binary64) (lead : Int) : (fuel digits : Nat) → Decimal
  | 0, _ => ⟨x.significand, 0⟩
  | fuel + 1, digits =>
    let k := lead - (digits : Int) + 1
    let (a, b) := x.ratio
    let c := (a * Nat.pow 10 (-k).toNat) / (b * Nat.pow 10 k.toNat)
    match x.gridNeighbour? c k with
    | some d => d
    | none => searchGrids x lead fuel (digits + 1)

/-- The shortest decimal that reads back as the magnitude of `x`. -/
def shortest (x : Binary64) : Decimal :=
  if x.significand = 0 then ⟨0, 0⟩
  else
    let (a, b) := x.ratio
    (searchGrids x (decimalExponent a b) 17 1).stripZeros 20

end Binary64

end PromptDoc
