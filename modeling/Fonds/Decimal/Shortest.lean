import Fonds.Decimal.Double

/-!
The shortest decimal that reads back as a given double. Decimals with one digit are tried first,
then with two, and so on: on each grid of powers of ten only the two neighbours of the number can
be the nearest, and the first grid with a neighbour that reads back gives the answer.
-/
namespace Fonds.Decimal

/-- The number `coefficient · 10^exponent`. -/
structure Scaled where
  coefficient : Nat
  exponent : Int
  deriving DecidableEq

namespace Double

/-- How many quarters of the unit `2^-1074` make one. In quarters, half of any gap between two
doubles is a whole number. -/
def quartersInOne : Nat := 4 * Nat.pow 2 1074

def quarters (x : Double) : Nat := 4 * x.units

/-- The halfway point to the next smaller double. Below a power of two the gap is half as wide. -/
def lowest (x : Double) : Nat :=
  x.quarters -
    (if x.significand = Nat.pow 2 52 ∧ x.scale ≠ 0 then 1 else 2) * Nat.pow 2 x.scale

/-- The halfway point to the next larger double. -/
def highest (x : Double) : Nat := x.quarters + 2 * Nat.pow 2 x.scale

/-- Whether `n · 10^power` is nearer to `x` than to any other double. A halfway point belongs to
the double with the even significand. -/
def reads (x : Double) (n : Nat) (power : Int) : Bool :=
  let point := n * Nat.pow 10 power.toNat * quartersInOne
  let den := Nat.pow 10 (-power).toNat
  if x.significand % 2 = 0 then x.lowest * den ≤ point && point ≤ x.highest * den
  else x.lowest * den < point && point < x.highest * den

/-- The multiple of `10^power` that reads as `x`, the nearest one if there are several and the even
one if two are equally near. -/
def onGrid? (x : Double) (power : Int) : Option Nat :=
  let num := x.quarters * Nat.pow 10 (-power).toNat
  let den := quartersInOne * Nat.pow 10 power.toNat
  let nearest := roundDiv num den
  let other := if nearest = num / den then nearest + 1 else num / den
  [nearest, other].find? (x.reads · power)

/-- The power of ten of the first digit. No double but zero lies below `10^-330`. -/
def leadingPower (x : Double) : Int :=
  (Nat.toDigits 10 (x.quarters * Nat.pow 10 330 / quartersInOne)).length - 331

/-- The decimal with the fewest digits that reads back. Seventeen always suffice. A number just
under a power of ten may have that power as its neighbour, which then is one digit too. -/
def shortest (x : Double) : Scaled :=
  let found := (List.range 17).findSome? fun (digits : Nat) =>
    let power := x.leadingPower - digits
    (x.onGrid? power).map fun n => if n = 10 then ⟨1, power + 1⟩ else ⟨n, power⟩
  found.getD ⟨x.units, 0⟩

end Double

end Fonds.Decimal
