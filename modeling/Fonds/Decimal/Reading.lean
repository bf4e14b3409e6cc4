import Fonds.Decimal.Shortest

/-!
Reading a decimal as a double. The digits that fit 64 bits are kept, the digits after them only move
the point; the whole number so gained and the power of ten are each rounded to a double, and so is
their product or quotient.
-/
namespace Fonds.Decimal

/-- The value of a decimal digit. -/
def digitValue (c : Char) : Nat := c.toNat - '0'.toNat

/-- Appends digits to a number for as long as it stays below `2^64`; gives the number and the digits
that were left. -/
def takeFitting (n : Nat) : List Char → Nat × List Char
  | [] => (n, [])
  | c :: cs =>
    let next := 10 * n + digitValue c
    if next < UInt64.size then takeFitting next cs else (n, c :: cs)

/-- The digits of a numeral as a scaled number: digits before the point that do not fit count as
zeros, digits after it that do not fit are dropped. -/
def scaledOfDigits (whole fraction : List Char) (exponent : Int) : Scaled :=
  let (n, droppedWhole) := takeFitting 0 whole
  let (m, droppedFraction) := takeFitting n fraction
  ⟨m, exponent + droppedWhole.length - (fraction.length - droppedFraction.length : Nat)⟩

namespace Double

def ofNat? (n : Nat) : Option Double := ofRatio false n 1

/-- The double nearest to `10^power`. -/
def powerOfTen? (power : Nat) : Option Double := ofNat? (Nat.pow 10 power)

/-- Multiplies by a power of ten. Powers below `-308` are taken off in several divisions, which end
at zero after a few steps. Nothing is given for a result that is too large. -/
def scale? (x : Double) (power : Int) : Option Double :=
  if hlow : power < -308 then
    if x.significand = 0 then some x
    else do
      let tiny ← x.div? (← powerOfTen? 308)
      tiny.scale? (power + 308)
  else if power < 0 then do
    x.div? (← powerOfTen? power.natAbs)
  else if power ≤ 308 then do
    x.mul? (← powerOfTen? power.natAbs)
  else if x.significand = 0 then some x
  else none
termination_by (-power).toNat
decreasing_by omega

def ofScaled? (negative : Bool) (s : Scaled) : Option Double := do
  let size ← (← ofNat? s.coefficient).scale? s.exponent
  some { size with negative := negative }

end Double

end Fonds.Decimal
