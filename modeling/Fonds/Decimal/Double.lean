/-!
Finite double-precision numbers as exact rationals. A `Double` is `± significand · 2^scale` in units
of `2^-1074`, and the proof fields make that form unique, so equality is equality of values (the two
zeros apart). `ofRatio` rounds any non-negative fraction to the nearest double, a tie going to the
even significand.
-/
namespace Fonds.Decimal

/-- A finite number in double precision. -/
structure Double where
  negative : Bool
  significand : Nat
  scale : Nat
  significand_lt : significand < Nat.pow 2 53
  scale_le : scale ≤ 2045
  normal : scale = 0 ∨ Nat.pow 2 52 ≤ significand
  deriving DecidableEq

/-- The nearest whole number to a fraction, the even one of two that are equally near. -/
def roundDiv (num den : Nat) : Nat :=
  let quotient := num / den
  let twice := 2 * (num % den)
  if twice < den ∨ (twice = den ∧ quotient % 2 = 0) then quotient else quotient + 1

theorem le_roundDiv (num den : Nat) : num / den ≤ roundDiv num den := by
  simp only [roundDiv]
  split <;> omega

namespace Double

/-- The power of two, in units of `2^-1074`, at which a fraction has a significand of 53 bits. -/
def scaleOf (num den : Nat) : Nat := (num / den).log2 - 52

theorem le_div_scaleOf {num den : Nat} (h : scaleOf num den ≠ 0) :
    Nat.pow 2 52 ≤ num / (den * Nat.pow 2 (scaleOf num den)) := by
  have hlog : 52 + scaleOf num den = (num / den).log2 := by
    simp only [scaleOf] at h ⊢
    omega
  have hne : num / den ≠ 0 := by
    intro hz
    simp [scaleOf, hz] at h
  simp only [Nat.pow_eq]
  rw [← Nat.div_div_eq_div_mul, Nat.le_div_iff_mul_le (Nat.two_pow_pos _), ← Nat.pow_add, hlog]
  exact Nat.log2_self_le hne

/-- The double nearest to `num / den`, unless that is too large to be finite. -/
def ofRatio (negative : Bool) (num den : Nat) : Option Double :=
  let units := num * Nat.pow 2 1074
  let scale := scaleOf units den
  let rounded := roundDiv units (den * Nat.pow 2 scale)
  if hround : rounded < Nat.pow 2 53 then
    if hscale : scale ≤ 2045 then
      some ⟨negative, rounded, scale, hround, hscale, by
        by_cases h : scale = 0
        · exact .inl h
        · exact .inr (Nat.le_trans (le_div_scaleOf h) (le_roundDiv _ _))⟩
    else none
  else if hscale : scale + 1 ≤ 2045 then
    some ⟨negative, Nat.pow 2 52, scale + 1, by decide, hscale, .inr (Nat.le_refl _)⟩
  else none

/-- The size of a double in units of `2^-1074`. -/
def units (x : Double) : Nat := x.significand * Nat.pow 2 x.scale

/-- The rounded product of the sizes of two doubles. -/
def mul? (x y : Double) : Option Double :=
  ofRatio false (x.units * y.units) (Nat.pow 2 1074 * Nat.pow 2 1074)

/-- The rounded quotient of the sizes of two doubles. -/
def div? (x y : Double) : Option Double := ofRatio false x.units y.units

/-- Whether the number is above zero. -/
def isPositive (x : Double) : Bool := !x.negative && x.significand != 0

end Double

end Fonds.Decimal
