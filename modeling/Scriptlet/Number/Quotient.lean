import Scriptlet.Number.Decimal

/-! # Decimal division

A quotient of decimals need not be a decimal, so a program is run under one of two policies: long
division up to a hundred significant digits, or rounding to a fixed number of fractional digits.
-/

namespace Scriptlet

/-- How the quotient of two decimals is cut. -/
inductive Division where
  /-- Long division that stops at a hundred significant digits. -/
  | unscaled
  /-- Exactly `digits` fractional digits, a half going to the even neighbour. -/
  | scaled (digits : Nat)
deriving DecidableEq, Repr

/-- The integer nearest to `numerator / denominator` for a positive denominator, and of two equally
near ones the even one. -/
def roundHalfEven (numerator denominator : Int) : Int :=
  let quotient := numerator.tdiv denominator
  let twice := 2 * (numerator - quotient * denominator).natAbs
  if denominator.natAbs < twice || twice = denominator.natAbs && quotient % 2 ≠ 0 then
    quotient + numerator.sign
  else quotient

namespace Decimal

/-- The quotient rounded half to even to `digits` fractional digits. -/
def scaledQuotient (a b : Decimal) (digits : Nat) : Decimal :=
  let shift := b.scale - a.scale + digits
  let numerator := if 0 ≤ shift then a.digits * tenPower shift.toNat else a.digits
  let denominator := if 0 ≤ shift then b.digits else b.digits * tenPower (-shift).toNat
  if denominator < 0 then ⟨roundHalfEven (-numerator) (-denominator), digits⟩
  else ⟨roundHalfEven numerator denominator, digits⟩

/-- Multiplies a positive dividend by ten until it is at least the divisor, and counts how often. -/
def raise (dividend divisor places : Nat) : Nat × Nat :=
  if dividend = 0 || divisor ≤ dividend then (dividend, places)
  else raise (10 * dividend) divisor (places + 1)
termination_by divisor - dividend
decreasing_by
  simp only [Bool.or_eq_true, decide_eq_true_eq, not_or] at *
  omega

/-- Long division: from the quotient and remainder so far, brings down at most `remaining` zeros,
and rounds by the next digit. The answer is the quotient and the number of zeros brought down. -/
def bringDown (divisor : Nat) : (remaining quotient remainder places : Nat) → Nat × Nat
  | 0, quotient, remainder, places =>
      (if 5 ≤ 10 * remainder / divisor then quotient + 1 else quotient, places)
  | remaining + 1, quotient, remainder, places =>
      if remainder = 0 then (quotient, places)
      else bringDown divisor remaining (10 * quotient + 10 * remainder / divisor)
        (10 * remainder % divisor) (places + 1)

/-- The number of significant digits at which long division stops. -/
def significantDigits : Nat := 100

/-- The quotient by long division to `significantDigits` digits, or to as many as the operands
themselves give. A zero dividend and a divisor written as one leave the dividend as it is. -/
def unscaledQuotient (a b : Decimal) : Decimal :=
  if a.isZero || b.isPlainOne then a
  else if a.digits = b.digits then ⟨1, a.scale - b.scale⟩
  else
    let divisor := b.digits.natAbs
    let (dividend, raised) := raise a.digits.natAbs divisor 0
    let quotient := dividend / divisor
    let remaining := significantDigits - (Numeral.writeNat quotient).length
    let (quotient, places) := bringDown divisor remaining quotient (dividend % divisor) 0
    ⟨a.digits.sign * b.digits.sign * quotient, a.scale - b.scale + raised + places⟩

/-- The quotient of a decimal by one that is not zero, cut by the given policy. -/
def div (policy : Division) (a b : Decimal) : Decimal :=
  match policy with
  | .unscaled => unscaledQuotient a b
  | .scaled digits => scaledQuotient a b digits

end Decimal

end Scriptlet
