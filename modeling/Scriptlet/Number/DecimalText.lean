import Scriptlet.Number.Decimal

/-! # Decimals as text

Decimals are read from digits with an optional point and exponent, and written without an exponent:
either with exactly their scale's fractional digits, or in the one normal form that equal numbers
share.
-/

namespace Scriptlet.Decimal

/-- The least and the greatest scale that a decimal can be written with an exponent for. -/
def scaleRange : Int × Int :=
  (-9223372036854775808, 9223372036854775807)

def isExponentMark (c : Char) : Bool :=
  c = 'e' || c = 'E'

/-- The power of ten after the mark that announces one: an integer without underscores. Without the
mark it is zero. -/
def readExponent? : List Char → Option Int
  | [] => some 0
  | _ :: exponent => if exponent.contains '_' then none else Numeral.readInt? exponent

/-- The decimal that a text denotes: an integer with at most one point in it, and then perhaps an
exponent. Every character after the point other than an underscore is a fractional place, and the
exponent takes places away, but may not take the scale out of its range. -/
def read? (text : List Char) : Option Decimal := do
  let mantissa := text.takeWhile fun c => !isExponentMark c
  let whole := mantissa.takeWhile (· ≠ '.')
  let fraction := (mantissa.dropWhile (· ≠ '.')).drop 1
  let exponent ← readExponent? (text.dropWhile fun c => !isExponentMark c)
  let digits ← Numeral.readInt? (whole ++ fraction)
  let scale := (fraction.countP (· ≠ '_') : Int) - exponent
  if exponent = 0 || scaleRange.1 ≤ scale && scale ≤ scaleRange.2 then some ⟨digits, scale⟩
  else none

/-- Removes the trailing zeros of the digits of a number other than zero. -/
def strip (d : Decimal) : Decimal :=
  if d.digits = 0 || d.digits % 10 ≠ 0 then d
  else strip ⟨d.digits / 10, d.scale - 1⟩
termination_by d.digits.natAbs
decreasing_by
  simp only [Bool.or_eq_true, decide_eq_true_eq, not_or] at *
  omega

/-- The digits of a number with the point set `places` digits from the right, and at least one
digit before it. -/
def setPoint (digits : List Char) (places : Nat) : List Char :=
  let padded := List.replicate (places + 1 - digits.length) '0' ++ digits
  let (whole, fraction) := padded.splitAt (padded.length - places)
  whole ++ '.' :: fraction

/-- The decimal with exactly its scale's fractional digits; a scale that is not positive appends
zeros instead. -/
def plain (d : Decimal) : List Char :=
  let digits := Numeral.writeNat d.digits.natAbs
  let unsigned :=
    if d.scale ≤ 0 then digits ++ List.replicate (-d.scale).toNat '0'
    else setPoint digits d.scale.toNat
  if d.digits < 0 then '-' :: unsigned else unsigned

/-- The normal form of a decimal: no trailing zero after the point but the one that makes the
fraction visible. -/
def write (d : Decimal) : List Char :=
  let stripped := d.strip
  if stripped.digits = 0 then ['0', '.', '0']
  else if stripped.scale ≤ 0 then stripped.plain ++ ['.', '0']
  else stripped.plain

end Scriptlet.Decimal
