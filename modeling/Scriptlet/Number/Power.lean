/-! # Integer powers

Exponentiation by repeated squaring, extended to negative exponents.
-/

namespace Scriptlet

/-- A power that is being computed: what has been multiplied up so far, and the base and the
exponent of what is left. -/
structure Squaring where
  result : Int
  base : Int
  exponent : Int
deriving DecidableEq, Repr

namespace Squaring

/-- Takes the last binary digit off the exponent. The base is squared only for another digit. -/
def step (s : Squaring) : Squaring :=
  let rest := s.exponent / 2
  { result := if s.exponent % 2 = 1 then s.result * s.base else s.result
    base := if 0 < rest then s.base * s.base else s.base
    exponent := rest }

/-- The result when nothing is left of the exponent. -/
def run (s : Squaring) : Int :=
  if 0 < s.exponent then run s.step else s.result
termination_by s.exponent.toNat
decreasing_by
  simp only [step]
  omega

end Squaring

/-- The integer part of a power: with a negative exponent only the powers of one are not zero. -/
def power (base exponent : Int) : Int :=
  if exponent < 0 then if base = 1 then 1 else 0
  else Squaring.run ⟨1, base, exponent⟩

end Scriptlet
