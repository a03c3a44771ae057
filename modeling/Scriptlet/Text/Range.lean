/-! # Ranges of code points

Classes of characters are given as tables of inclusive code point ranges in ascending order.
-/

namespace Scriptlet.Text

/-- Whether a number lies in one of the ranges, which are in ascending order. -/
def inRanges (n : Nat) : List (Nat × Nat) → Bool
  | [] => false
  | (low, high) :: rest => if n < low then false else n ≤ high || inRanges n rest

end Scriptlet.Text
