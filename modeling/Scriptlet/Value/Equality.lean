import Scriptlet.Value.Basic

/-! # Equality of values

Two values are equal unless following the same path into both leads to a difference. Lists that
contain themselves are compared by assuming, inside the comparison of two lists, that these two are
equal.
-/

namespace Scriptlet

namespace Value

/-- Whether two values that are not lists are of one kind and equal, decimals as numbers. -/
def equalScalar : Value → Value → Bool
  | nil, nil => true
  | boolean a, boolean b => a == b
  | integer a, integer b => a == b
  | decimal a, decimal b => a.equal b
  | character a, character b => a == b
  | string a, string b => a == b
  | _, _ => false

end Value

namespace Heap

/-- Compares two values inside the pairs of lists that are being compared, down to a number of
levels. -/
def equalWithin (heap : Heap) :
    (levels : Nat) → (assumed : List (Address × Address)) → Value → Value → Bool
  | levels + 1, assumed, .list a, .list b =>
      a == b || assumed.contains (a, b) ||
        (heap.elements a).size == (heap.elements b).size &&
          ((heap.elements a).toList.zip (heap.elements b).toList).all fun (x, y) =>
            equalWithin heap levels ((a, b) :: assumed) x y
  | _, _, a, b => a.equalScalar b

/-- Whether two values are equal. Pairs of lists that are compared inside each other are all
different, so there cannot be more levels of them than there are pairs. -/
def equal (heap : Heap) (a b : Value) : Bool :=
  heap.equalWithin (heap.size * heap.size + 1) [] a b

end Heap

end Scriptlet
