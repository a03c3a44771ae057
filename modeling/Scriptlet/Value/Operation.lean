import Scriptlet.Number.Power
import Scriptlet.Number.Quotient
import Scriptlet.Order
import Scriptlet.Value.Display
import Scriptlet.Value.Equality

/-! # Operations on values

What the binary operators compute from the values of their operands, and which operands they
refuse.
-/

namespace Scriptlet

namespace Value

/-- The order of two values of one comparable type; characters and strings are ordered by code
points. -/
def compare : Value → Value → Except Cause Ordering
  | integer a, integer b => .ok (orderBy a b)
  | decimal a, decimal b => .ok (a.order b)
  | character a, character b => .ok (orderBy a b)
  | string a, string b => .ok (orderBy a b)
  | left, right =>
      if left.ty = right.ty then .error (mismatch Ty.comparable.name left)
      else .error (mismatch left.ty.name right)

/-- Whether two values of one type are equal. Nil and lists are not compared. -/
def equals (left right : Value) : Except Cause Bool :=
  if left.ty = right.ty then
    match left with
    | nil | list _ => .error (mismatch Ty.comparable.name left)
    | _ => .ok (left.equalScalar right)
  else .error (mismatch left.ty.name right)

/-- Computes with two integers or two decimals. -/
def arithmetic (onIntegers : Int → Int → Int) (onDecimals : Decimal → Decimal → Decimal) :
    Value → Value → Except Cause Value
  | integer a, integer b => .ok (integer (onIntegers a b))
  | decimal a, decimal b => .ok (decimal (onDecimals a b))
  | left@(integer _), right => .error (mismatch left.ty.name right)
  | left@(decimal _), right => .error (mismatch left.ty.name right)
  | left, _ => .error (mismatch "Integer or Decimal" left)

def isString : Value → Bool
  | string _ => true
  | _ => false

/-- The sum of two numbers, or the texts of two values one after the other if one is a string. -/
def add (heap : Heap) (left right : Value) : Except Cause Value :=
  if left.isString || right.isString then .ok (string (heap.display left ++ heap.display right))
  else arithmetic (· + ·) Decimal.add left right

/-- Whether a value is the zero of a numeric type. -/
def isZero : Value → Bool
  | integer n => n == 0
  | decimal d => d.isZero
  | _ => false

/-- The quotient of two numbers: of integers toward zero, of decimals by the policy. -/
def divide (policy : Division) (left right : Value) : Except Cause Value :=
  if left.ty = right.ty && right.isZero then .error .divisionByZero
  else arithmetic Int.tdiv (Decimal.div policy) left right

/-- The power of an integer by an integer. -/
def raise : Value → Value → Except Cause Value
  | integer base, integer exponent => .ok (integer (power base exponent))
  | integer _, right => .error (mismatch Ty.integer.name right)
  | left, _ => .error (mismatch Ty.integer.name left)

end Value

/-- The truth value that, as the left operand of a logical operator, is already the result. -/
def Operator.deciding? : Operator → Option Bool
  | and => some false
  | or => some true
  | _ => none

/-- The result of an operator on the values of both operands. -/
def Operator.apply (policy : Division) (heap : Heap) (operator : Operator) (left right : Value) :
    Except Cause Value :=
  match operator with
  | and => return .boolean ((← left.truth) && (← right.truth))
  | or => return .boolean ((← left.truth) || (← right.truth))
  | less => return .boolean ((← left.compare right) == .lt)
  | greater => return .boolean ((← left.compare right) == .gt)
  | equal => return .boolean (← left.equals right)
  | notEqual => return .boolean (!(← left.equals right))
  | add => left.add heap right
  | subtract => Value.arithmetic (· - ·) Decimal.sub left right
  | multiply => Value.arithmetic (· * ·) Decimal.mul left right
  | divide => left.divide policy right
  | power => left.raise right

end Scriptlet
