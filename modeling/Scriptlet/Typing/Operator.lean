import Scriptlet.Number.DecimalText
import Scriptlet.Syntax.Tree
import Scriptlet.Ty

/-! # Types of constants and operations

The rules of typing that need no declarations.
-/

namespace Scriptlet

/-- Refuses two types that differ. -/
def Ty.requireSame (left right : Ty) : Except Cause Unit :=
  if left = right then .ok () else .error (.typeMismatch left.name right.name)

namespace Operator

/-- The type of an operation from the types of its operands. -/
def resultType (operator : Operator) (left right : Ty) : Except Cause Ty :=
  match operator with
  | and | or => do
      Ty.requireAssignable .boolean left
      Ty.requireAssignable .boolean right
      return .boolean
  | less | greater => do
      Ty.requireSame left right
      if left.isComparable then return .boolean
      else throw (.typeMismatch Ty.comparable.name left.name)
  | equal | notEqual => do
      Ty.requireSame left right
      if left.isComparable || left = .boolean then return .boolean
      else throw (.typeMismatch Ty.comparable.name left.name)
  | add =>
      if left = .string || right = .string then return .string
      else arithmetic left right
  | subtract | multiply | divide => arithmetic left right
  | power => do
      Ty.requireAssignable .integer left
      Ty.requireAssignable .integer right
      return .integer
where
  /-- Two operands of one numeric type give a result of that type. -/
  arithmetic (left right : Ty) : Except Cause Ty := do
    Ty.requireSame left right
    if left.isNumeric then return left
    else throw (.typeMismatch "Integer or Decimal" left.name)

end Operator

namespace Literal

/-- The least and the greatest integer that can be written in a program. -/
def integerRange : Int × Int :=
  (-9223372036854775808, 9223372036854775807)

/-- The greatest decimal that can be written in a program; its negation is the least. -/
def decimalLimit : Decimal :=
  ⟨17976931348623157 * Decimal.tenPower 292, 0⟩

/-- The type of a constant, whose number must be in range. -/
def type : Literal → Except Cause Ty
  | nil => .ok .nil
  | boolean _ => .ok .boolean
  | character _ => .ok .character
  | string _ => .ok .string
  | integer n =>
      if integerRange.1 ≤ n && n ≤ integerRange.2 then .ok .integer
      else .error (.valueOutOfRange (String.ofList (Numeral.writeInt n)))
  | decimal d =>
      if Decimal.order ⟨d.digits.natAbs, d.scale⟩ decimalLimit = .gt then
        .error (.valueOutOfRange (String.ofList d.plain))
      else .ok .decimal

end Literal

end Scriptlet
