import Scriptlet.Typing.Check

/-! # Types of expressions

Every expression has one type, found from the inside out and recorded when it is known.
-/

namespace Scriptlet.Check

/-- An element fits the element type of its list, if the list has one. -/
def fits (elementType : Option Ty) (ty : Ty) : Check Unit :=
  match elementType with
  | some target => lift (Ty.requireAssignable target ty)
  | none => return ()

mutual

/-- The type of an expression, which is recorded for it. -/
def expression : Expr → Check Ty
  | .literal id value => do
      let ty ← lift value.type
      record (·.recordType id ty)
      return ty
  | .group id inner => do
      if inner.isBinary then
        let ty ← expression inner
        record (·.recordType id ty)
        return ty
      else throw .invalidGroup
  | .binary id operator left right => do
      let leftType ← expression left
      let rightType ← expression right
      let ty ← lift (operator.resultType leftType rightType)
      record (·.recordType id ty)
      return ty
  | .access id name => do
      let info ← visibleVariable id name
      let ty := if info.isList then .any else info.ty
      record (·.recordType id ty)
      return ty
  | .element id name index => do
      let info ← visibleVariable id name
      let indexType ← expression index
      lift (Ty.requireAssignable .integer indexType)
      if info.isList || info.ty = .any then
        record (·.recordType id info.ty)
        return info.ty
      else throw (.notAList name)
  | .call id name arguments => do
      match (← get).scopes.findFunction? ⟨name, arguments.length⟩ with
      | none => throw (.functionNotDeclared name arguments.length)
      | some info =>
          passed arguments info.parameterTypes
          record (·.recordFunction id info.origin)
          record (·.recordType id info.returnType)
          return info.returnType
  | .list id elements => do
      held none elements
      record (·.recordType id .any)
      return .any

/-- Arguments fit the types of the parameters they are passed for. -/
def passed : List Expr → List Ty → Check Unit
  | argument :: arguments, parameter :: parameters => do
      let ty ← expression argument
      lift (Ty.requireAssignable parameter ty)
      passed arguments parameters
  | _, _ => return ()

/-- The elements of a list have types, and if the list has an element type they fit it. -/
def held (elementType : Option Ty) : List Expr → Check Unit
  | [] => return ()
  | element :: elements => do
      let ty ← expression element
      fits elementType ty
      held elementType elements

end

end Scriptlet.Check
