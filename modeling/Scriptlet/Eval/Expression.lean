import Scriptlet.Eval.Machine
import Scriptlet.Value.Operation

/-! # Evaluating expressions

Operands, arguments and elements are evaluated from left to right. The logical operators look at
their right operand only if the left one does not decide. How functions are called is left to an
argument, so that evaluation is by recursion on the expression.
-/

namespace Scriptlet.Eval

variable {σ : Type} (policy : Division) (call : String → List Value → Eval σ Value)

mutual

/-- The value of an expression. -/
def expression : Expr → Eval σ Value
  | .literal _ value => return .ofLiteral value
  | .group _ inner => expression inner
  | .binary _ operator left right => do
      let first ← expression left
      match operator.deciding? with
      | some verdict =>
          let truth ← lift first.truth
          if truth = verdict then return .boolean verdict
          else
            let second ← expression right
            let truth ← lift second.truth
            return .boolean truth
      | none =>
          let second ← expression right
          let machine ← get
          lift (operator.apply policy machine.heap first second)
  | .access _ name => do
      let slot ← slot name
      return slot.value
  | .element _ name index => do
      let index ← expression index
      let slot ← slot name
      let address ← lift (slot.value.address name)
      elementAt address index
  | .call _ name arguments => do
      let values ← expressions arguments
      call name values
  | .list _ elements => do
      let values ← expressions elements
      createList values

/-- The values of expressions in order. -/
def expressions : List Expr → Eval σ (List Value)
  | [] => return []
  | first :: rest => do
      let value ← expression first
      let values ← expressions rest
      return value :: values

end

/-- The truth value of a condition. -/
def condition (expr : Expr) : Eval σ Bool := do
  let value ← expression policy call expr
  lift value.truth

end Scriptlet.Eval
