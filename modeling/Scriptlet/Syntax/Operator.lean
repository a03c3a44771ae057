/-! # Operators

The binary operators, their symbols and how tightly they bind.
-/

namespace Scriptlet

/-- How tightly an operator binds, from loose to tight. The loosest level and the tightest one
belong to no operator. -/
inductive Precedence where
  | lowest
  | logical
  | relational
  | additive
  | multiplicative
  | primary
deriving DecidableEq, Repr

namespace Precedence

/-- The levels are numbered in the order of their tightness. -/
def rank : Precedence → Nat
  | lowest => 0
  | logical => 1
  | relational => 2
  | additive => 3
  | multiplicative => 4
  | primary => 5

/-- Whether the second level binds tighter than the first. -/
def looserThan (outer inner : Precedence) : Bool :=
  outer.rank < inner.rank

end Precedence

inductive Operator where
  | and
  | or
  | less
  | greater
  | equal
  | notEqual
  | add
  | subtract
  | multiply
  | divide
  | power
deriving DecidableEq, Repr

namespace Operator

def symbol : Operator → String
  | and => "&&"
  | or => "||"
  | less => "<"
  | greater => ">"
  | equal => "=="
  | notEqual => "!="
  | add => "+"
  | subtract => "-"
  | multiply => "*"
  | divide => "/"
  | power => "^"

/-- The operator with the given symbol. -/
def ofSymbol? : String → Option Operator
  | "&&" => some and
  | "||" => some or
  | "<" => some less
  | ">" => some greater
  | "==" => some equal
  | "!=" => some notEqual
  | "+" => some add
  | "-" => some subtract
  | "*" => some multiply
  | "/" => some divide
  | "^" => some power
  | _ => none

/-- The power operator binds like multiplication and division. -/
def precedence : Operator → Precedence
  | and | or => .logical
  | less | greater | equal | notEqual => .relational
  | add | subtract => .additive
  | multiply | divide | power => .multiplicative

theorem ofSymbol?_symbol (operator : Operator) : ofSymbol? operator.symbol = some operator := by
  cases operator <;> rfl

end Operator

end Scriptlet
