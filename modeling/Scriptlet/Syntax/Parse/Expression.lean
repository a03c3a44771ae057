import Scriptlet.Number.DecimalText
import Scriptlet.Syntax.Cursor
import Scriptlet.Token.Literal

/-! # Reading expressions

An expression is an operand followed by operators with their right operands. The productions take
the reader of nested expressions as an argument, and `expression` ties the knot. Nodes are numbered
when they are complete, so children before their parents.
-/

namespace Scriptlet

/-- The constant that a token stands for. -/
def Token.literal (token : Token) : Except Cause Literal :=
  match token.kind with
  | .integer =>
      match Numeral.readInt? token.text.toList with
      | some n => .ok (.integer n)
      | none => .error (.invalidNumber token.text)
  | .decimal =>
      match Decimal.read? token.text.toList with
      | some d => .ok (.decimal d)
      | none => .error (.invalidNumber token.text)
  | .character =>
      match unescape (between token.text.toList) with
      | [c] => .ok (.character c)
      | _ => .error .invalidCharacterLiteral
  | .string => .ok (.string (String.ofList (unescape (between token.text.toList))))
  | .identifier | .operator => .error (.unexpectedToken token.text "a literal")

/-- The constant that a reserved word stands for. -/
def Keyword.literal? : Keyword → Option Literal
  | TRUE => some (.boolean true)
  | FALSE => some (.boolean false)
  | NIL => some .nil
  | _ => none

namespace Parse

/-- A number, a character or a string. -/
def literal : Parse Expr := do
  let token ← advance "a literal"
  match token.literal with
  | .ok value =>
      let id ← freshId
      return .literal id value
  | .error cause => throw ⟨cause, .parse token.offset⟩

section

variable (nested : Precedence → Parse Expr)

/-- An expression between parentheses. -/
def group : Parse Expr := do
  if (← get).atOperator "(" then
    let _ ← advance "`(`"
    let inner ← nested .lowest
    let _ ← expectOperator ")"
    let id ← freshId
    return .group id inner
  else fail "an expression"

/-- The arguments of a call after its opening parenthesis. -/
def arguments (limit : Nat) : Parse (List Expr) := do
  if ← tryOperator ")" then return []
  else separated (nested .lowest) ")" limit

/-- What starts with a name: a call, an element of a list or a variable. -/
def reference (limit : Nat) : Parse Expr := do
  let name ← expectName "an identifier"
  if ← tryOperator "(" then
    let arguments ← arguments nested limit
    let id ← freshId
    return .call id name arguments
  else if ← tryOperator "[" then
    let index ← nested .lowest
    let _ ← expectOperator "]"
    let id ← freshId
    return .element id name index
  else
    let id ← freshId
    return .access id name

/-- What starts with a word: a constant that has a name, or a reference. -/
def word (limit : Nat) : Parse Expr := do
  match (← get).tokens.head?.bind Token.keyword? with
  | none => reference nested limit
  | some keyword =>
      match keyword.literal? with
      | none => fail "an expression"
      | some value =>
          let _ ← advance "a literal"
          let id ← freshId
          return .literal id value

/-- An expression without operators of its own. -/
def operand (limit : Nat) : Parse Expr := do
  match (← get).tokens.head?.map Token.kind with
  | none => fail "an expression"
  | some .identifier => word nested limit
  | some .operator => group nested
  | some _ => literal

/-- An operator of the given level, and its right operand, after its left operand. -/
def binary (left : Expr) (level : Precedence) : Parse Expr := do
  let token ← advance "an operator"
  match Operator.ofSymbol? token.text with
  | none => throw ⟨.unexpectedToken token.text "a binary operator", .parse token.offset⟩
  | some operator =>
      let right ← nested level
      let id ← freshId
      return .binary id operator left right

/-- The operator that is next, if one is. -/
def nextOperator? (cursor : Cursor) : Option Operator :=
  match cursor.tokens with
  | [] => none
  | token :: _ => if token.kind = .operator then Operator.ofSymbol? token.text else none

/-- Folds operators that bind tighter than `level` to the left, starting from their first
operand. -/
def operators (level : Precedence) : (limit : Nat) → (left : Expr) → Parse Expr
  | 0, _ => fail "an expression"
  | limit + 1, left => do
      match nextOperator? (← get) with
      | none => return left
      | some operator =>
          if level.looserThan operator.precedence then
            let left ← binary nested left operator.precedence
            operators level limit left
          else return left

end

/-- An expression whose operators all bind tighter than `level`. -/
def expression : (limit : Nat) → (level : Precedence) → Parse Expr
  | 0, _ => fail "an expression"
  | limit + 1, level => do
      let left ← operand (expression limit) limit
      operators (expression limit) level limit left

/-- An expression whose operators all bind tighter than `level`. -/
def expr (level : Precedence) : Parse Expr :=
  bounded fun limit => expression limit level

end Parse

/-- The expression that a sequence of tokens is. -/
def Expr.ofTokens (tokens : List Token) : Except Error Expr :=
  (Parse.expr .lowest).toEnd "end of expression" |>.run tokens

end Scriptlet
