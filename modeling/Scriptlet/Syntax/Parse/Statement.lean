import Scriptlet.Syntax.Parse.Expression

/-! # Reading statements

A block is a run of statements up to the word that closes it. As with expressions, the productions
take the reader of nested blocks as an argument, and `statements` ties the knot.
-/

namespace Scriptlet.Parse

/-- Whether a block ends here: at `END`, `ELSE`, `DEFAULT` or `CASE`, or where no token is left. -/
def atBlockEnd (cursor : Cursor) : Bool :=
  cursor.tokens.isEmpty || cursor.atKeyword .END || cursor.atKeyword .ELSE ||
    cursor.atKeyword .DEFAULT || cursor.atKeyword .CASE

/-- The value after an equals sign, if there is one. -/
def optionalValue : Parse (Option Expr) := do
  if ← tryOperator "=" then
    let value ← expr .lowest
    return some value
  else return none

/-- The declaration of a local variable. -/
def declaration : Parse Stmt := do
  let _ ← expectKeyword .LET "LET"
  let name ← expectName "a variable name"
  let typeName ← typeAnnotation
  let initial ← optionalValue
  let _ ← expectOperator ";"
  let id ← freshId
  return .declaration id name typeName initial

/-- A return with its value. -/
def returning : Parse Stmt := do
  let _ ← expectKeyword .RETURN "RETURN"
  let value ← expr .lowest
  let _ ← expectOperator ";"
  return .ret value

/-- An expression by itself, or an assignment to it. -/
def simple : Parse Stmt := do
  let receiver ← expr .lowest
  if ← tryOperator "=" then
    let value ← expr .lowest
    let _ ← expectOperator ";"
    return .assignment receiver value
  else
    let _ ← expectOperator ";"
    return .expression receiver

section

variable (nested : Parse (List Stmt))

/-- The arms of a switch that have a value. At most `limit` of them are read. -/
def arms : (limit : Nat) → Parse (List Case)
  | 0 => fail "DEFAULT"
  | limit + 1 => do
      if ← tryKeyword .CASE "CASE" then
        let value ← expr .lowest
        let _ ← expectOperator ":"
        let body ← nested
        let rest ← arms limit
        return .mk (some value) body :: rest
      else return []

/-- A switch, whose default arm comes once and last. -/
def switch (limit : Nat) : Parse Stmt := do
  let _ ← expectKeyword .SWITCH "SWITCH"
  let condition ← expr .lowest
  let arms ← arms nested limit
  if ← tryKeyword .DEFAULT "DEFAULT" then
    let body ← nested
    let cursor ← get
    if cursor.atKeyword .DEFAULT || cursor.atKeyword .CASE then failWith .misplacedDefault
    else
      let _ ← expectKeyword .END "END"
      return .switch condition (arms ++ [.mk none body])
  else failWith .misplacedDefault

/-- The statements after an `ELSE`, if there is one. -/
def alternative : Parse (List Stmt) := do
  if ← tryKeyword .ELSE "ELSE" then nested
  else return []

/-- A conditional with an optional alternative. -/
def branch : Parse Stmt := do
  let _ ← expectKeyword .IF "IF"
  let condition ← expr .lowest
  let _ ← expectKeyword .DO "DO"
  let thenBlock ← nested
  let elseBlock ← alternative nested
  let _ ← expectKeyword .END "END"
  return .branch condition thenBlock elseBlock

/-- A loop that tests its condition before each round. -/
def loop : Parse Stmt := do
  let _ ← expectKeyword .WHILE "WHILE"
  let condition ← expr .lowest
  let _ ← expectKeyword .DO "DO"
  let body ← nested
  let _ ← expectKeyword .END "END"
  return .loop condition body

/-- A statement of any form; its first word tells which. -/
def statement (limit : Nat) : Parse Stmt := do
  match (← get).tokens.head?.bind Token.keyword? with
  | some .LET => declaration
  | some .SWITCH => switch nested limit
  | some .IF => branch nested
  | some .WHILE => loop nested
  | some .RETURN => returning
  | _ => simple

end

/-- Statements up to the end of their block. -/
def statements : (limit : Nat) → Parse (List Stmt)
  | 0 => fail "a statement"
  | limit + 1 => do
      if atBlockEnd (← get) then return []
      else
        let first ← statement (statements limit) limit
        let rest ← statements limit
        return first :: rest

/-- Statements up to the end of their block. -/
def block : Parse (List Stmt) :=
  bounded statements

end Scriptlet.Parse

namespace Scriptlet

/-- The statements that a sequence of tokens is. -/
def Stmt.ofTokens (tokens : List Token) : Except Error (List Stmt) :=
  Parse.block.toEnd "a statement" |>.run tokens

end Scriptlet
