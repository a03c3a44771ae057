import Scriptlet.Syntax.Parse.Statement

/-! # Reading programs

A program is its globals followed by its functions, of which there is at least one.
-/

namespace Scriptlet.Parse

/-- The elements of a list after the opening bracket. -/
def elements : Parse Expr := do
  let elements ← bounded (separated (expr .lowest) "]")
  let id ← freshId
  return .list id elements

/-- The first value of a global, which a list must have. -/
def initial (isList : Bool) : Parse (Option Expr) := do
  if isList then
    let _ ← expectOperator "="
    let _ ← expectOperator "["
    let value ← elements
    return some value
  else optionalValue

/-- A global: a list, a variable or a constant. -/
def global : Parse Global := do
  let cursor ← get
  let isList := cursor.atKeyword .LIST
  let mutable := isList || cursor.atKeyword .VAR
  let _ ← advance "LIST, VAR or VAL"
  let name ← expectName "a global name"
  let _ ← expectOperator ":"
  let typeName ← expectName "a type name"
  let initial ← initial isList
  let _ ← expectOperator ";"
  let id ← freshId
  return { id, name, typeName, mutable, initial }

/-- A parameter's name and type. -/
def parameter : Parse (String × String) := do
  let name ← expectName "a parameter name"
  let _ ← expectOperator ":"
  let typeName ← expectName "a type name"
  return (name, typeName)

/-- The parameters of a function after the opening parenthesis. -/
def parameters : Parse (List (String × String)) := do
  if ← tryOperator ")" then return []
  else bounded (separated parameter ")")

/-- A function with its body. -/
def function : Parse Function := do
  let _ ← expectKeyword .FUN "FUN"
  let name ← expectName "a function name"
  let _ ← expectOperator "("
  let parameters ← parameters
  let returnType ← typeAnnotation
  let _ ← expectKeyword .DO "DO"
  let body ← block
  let _ ← expectKeyword .END "END"
  let id ← freshId
  return {
    id
    name
    parameterNames := parameters.map Prod.fst
    parameterTypes := parameters.map Prod.snd
    returnType
    body }

/-- Whether a global starts here. -/
def atGlobal (cursor : Cursor) : Bool :=
  cursor.atKeyword .LIST || cursor.atKeyword .VAR || cursor.atKeyword .VAL

/-- Repeats a step, at most `limit` times, as long as the test holds. -/
def whileAt {α : Type} (test : Cursor → Bool) (step : Parse α) : (limit : Nat) → Parse (List α)
  | 0 => fail "FUN"
  | limit + 1 => do
      if test (← get) then
        let first ← step
        let rest ← whileAt test step limit
        return first :: rest
      else return []

/-- All globals, then all functions, up to the last token. -/
def program : Parse Program := do
  let globals ← bounded (whileAt atGlobal global)
  let functions ← bounded (whileAt (·.atKeyword .FUN) function)
  if functions.isEmpty then fail "a global or FUN"
  else if (← get).tokens.isEmpty then return { globals, functions }
  else fail "FUN"

end Scriptlet.Parse

namespace Scriptlet

/-- The program that a sequence of tokens is. -/
def Program.ofTokens (tokens : List Token) : Except Error Program :=
  Parse.program.run tokens

end Scriptlet
