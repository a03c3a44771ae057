import Scriptlet.Text.Quoted

/-! # Errors

An error is a cause together with the stage that met it. The name, the wording and the tip of every
cause are written here and nowhere else.
-/

namespace Scriptlet

/-- Why a text is not a program, or why a program does not run. -/
inductive Cause where
  | invalidEscape (escape : String)
  | unterminatedLiteral
  | invalidCharacterLiteral
  | invalidNumber (literal : String)
  | unexpectedToken (token expected : String)
  | unexpectedEnd (expected : String)
  | trailingComma
  | misplacedDefault
  | typeMismatch (expected received : String)
  | variableNotDeclared (name : String)
  | functionNotDeclared (name : String) (arity : Nat)
  | unknownType (name : String)
  | variableAlreadyDeclared (name : String)
  | functionAlreadyDeclared (name : String) (arity : Nat)
  | invalidGroup
  | valueOutOfRange (literal : String)
  | immutableAssignment (name : String)
  | immutableWithoutValue (name : String)
  | missingDeclarationType (name : String)
  | invalidAssignmentTarget
  | notAList (name : String)
  | emptyBlock (statement : String)
  | missingMain
  | divisionByZero
  | indexOutOfRange (index : String) (length : Nat)
deriving DecidableEq, Repr

namespace Cause

/-- The name a report gives the cause. -/
def name : Cause → String
  | invalidEscape _ => "InvalidEscape"
  | unterminatedLiteral => "UnterminatedLiteral"
  | invalidCharacterLiteral => "InvalidCharacterLiteral"
  | invalidNumber _ => "InvalidNumber"
  | unexpectedToken _ _ => "UnexpectedToken"
  | unexpectedEnd _ => "UnexpectedEnd"
  | trailingComma => "TrailingComma"
  | misplacedDefault => "MisplacedDefault"
  | typeMismatch _ _ => "TypeMatchError"
  | variableNotDeclared _ => "VariableNotDeclared"
  | functionNotDeclared _ _ => "FunctionNotDeclared"
  | unknownType _ => "UnknownType"
  | variableAlreadyDeclared _ => "VariableAlreadyDeclared"
  | functionAlreadyDeclared _ _ => "FunctionAlreadyDeclared"
  | invalidGroup => "InvalidGroup"
  | valueOutOfRange _ => "ValueOutOfRange"
  | immutableAssignment _ => "ImmutableAssignment"
  | immutableWithoutValue _ => "ImmutableWithoutValue"
  | missingDeclarationType _ => "MissingDeclarationType"
  | invalidAssignmentTarget => "InvalidAssignmentTarget"
  | notAList _ => "NotAList"
  | emptyBlock _ => "EmptyBlock"
  | missingMain => "MissingMain"
  | divisionByZero => "DivisionByZero"
  | indexOutOfRange _ _ => "IndexOutOfRange"

open Text in
/-- What went wrong, in one clause. -/
def message : Cause → String
  | invalidEscape escape => "invalid escape sequence \\" ++ escape
  | unterminatedLiteral => "unterminated literal"
  | invalidCharacterLiteral => "invalid character literal"
  | invalidNumber literal => "invalid number: " ++ quoted literal
  | unexpectedToken token expected =>
      "unexpected token " ++ quoted token ++ ", expected " ++ expected
  | unexpectedEnd expected => "unexpected end of input, expected " ++ expected
  | trailingComma => "trailing comma"
  | misplacedDefault => "switch must end with exactly one default"
  | typeMismatch expected received =>
      "types do not match: expected " ++ expected ++ ", received " ++ received
  | variableNotDeclared name => "variable " ++ quoted name ++ " not declared"
  | functionNotDeclared name arity =>
      "function " ++ quoted name ++ " with " ++ toString arity ++ " arguments not declared"
  | unknownType name => "unknown type " ++ name ++ " found"
  | variableAlreadyDeclared name => "variable " ++ quoted name ++ " already declared"
  | functionAlreadyDeclared name arity =>
      "function " ++ quoted name ++ " with " ++ toString arity ++ " arguments already declared"
  | invalidGroup => "group must contain a binary expression"
  | valueOutOfRange literal => "literal " ++ literal ++ " out of range"
  | immutableAssignment name => "cannot assign to immutable variable " ++ quoted name
  | immutableWithoutValue name => "immutable variable " ++ quoted name ++ " has no value"
  | missingDeclarationType name =>
      "variable " ++ quoted name ++ " has neither a type nor a value"
  | invalidAssignmentTarget => "invalid assignment target"
  | notAList name => "variable " ++ quoted name ++ " is not a list"
  | emptyBlock statement => statement ++ " statement has an empty body"
  | missingMain => "missing function main(): Integer"
  | divisionByZero => "division by zero"
  | indexOutOfRange index length =>
      "index " ++ index ++ " out of range for length " ++ toString length

/-- How to mend it. Only a division by zero comes without advice. -/
def tip : Cause → Option String
  | invalidEscape escape =>
      some ("`\\" ++ escape ++ "` is not an escape, expected one of \\b \\n \\r \\t \\' \\\" \\\\")
  | unterminatedLiteral => some "Literal is missing its closing quote"
  | invalidCharacterLiteral => some "Character literals hold exactly one character or escape"
  | invalidNumber literal =>
      some ("Invalid number `" ++ literal ++
        "`, numbers may not have leading zeros or a bare trailing `.`")
  | unexpectedToken token expected =>
      some ("Unexpected token `" ++ token ++ "`, expected " ++ expected)
  | unexpectedEnd expected => some ("Source ended early, expected " ++ expected)
  | trailingComma => some "Remove the comma before the closing bracket"
  | misplacedDefault => some "A SWITCH needs exactly one DEFAULT, placed after every CASE"
  | typeMismatch expected received =>
      some ("Expected type `" ++ expected ++ "`, received `" ++ received ++ "`")
  | variableNotDeclared name => some ("Variable `" ++ name ++ "` not declared")
  | functionNotDeclared name arity =>
      some ("No function `" ++ name ++ "` taking " ++ toString arity ++ " arguments")
  | unknownType name => some ("Unknown type `" ++ name ++ "` found")
  | variableAlreadyDeclared name => some ("Variable `" ++ name ++ "` already declared")
  | functionAlreadyDeclared name arity =>
      some ("Function `" ++ name ++ "/" ++ toString arity ++ "` already declared")
  | invalidGroup => some "Parentheses may only surround a binary expression"
  | valueOutOfRange literal => some ("Literal `" ++ literal ++ "` does not fit its type")
  | immutableAssignment name =>
      some ("`" ++ name ++ "` is immutable, declare it with VAR or LET")
  | immutableWithoutValue name => some ("VAL `" ++ name ++ "` must be given a value")
  | missingDeclarationType name => some ("Give `" ++ name ++ "` a type or a value")
  | invalidAssignmentTarget => some "Only variables and list elements can be assigned"
  | notAList name => some ("`" ++ name ++ "` cannot be indexed")
  | emptyBlock statement => some (statement ++ " body must not be empty")
  | missingMain => some "Define `FUN main(): Integer DO ... END`"
  | divisionByZero => none
  | indexOutOfRange index length =>
      some ("Index " ++ index ++ " is outside a list of length " ++ toString length)

end Cause

/-- The stage of a program's life that met an error. The two that read text know the byte offset
at which they stopped. -/
inductive Stage where
  | lex (offset : Nat)
  | parse (offset : Nat)
  | typing
  | runtime
deriving DecidableEq, Repr

namespace Stage

def name : Stage → String
  | lex _ => "lex"
  | parse _ => "parse"
  | typing => "type"
  | runtime => "runtime"

def position? : Stage → Option Nat
  | lex offset => some offset
  | parse offset => some offset
  | typing => none
  | runtime => none

end Stage

/-- A cause and the stage that met it. -/
structure Error where
  cause : Cause
  stage : Stage
deriving DecidableEq, Repr

namespace Error

def position? (error : Error) : Option Nat :=
  error.stage.position?

/-- The whole message: the stage, then the cause. -/
def message (error : Error) : String :=
  error.stage.name ++ " error: " ++ error.cause.message

end Error

end Scriptlet
