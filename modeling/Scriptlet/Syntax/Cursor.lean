import Scriptlet.Error
import Scriptlet.Syntax.Tree
import Scriptlet.Token.Basic

/-! # Reading tokens in order

A cursor is what remains to be read of a sequence of tokens, and a `Parse` is a step that reads
from it. A step that fails keeps what it has read read.
-/

namespace Scriptlet

/-- The tokens still to be read, the offset at which the whole sequence ends, and the next free
node identifier. -/
structure Cursor where
  tokens : List Token
  finish : Nat
  nextId : NodeId
deriving DecidableEq, Repr

namespace Cursor

/-- A cursor at the start of a sequence of tokens. -/
def start (tokens : List Token) : Cursor where
  tokens := tokens
  finish := (tokens.getLast?.map Token.stop).getD 0
  nextId := 0

/-- The offset of the next token, or of the end. -/
def offset (cursor : Cursor) : Nat :=
  match cursor.tokens with
  | [] => cursor.finish
  | token :: _ => token.offset

/-- The error of meeting the next token, or the end, where something else should stand. -/
def unexpected (cursor : Cursor) (expected : String) : Error :=
  match cursor.tokens with
  | [] => ⟨.unexpectedEnd expected, .parse cursor.finish⟩
  | token :: _ => ⟨.unexpectedToken token.text expected, .parse token.offset⟩

/-- The given cause as an error at the next token. -/
def failure (cursor : Cursor) (cause : Cause) : Error :=
  ⟨cause, .parse cursor.offset⟩

/-- Whether the next token is the given reserved word. -/
def atKeyword (cursor : Cursor) (keyword : Keyword) : Bool :=
  match cursor.tokens with
  | [] => false
  | token :: _ => token.keyword? = some keyword

/-- Whether the next token is the given operator. -/
def atOperator (cursor : Cursor) (operator : String) : Bool :=
  match cursor.tokens with
  | [] => false
  | token :: _ => token.kind = .operator && token.text = operator

/-- Whether the next token is an identifier that is not reserved. -/
def atName (cursor : Cursor) : Bool :=
  match cursor.tokens with
  | [] => false
  | token :: _ => token.kind = .identifier && token.keyword?.isNone

end Cursor

/-- A step that reads from a cursor, or fails and leaves the cursor where it got to. -/
abbrev Parse (α : Type) := EStateM Error Cursor α

namespace Parse

/-- Fails because the next token is not what is expected. -/
def fail {α : Type} (expected : String) : Parse α :=
  fun cursor => .error (cursor.unexpected expected) cursor

/-- Fails with the given cause at the next token. -/
def failWith {α : Type} (cause : Cause) : Parse α :=
  fun cursor => .error (cursor.failure cause) cursor

/-- Runs a step with a limit on its depth and repetitions that the remaining tokens cannot
exceed, as each repetition and each nested construct reads at least one of them. -/
def bounded {α : Type} (step : Nat → Parse α) : Parse α :=
  fun cursor => step (cursor.tokens.length + 1) cursor

/-- Reads any one token. -/
def advance (expected : String) : Parse Token :=
  fun cursor =>
    match cursor.tokens with
    | [] => .error (cursor.unexpected expected) cursor
    | token :: rest => .ok token { cursor with tokens := rest }

/-- Takes a fresh node identifier. -/
def freshId : Parse NodeId :=
  fun cursor => .ok cursor.nextId { cursor with nextId := cursor.nextId + 1 }

/-- Reads the given operator if it is next, and tells whether it was. -/
def tryOperator (operator : String) : Parse Bool := do
  if (← get).atOperator operator then
    let _ ← advance operator
    return true
  else return false

/-- Reads the given reserved word if it is next, and tells whether it was. -/
def tryKeyword (keyword : Keyword) (expected : String) : Parse Bool := do
  if (← get).atKeyword keyword then
    let _ ← advance expected
    return true
  else return false

/-- Reads the given operator. -/
def expectOperator (operator : String) : Parse Token := do
  if (← get).atOperator operator then advance operator
  else fail ("`" ++ operator ++ "`")

/-- Reads the given reserved word. -/
def expectKeyword (keyword : Keyword) (expected : String) : Parse Token := do
  if (← get).atKeyword keyword then advance expected
  else fail expected

/-- Reads an identifier that is not reserved. -/
def expectName (expected : String) : Parse String := do
  if (← get).atName then
    let token ← advance expected
    return token.text
  else fail expected

/-- Reads items separated by commas up to the closing bracket, which no comma may stand before.
At most `limit` items are read. -/
def separated {α : Type} (item : Parse α) (closing : String) : (limit : Nat) → Parse (List α)
  | 0 => fail ("`" ++ closing ++ "`")
  | limit + 1 => do
      let first ← item
      if ← tryOperator "," then
        if (← get).atOperator closing then failWith .trailingComma
        else
          let rest ← separated item closing limit
          return first :: rest
      else
        let _ ← expectOperator closing
        return [first]

/-- Reads the type after a colon, if there is one. -/
def typeAnnotation : Parse (Option String) := do
  if ← tryOperator ":" then
    let name ← expectName "a type name"
    return some name
  else return none

/-- Reads with a step that has to use up all the tokens. -/
def toEnd {α : Type} (step : Parse α) (expected : String) : Parse α := do
  let result ← step
  if (← get).tokens.isEmpty then return result
  else fail expected

/-- The outcome of a step on a whole sequence of tokens. -/
def run {α : Type} (step : Parse α) (tokens : List Token) : Except Error α :=
  match step (Cursor.start tokens) with
  | .ok result _ => .ok result
  | .error error _ => .error error

end Parse

end Scriptlet
