import Scriptlet.Text.Measure

/-! # Tokens

The words of a program. A token keeps its text exactly as it stands in the source, together with
the byte offset of its first character.
-/

namespace Scriptlet

/-- The kinds of token. Reserved words are identifiers, and all punctuation is operators. -/
inductive TokenKind where
  | identifier
  | integer
  | decimal
  | character
  | string
  | operator
deriving DecidableEq, Repr

def TokenKind.name : TokenKind → String
  | identifier => "Identifier"
  | integer => "Integer"
  | decimal => "Decimal"
  | character => "Character"
  | string => "String"
  | operator => "Operator"

/-- The reserved words, spelled as in programs. -/
inductive Keyword where
  | LIST
  | VAR
  | VAL
  | FUN
  | DO
  | END
  | LET
  | SWITCH
  | CASE
  | DEFAULT
  | IF
  | ELSE
  | WHILE
  | RETURN
  | TRUE
  | FALSE
  | NIL
deriving DecidableEq, Repr

/-- The reserved word with the given spelling. -/
def Keyword.ofText? : String → Option Keyword
  | "LIST" => some LIST
  | "VAR" => some VAR
  | "VAL" => some VAL
  | "FUN" => some FUN
  | "DO" => some DO
  | "END" => some END
  | "LET" => some LET
  | "SWITCH" => some SWITCH
  | "CASE" => some CASE
  | "DEFAULT" => some DEFAULT
  | "IF" => some IF
  | "ELSE" => some ELSE
  | "WHILE" => some WHILE
  | "RETURN" => some RETURN
  | "TRUE" => some TRUE
  | "FALSE" => some FALSE
  | "NIL" => some NIL
  | _ => none

structure Token where
  kind : TokenKind
  text : String
  offset : Nat
deriving DecidableEq, Repr

namespace Token

/-- The byte offset just after the token. -/
def stop (token : Token) : Nat :=
  token.offset + Text.byteLength token.text.toList

/-- The reserved word that the token is, if it is one. -/
def keyword? (token : Token) : Option Keyword :=
  if token.kind = .identifier then Keyword.ofText? token.text else none

/-- The token with its kind and its place. -/
def describe (token : Token) : String :=
  token.kind.name ++ "(" ++ token.text ++ ") @ " ++ toString token.offset

end Token

end Scriptlet
