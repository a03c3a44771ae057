import Scriptlet.Error
import Scriptlet.Text.Measure
import Scriptlet.Token.Basic

/-! # Lexemes

The longest piece of text at a given place that is a token of some kind. A lexeme is described by
its kind and the number of characters it takes, so that the pieces of a text tile it by
construction.
-/

namespace Scriptlet.Lexeme

open Text

/-- What keeps a text from having a lexeme at its start, and how many bytes from there it shows. -/
structure Flaw where
  cause : Cause
  distance : Nat
deriving DecidableEq, Repr

/-- The characters that separate tokens and belong to none. -/
def isSeparator (c : Char) : Bool :=
  c = ' ' || c = '\t' || c = '\n' || c = '\r' || c = '\x08' || c = '\\'

/-- The characters that may follow a backslash inside quotes. -/
def isEscape (c : Char) : Bool :=
  c = 'b' || c = 'n' || c = 'r' || c = 't' || c = '\'' || c = '"' || c = '\\'

def startsIdentifier (c : Char) : Bool :=
  c.isAlpha || c = '@'

def continuesIdentifier (c : Char) : Bool :=
  c.isAlphanum || c = '_' || c = '-'

/-- A number starts with a digit, or with a minus sign before a digit. -/
def startsNumber (c : Char) (rest : List Char) : Bool :=
  c.isDigit || c = '-' && rest.head?.any Char.isDigit

/-- The number at the start of a text: its kind and its length. The part before the point has no
leading zero, a point is followed by a digit, and zero has no sign of its own. -/
def number (text : List Char) : Except Flaw (TokenKind × Nat) :=
  let sign := if text.head? = some '-' then 1 else 0
  let whole := (text.drop sign).takeWhile Char.isDigit
  let rest := (text.drop sign).dropWhile Char.isDigit
  let fraction :=
    match rest with
    | '.' :: digits => digits.takeWhile Char.isDigit
    | _ => []
  let length := sign + whole.length + (if fraction.isEmpty then 0 else fraction.length + 1)
  let literal := text.take length
  if 1 < whole.length && whole.head? = some '0' then
    .error ⟨.invalidNumber (String.ofList literal), sign + 1⟩
  else if fraction.isEmpty && rest.head? = some '.' then
    .error ⟨.invalidNumber (String.ofList (literal ++ ['.'])), length + 1⟩
  else if literal = ['-', '0'] then
    .error ⟨.invalidNumber (String.ofList literal), 0⟩
  else .ok (if fraction.isEmpty then .integer else .decimal, length)

/-- The closing quote of a character literal, `distance` bytes from its start. -/
def closeCharacter (distance : Nat) : List Char → Except Flaw Unit
  | [] => .error ⟨.unterminatedLiteral, distance⟩
  | c :: _ => if c = '\'' then .ok () else .error ⟨.invalidCharacterLiteral, distance⟩

/-- The length of the character literal whose opening quote stands before the given text, without
that quote: one raw character or one escape, and the closing quote. -/
def characterTail : List Char → Except Flaw Nat
  | [] => .error ⟨.unterminatedLiteral, 1⟩
  | '\\' :: [] => .error ⟨.unterminatedLiteral, 2⟩
  | '\\' :: c :: rest =>
      if isEscape c then (closeCharacter 3 rest).map fun _ => 3
      else .error ⟨.invalidEscape (String.singleton c), 2⟩
  | c :: rest =>
      if c = '\'' || c = '\n' || c = '\r' then .error ⟨.invalidCharacterLiteral, 1⟩
      else (closeCharacter (1 + c.utf8Size) rest).map fun _ => 2

/-- The length of the rest of a string literal, up to and with its closing quote. The given text
starts `distance` bytes after the start of the literal. -/
def stringTail (distance : Nat) : List Char → Except Flaw Nat
  | [] => .error ⟨.unterminatedLiteral, distance⟩
  | '\\' :: [] => .error ⟨.unterminatedLiteral, distance + 1⟩
  | '\\' :: c :: rest =>
      if isEscape c then (stringTail (distance + 2) rest).map (· + 2)
      else .error ⟨.invalidEscape (String.singleton c), distance + 1⟩
  | c :: rest =>
      if c = '"' then .ok 1
      else if c = '\n' || c = '\r' then .error ⟨.unterminatedLiteral, distance⟩
      else (stringTail (distance + c.utf8Size) rest).map (· + 1)

/-- The number of characters an operator takes after its first one. -/
def operatorTail (c : Char) (rest : List Char) : Nat :=
  match c, rest with
  | '&', '&' :: _ => 1
  | '|', '|' :: _ => 1
  | '=', '=' :: _ => 1
  | '!', '=' :: _ => 1
  | _, _ => 0

/-- The lexeme that starts with `c`, a character other than a separator: its kind, and how many
characters of `rest` it takes. -/
def read (c : Char) (rest : List Char) : Except Flaw (TokenKind × Nat) :=
  if startsNumber c rest then
    (number (c :: rest)).map fun (kind, length) => (kind, length - 1)
  else if c = '\'' then (characterTail rest).map fun length => (.character, length)
  else if startsIdentifier c then
    .ok (.identifier, (rest.takeWhile continuesIdentifier).length)
  else if c = '"' then (stringTail 1 rest).map fun length => (.string, length)
  else .ok (.operator, operatorTail c rest)

end Scriptlet.Lexeme
