import Scriptlet.Text.Measure

/-! # Quoted literals

What the text of a character or string literal stands for.
-/

namespace Scriptlet.Token

/-- The character that a backslash and `c` stand for. -/
def escaped (c : Char) : Char :=
  if c = 'b' then '\x08'
  else if c = 'n' then '\n'
  else if c = 'r' then '\r'
  else if c = 't' then '\t'
  else c

/-- Replaces every escape by the character it stands for. A backslash at the very end stands for
itself. -/
def unescape : List Char → List Char
  | [] => []
  | '\\' :: [] => ['\\']
  | '\\' :: c :: rest => escaped c :: unescape rest
  | c :: rest => c :: unescape rest

/-- The text without its first and its last byte, or nothing if that cuts a character or there is
nothing between the two. -/
def between (text : List Char) : List Char :=
  match text with
  | [] => []
  | first :: rest =>
      match rest.getLast? with
      | none => []
      | some last =>
          if first.utf8Size = 1 && last.utf8Size = 1 then rest.dropLast else []

end Scriptlet.Token
