import Scriptlet.Token.Lexeme

/-! # Scanning a text into tokens

A text is read from left to right: separators are dropped, and each remaining place gives the token
of its lexeme. The scan stops at the first place that has none.
-/

namespace Scriptlet

open Text

/-- The tokens of a text that starts at the given byte offset. -/
def scan (offset : Nat) : List Char → Except Error (List Token)
  | [] => .ok []
  | c :: cs =>
      if Lexeme.isSeparator c then scan (offset + c.utf8Size) cs
      else
        match Lexeme.read c cs with
        | .error flaw => .error ⟨flaw.cause, .lex (offset + flaw.distance)⟩
        | .ok (kind, more) => do
            let text := c :: cs.take more
            let rest ← scan (offset + byteLength text) (cs.drop more)
            return ⟨kind, String.ofList text, offset⟩ :: rest
termination_by text => text.length
decreasing_by
  · simp
  · simp only [List.length_drop, List.length_cons]
    omega

/-- The tokens of a text. -/
def tokenize (text : String) : Except Error (List Token) :=
  scan 0 text.toList

end Scriptlet
