import Scriptlet.Text.Measure

/-! # Lines of a text

The line that holds a byte position. Every line but the last ends with its newline, and the last
line, which may be empty, has none; so a text always has a last line.
-/

namespace Scriptlet.Text

/-- The lines of a text, each with the newline that ends it. -/
def lines : List Char → List (List Char)
  | [] => [[]]
  | c :: cs =>
      if c = '\n' then [c] :: lines cs
      else
        match lines cs with
        | [] => [[c]]
        | line :: rest => (c :: line) :: rest

/-- A place in a text: the number of its line, counted from one, the line itself, and the bytes of
the line before the place. -/
structure Location where
  line : Nat
  text : List Char
  offset : Nat
deriving DecidableEq, Repr

/-- Walks down the lines to the one that holds `position`, which is counted from the start of the
first of them. A position past the last line is moved back to its end. -/
def locateIn (number position : Nat) : List (List Char) → Location
  | [] => ⟨number, [], 0⟩
  | [line] => ⟨number, line, min position (byteLength line)⟩
  | line :: rest =>
      if position < byteLength line then ⟨number, line, position⟩
      else locateIn (number + 1) (position - byteLength line) rest

/-- The line of `content` that holds the byte at `position`, or its last line when the position is
at or past the end. -/
def locate (content : List Char) (position : Nat) : Location :=
  locateIn 1 position (lines content)

theorem lines_ne_nil (cs : List Char) : lines cs ≠ [] := by
  induction cs with
  | nil => simp [lines]
  | cons c cs ih =>
      simp only [lines]
      split
      · simp
      · split <;> simp

/-- The lines of a text make up the text. -/
theorem flatten_lines (cs : List Char) : (lines cs).flatten = cs := by
  induction cs with
  | nil => rfl
  | cons c cs ih =>
      simp only [lines]
      split
      · simp [ih]
      · split
        next hlines => exact absurd hlines (lines_ne_nil cs)
        next line rest hlines =>
          rw [hlines, List.flatten_cons] at ih
          simp [ih]

end Scriptlet.Text
