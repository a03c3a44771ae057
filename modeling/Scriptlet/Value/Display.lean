import Scriptlet.Number.DecimalText
import Scriptlet.Text.Quoted
import Scriptlet.Value.Basic

/-! # Values as text

A value is displayed as programs print it, and described with its kind for a reader who has to tell
kinds apart. A list inside itself is displayed by dots.
-/

namespace Scriptlet

namespace Value

/-- The text of a value that is not a list. -/
def scalarText : Value → String
  | nil => "NIL"
  | boolean value => if value then "true" else "false"
  | integer value => String.ofList (Numeral.writeInt value)
  | decimal value => String.ofList value.write
  | character value => String.singleton value
  | string value => value
  | list _ => "[...]"

end Value

namespace Heap

/-- The text of a value inside the lists whose addresses are given, down to a number of levels. -/
def displayWithin (heap : Heap) : (levels : Nat) → (enclosing : List Address) → Value → String
  | levels + 1, enclosing, .list address =>
      if enclosing.contains address then "[...]"
      else
        let elements := (heap.elements address).toList.map
          (displayWithin heap levels (address :: enclosing))
        "[" ++ ", ".intercalate elements ++ "]"
  | _, _, value => value.scalarText

/-- The text of a value. Lists that enclose each other are all different, so there cannot be more
levels of them than there are lists. -/
def display (heap : Heap) (value : Value) : String :=
  heap.displayWithin (heap.size + 1) [] value

/-- The text of a value with its kind, and with quotes where its kind has them. -/
def describe (heap : Heap) (value : Value) : String :=
  match value with
  | .nil => "Nil"
  | .boolean _ => "Boolean(" ++ value.scalarText ++ ")"
  | .integer _ => "Integer(" ++ value.scalarText ++ ")"
  | .decimal _ => "Decimal(" ++ value.scalarText ++ ")"
  | .character c => "Character(" ++ Text.quotedChar c ++ ")"
  | .string s => "String(" ++ Text.quoted s ++ ")"
  | .list _ => "List(" ++ heap.display value ++ ")"

end Heap

end Scriptlet
