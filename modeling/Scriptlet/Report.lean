import Scriptlet.Error
import Scriptlet.Text.Blank
import Scriptlet.Text.Line

/-! # Error reports

The report of an error for a reader: a heading with the tip, the file, and either the source line
with a caret below it or, for an error without a position, the message.
-/

namespace Scriptlet.Error

open Text

/-- The tabs and spaces that indent a line. -/
def indentation (line : List Char) : List Char :=
  line.takeWhile fun c => c = ' ' || c = '\t'

/-- The source line without its indentation and trailing white space, between two rules in the
margin; the lower rule ends in a caret below the position. -/
def excerpt (place : Location) : String :=
  let number := toString place.line
  let margin := String.ofList (List.replicate (number.length + 1) ' ') ++ "|"
  let indent := indentation place.text
  let shown := trimEnd (place.text.drop indent.length)
  let dashes := List.replicate (place.offset - indent.length) '-'
  margin ++ "\n" ++ number ++ " | " ++ String.ofList shown ++ "\n" ++
    margin ++ " " ++ String.ofList dashes ++ "^\n"

/-- The report of an error met in `source`, the text of the file called `file`. -/
def report (error : Error) (source file : String) : String :=
  let heading :=
    match error.cause.tip with
    | some tip => "Error: " ++ error.cause.name ++ " (" ++ tip ++ ")\n"
    | none => "Error: " ++ error.cause.name ++ "\n"
  let body :=
    match error.position? with
    | some position => excerpt (locate source.toList position)
    | none => error.message ++ "\n"
  heading ++ "-> " ++ file ++ "\n" ++ body

end Scriptlet.Error
