import Scriptlet.Error
import Scriptlet.Eval.Call
import Scriptlet.Eval.Expression
import Scriptlet.Eval.Machine
import Scriptlet.Eval.Program
import Scriptlet.Eval.Statement
import Scriptlet.Host
import Scriptlet.Number.Decimal
import Scriptlet.Number.DecimalText
import Scriptlet.Number.Numeral
import Scriptlet.Number.Power
import Scriptlet.Number.Quotient
import Scriptlet.Order
import Scriptlet.Proofs.Chain
import Scriptlet.Proofs.Ensures
import Scriptlet.Proofs.Eval.Assignment
import Scriptlet.Proofs.Eval.Changes
import Scriptlet.Proofs.Eval.Checked
import Scriptlet.Proofs.Eval.Composed
import Scriptlet.Proofs.Eval.Discipline
import Scriptlet.Proofs.Eval.Erasure
import Scriptlet.Proofs.Eval.Exhaustion
import Scriptlet.Proofs.Eval.Frames
import Scriptlet.Proofs.Eval.FunctionOrder
import Scriptlet.Proofs.Eval.Functions
import Scriptlet.Proofs.Eval.GlobalDeclarations
import Scriptlet.Proofs.Eval.Halting
import Scriptlet.Proofs.Eval.History
import Scriptlet.Proofs.Eval.HostExtension
import Scriptlet.Proofs.Eval.Isolation
import Scriptlet.Proofs.Eval.Limit
import Scriptlet.Proofs.Eval.ListGlobals
import Scriptlet.Proofs.Eval.LocalTypes
import Scriptlet.Proofs.Eval.Moments
import Scriptlet.Proofs.Eval.Names
import Scriptlet.Proofs.Eval.Observed
import Scriptlet.Proofs.Eval.Outline
import Scriptlet.Proofs.Eval.Permitted
import Scriptlet.Proofs.Eval.Preservation
import Scriptlet.Proofs.Eval.ProgramPreservation
import Scriptlet.Proofs.Eval.Resolution
import Scriptlet.Proofs.Eval.SlotHistory
import Scriptlet.Proofs.Eval.StoreTyping
import Scriptlet.Proofs.Eval.Termination
import Scriptlet.Proofs.Eval.Traced
import Scriptlet.Proofs.Eval.TypeSafety
import Scriptlet.Proofs.Eval.TypedValues
import Scriptlet.Proofs.Eval.Widening
import Scriptlet.Proofs.Number.DecimalValue
import Scriptlet.Proofs.Number.LongDivision
import Scriptlet.Proofs.Number.NormalForm
import Scriptlet.Proofs.Number.Rounding
import Scriptlet.Proofs.Number.Squaring
import Scriptlet.Proofs.Scope.Alignment
import Scriptlet.Proofs.Scope.Contents
import Scriptlet.Proofs.Scope.FunctionOrder
import Scriptlet.Proofs.Scope.Layout
import Scriptlet.Proofs.Scope.Links
import Scriptlet.Proofs.Scope.Outline
import Scriptlet.Proofs.Scope.Places
import Scriptlet.Proofs.Scope.Replacement
import Scriptlet.Proofs.Scope.Stack
import Scriptlet.Proofs.Scope.StackRefinement
import Scriptlet.Proofs.Scope.Widening
import Scriptlet.Proofs.Syntax.Accepting
import Scriptlet.Proofs.Syntax.Blame
import Scriptlet.Proofs.Syntax.CallGraph
import Scriptlet.Proofs.Syntax.Causes
import Scriptlet.Proofs.Syntax.ExpressionCompleteness
import Scriptlet.Proofs.Syntax.ExpressionSoundness
import Scriptlet.Proofs.Syntax.Grammar
import Scriptlet.Proofs.Syntax.Locality
import Scriptlet.Proofs.Syntax.Lookahead
import Scriptlet.Proofs.Syntax.Nodes
import Scriptlet.Proofs.Syntax.ProgramCompleteness
import Scriptlet.Proofs.Syntax.ProgramSoundness
import Scriptlet.Proofs.Syntax.ProgramViability
import Scriptlet.Proofs.Syntax.Reading
import Scriptlet.Proofs.Syntax.Rendering
import Scriptlet.Proofs.Syntax.StatementCompleteness
import Scriptlet.Proofs.Syntax.StatementSoundness
import Scriptlet.Proofs.Syntax.Unnumbered
import Scriptlet.Proofs.Syntax.Viability
import Scriptlet.Proofs.Text.Caret
import Scriptlet.Proofs.Text.LineLookup
import Scriptlet.Proofs.Text.ShownLine
import Scriptlet.Proofs.Token.Concatenation
import Scriptlet.Proofs.Token.Decoding
import Scriptlet.Proofs.Token.Ink
import Scriptlet.Proofs.Token.Languages
import Scriptlet.Proofs.Token.Lexemes
import Scriptlet.Proofs.Token.Numbers
import Scriptlet.Proofs.Token.Order
import Scriptlet.Proofs.Token.Printing
import Scriptlet.Proofs.Token.Quotes
import Scriptlet.Proofs.Token.Quoting
import Scriptlet.Proofs.Token.Tiling
import Scriptlet.Proofs.Typing.Composed
import Scriptlet.Proofs.Typing.Consistency
import Scriptlet.Proofs.Typing.Derivation
import Scriptlet.Proofs.Typing.ExpressionSoundness
import Scriptlet.Proofs.Typing.FunctionOrder
import Scriptlet.Proofs.Typing.LocalRules
import Scriptlet.Proofs.Typing.Outline
import Scriptlet.Proofs.Typing.ProgramSoundness
import Scriptlet.Proofs.Typing.Widening
import Scriptlet.Proofs.Value.Bisimilarity
import Scriptlet.Proofs.Value.DisplayedLists
import Scriptlet.Report
import Scriptlet.Scope.Basic
import Scriptlet.Scope.Linked
import Scriptlet.Scope.Table
import Scriptlet.Syntax.Cursor
import Scriptlet.Syntax.Operator
import Scriptlet.Syntax.Origin
import Scriptlet.Syntax.Parse.Expression
import Scriptlet.Syntax.Parse.Program
import Scriptlet.Syntax.Parse.Statement
import Scriptlet.Syntax.Tree
import Scriptlet.Text.Blank
import Scriptlet.Text.Line
import Scriptlet.Text.Measure
import Scriptlet.Text.Quoted
import Scriptlet.Text.Range
import Scriptlet.Text.Unprintable
import Scriptlet.Token.Basic
import Scriptlet.Token.Lexeme
import Scriptlet.Token.Literal
import Scriptlet.Token.Scan
import Scriptlet.Ty
import Scriptlet.Typing.Annotations
import Scriptlet.Typing.Check
import Scriptlet.Typing.Expression
import Scriptlet.Typing.Operator
import Scriptlet.Typing.Program
import Scriptlet.Typing.Statement
import Scriptlet.Value.Basic
import Scriptlet.Value.Display
import Scriptlet.Value.Equality
import Scriptlet.Value.Operation
