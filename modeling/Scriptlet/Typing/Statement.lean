import Scriptlet.Typing.Expression

/-! # Typing of statements

Blocks open frames of their own, so what a block declares is forgotten at its end.
-/

namespace Scriptlet.Check

/-- A condition is Boolean. -/
def condition (expr : Expr) : Check Unit := do
  let ty ← expression expr
  lift (Ty.requireAssignable .boolean ty)

/-- The type of a first value, if there is one. -/
def givenType : Option Expr → Check (Option Ty)
  | some initial => do
      let ty ← expression initial
      return some ty
  | none => return none

/-- The type with a name, if there is one. -/
def declaredType : Option String → Check (Option Ty)
  | some typeName => do
      let ty ← resolve typeName
      return some ty
  | none => return none

/-- The type of a local variable from its declared type and the type of its first value. -/
def localType (name : String) : Option Ty → Option Ty → Except Cause Ty
  | some declared, some given => do
      Ty.requireAssignable declared given
      return declared
  | some declared, none => return declared
  | none, some given => return given
  | none, none => throw (.missingDeclarationType name)

/-- A local variable has the declared type, which its first value must fit, or else the type of its
first value. -/
def declaration (id : NodeId) (name : String) (typeName : Option String)
    (initial : Option Expr) : Check Unit := do
  let declared ← declaredType typeName
  let given ← givenType initial
  let ty ← lift (localType name declared given)
  record (·.recordDeclaration id ty)
  declareVariable name { ty, mutable := true, isList := false, origin := .declaration id }

/-- An assignment goes to a variable or an element, whose type the value must fit. -/
def assignment (receiver value : Expr) : Check Unit := do
  match receiver with
  | .access _ _ | .element _ _ _ =>
      let target ← expression receiver
      let ty ← expression value
      lift (Ty.requireAssignable target ty)
  | _ => throw .invalidAssignmentTarget

/-- The value of an arm has the type of the switch's subject. -/
def armValue (subject : Ty) : Option Expr → Check Unit
  | some value => do
      let ty ← expression value
      lift (Ty.requireSame subject ty)
  | none => return ()

/-- A switch has exactly one default arm, as its last. -/
def endsWithDefault (arms : List Case) : Bool :=
  arms.countP Case.isDefault = 1 && arms.getLast?.any Case.isDefault

mutual

def statement : Stmt → Check Unit
  | .expression value => do
      let _ ← expression value
  | .declaration id name typeName initial => declaration id name typeName initial
  | .assignment receiver value => assignment receiver value
  | .branch test thenBlock elseBlock => do
      condition test
      if thenBlock.isEmpty then throw (.emptyBlock "IF")
      else
        inBlock (block thenBlock)
        inBlock (block elseBlock)
  | .switch subject arms => do
      let ty ← expression subject
      if endsWithDefault arms then cases ty arms
      else throw .misplacedDefault
  | .loop test body => do
      condition test
      inBlock (block body)
  | .ret value => do
      let ty ← expression value
      let typing ← get
      lift (Ty.requireAssignable typing.returnType ty)

/-- The statements of a block in the current frame. -/
def block : List Stmt → Check Unit
  | [] => return ()
  | first :: rest => do
      statement first
      block rest

/-- The arms of a switch on a value of type `subject`; the values of the arms have that type. -/
def cases (subject : Ty) : List Case → Check Unit
  | [] => return ()
  | .mk value body :: rest => do
      armValue subject value
      inBlock (block body)
      cases subject rest

end

end Scriptlet.Check
