import Scriptlet.Typing.Annotations
import Scriptlet.Typing.Operator

/-! # Checking types

A check walks over a program and, as long as every part has a type that fits its place, records the
types and the declarations that names refer to. The records and declarations made before a failure
stay.
-/

namespace Scriptlet

/-- What is known of a variable that can be seen. A list's type is that of its elements. -/
structure VariableInfo where
  ty : Ty
  mutable : Bool
  isList : Bool
  origin : VariableOrigin
deriving DecidableEq, Repr

/-- What is known of a function that can be seen. -/
structure FunctionInfo where
  parameterTypes : List Ty
  returnType : Ty
  origin : FunctionOrigin
deriving DecidableEq, Repr

abbrev StaticScopes := Scopes VariableInfo FunctionInfo

/-- The declarations that can be seen, the records so far, and the type that a return must fit. -/
structure Typing where
  scopes : StaticScopes
  annotations : Annotations
  returnType : Ty
deriving Repr

namespace Typing

def start (scopes : StaticScopes) : Typing :=
  ⟨scopes, .empty, .nil⟩

end Typing

abbrev Check (α : Type) := EStateM Cause Typing α

namespace Check

def lift {α : Type} : Except Cause α → Check α
  | .ok result => pure result
  | .error cause => throw cause

/-- Makes a record. -/
def record (change : Annotations → Annotations) : Check Unit :=
  modify fun typing => { typing with annotations := change typing.annotations }

/-- The type with the given name. -/
def resolve (name : String) : Check Ty :=
  lift (Ty.ofName name)

/-- The type of what a function without a declared type returns is nil. -/
def resolveReturn : Option String → Check Ty
  | some name => resolve name
  | none => return .nil

def declareVariable (name : String) (info : VariableInfo) : Check Unit := do
  let typing ← get
  let scopes ← lift (typing.scopes.declareVariable name info)
  set { typing with scopes }

def declareFunction (signature : Signature) (info : FunctionInfo) : Check Unit := do
  let typing ← get
  let scopes ← lift (typing.scopes.declareFunction signature info)
  set { typing with scopes }

/-- Makes a check between entering and leaving a frame, which is left also when the check fails. -/
def within {α : Type} (enter leave : StaticScopes → StaticScopes) (check : Check α) : Check α :=
  fun typing =>
    match check { typing with scopes := enter typing.scopes } with
    | .ok result typing => .ok result { typing with scopes := leave typing.scopes }
    | .error cause typing => .error cause { typing with scopes := leave typing.scopes }

/-- Makes a check in a block of its own. -/
def inBlock {α : Type} (check : Check α) : Check α :=
  within Scopes.enter Scopes.leaveBlock check

/-- Makes a check in an activation of its own. -/
def inFunction {α : Type} (check : Check α) : Check α :=
  within Scopes.enterFunction Scopes.leaveFunction check

/-- Looks a variable up for the node that names it. -/
def visibleVariable (id : NodeId) (name : String) : Check VariableInfo := do
  match (← get).scopes.findVariable? name with
  | none => throw (.variableNotDeclared name)
  | some info =>
      record (·.recordVariable id info.origin)
      return info

end Check

end Scriptlet
