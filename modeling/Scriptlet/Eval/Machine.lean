import Scriptlet.Scope.Basic
import Scriptlet.Syntax.Origin
import Scriptlet.Value.Basic

/-! # The machine

The state of a running program and the steps that read and change it. The machine is general in the
state of its host, which the functions that the host provides may use as they like.

A step ends with a result, or halts with an error, or halts because its limit on nested calls and
on rounds of a loop is used up. It leaves the machine as it is at that moment in every case.
-/

namespace Scriptlet

/-- The place of a variable. A list's type is that of its elements. -/
structure Slot where
  value : Value
  ty : Ty
  mutable : Bool
  isList : Bool
  /-- The declaration that made the slot, unless the host did. -/
  origin : Option VariableOrigin
deriving DecidableEq, Repr

/-- The type that a value must have to be put into the slot, or into its list if `indexed`. What
the slot's type does not speak of can have any type. -/
def Slot.accepted (slot : Slot) (indexed : Bool) : Ty :=
  if slot.isList = indexed then slot.ty else .any

/-- A function of the host: it sees its arguments, the lists and the host's own state. -/
abbrev Native (σ : Type) := List Value → Heap → σ → Value × Heap × σ

/-- What a name can be called for. -/
inductive Callable (σ : Type) where
  | user (function : Function)
  | native (run : Native σ)

abbrev RunScopes (σ : Type) := Scopes Slot (Callable σ)

structure Machine (σ : Type) where
  scopes : RunScopes σ
  heap : Heap
  host : σ

/-- Why a step has no result. -/
inductive Halt where
  | error (cause : Cause)
  | outOfFuel
deriving DecidableEq, Repr

abbrev Eval (σ α : Type) := EStateM Halt (Machine σ) α

namespace Eval

variable {σ α : Type}

def fail (cause : Cause) : Eval σ α :=
  throw (.error cause)

def lift : Except Cause α → Eval σ α
  | .ok result => pure result
  | .error cause => fail cause

/-- Takes a step between entering and leaving a frame, which is left however the step ends. -/
def within (enter leave : RunScopes σ → RunScopes σ) (step : Eval σ α) : Eval σ α :=
  fun machine =>
    match step { machine with scopes := enter machine.scopes } with
    | .ok result machine => .ok result { machine with scopes := leave machine.scopes }
    | .error halt machine => .error halt { machine with scopes := leave machine.scopes }

/-- Takes a step in a block of its own. -/
def inBlock (step : Eval σ α) : Eval σ α :=
  within Scopes.enter Scopes.leaveBlock step

/-- Takes a step in an activation of its own. -/
def inFunction (step : Eval σ α) : Eval σ α :=
  within Scopes.enterFunction Scopes.leaveFunction step

/-- The slot that a name refers to. -/
def slot (name : String) : Eval σ Slot := do
  match (← get).scopes.findVariable? name with
  | some slot => return slot
  | none => fail (.variableNotDeclared name)

/-- Makes a slot in the current frame. -/
def declare (name : String) (slot : Slot) : Eval σ Unit := do
  let machine ← get
  let scopes ← lift (machine.scopes.declareVariable name slot)
  set { machine with scopes }

/-- Puts a value into the slot that a name refers to. -/
def store (name : String) (value : Value) : Eval σ Unit :=
  modify fun machine =>
    { machine with scopes := machine.scopes.modifyVariable name fun slot => { slot with value } }

/-- Creates a list. -/
def createList (elements : List Value) : Eval σ Value := do
  let machine ← get
  set { machine with heap := machine.heap.create elements.toArray }
  return .list machine.heap.fresh

/-- The position that an index denotes in the list at an address. -/
def position (address : Address) (index : Value) : Eval σ Nat := do
  let machine ← get
  lift (index.position (machine.heap.elements address).size)

/-- The element of the list at an address that an index denotes. -/
def elementAt (address : Address) (index : Value) : Eval σ Value := do
  let position ← position address index
  let machine ← get
  return (machine.heap.elements address)[position]?.getD .nil

/-- Replaces the element of the list at an address that an index denotes. -/
def storeElement (address : Address) (index value : Value) : Eval σ Unit := do
  let position ← position address index
  modify fun machine =>
    { machine with heap := machine.heap.setElement address position value }

/-- Refuses a value that a place of the given type does not take. -/
def require (target : Ty) (value : Value) : Eval σ Unit :=
  lift (value.requireFor target)

/-- Refuses a value that a place of the given type does not take, if it is to be checked. -/
def requireIf (checked : Bool) (target : Ty) (value : Value) : Eval σ Unit :=
  if checked then require target value else return ()

/-- The type with the given name. -/
def resolve (name : String) : Eval σ Ty :=
  lift (Ty.ofName name)

/-- Lets a function of the host run. -/
def runNative (run : Native σ) (arguments : List Value) : Eval σ Value :=
  fun machine =>
    match run arguments machine.heap machine.host with
    | (value, heap, host) => .ok value { machine with heap, host }

end Eval

end Scriptlet
