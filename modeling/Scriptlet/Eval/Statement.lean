import Scriptlet.Eval.Expression

/-! # Executing statements

A statement either lets the next one follow or returns from the function it stands in. Blocks run
in frames of their own.
-/

namespace Scriptlet

/-- Where control goes after a statement. -/
inductive Flow where
  | next
  | returning (value : Value)
deriving DecidableEq, Repr

namespace Eval

variable {σ : Type}

/-- Takes a step again and again while a test holds, until it returns. The test is made at most
`limit` times. -/
def repeatWhile (test : Eval σ Bool) (step : Eval σ Flow) : (limit : Nat) → Eval σ Flow
  | 0 => throw .outOfFuel
  | limit + 1 => do
      if ← test then
        match ← step with
        | .next => repeatWhile test step limit
        | .returning value => return .returning value
      else return .next

variable (policy : Division) (call : String → List Value → Eval σ Value)

/-- The first value of a variable; without one it is nil. -/
def initialValue : Option Expr → Eval σ Value
  | some initial => expression policy call initial
  | none => return .nil

/-- The type of a local variable: the declared one, or that of its first value. -/
def slotType (value : Value) : Option String → Eval σ Ty
  | some typeName => resolve typeName
  | none => return value.ty

/-- Makes the slot of a local variable. Without a declared type it has the type of its first value,
and without a first value it holds nil whatever its type. -/
def declaration (id : NodeId) (name : String) (typeName : Option String)
    (initial : Option Expr) : Eval σ Unit := do
  let value ← initialValue policy call initial
  let ty ← slotType value typeName
  requireIf initial.isSome ty value
  declare name { value, ty, mutable := true, isList := false, origin := some (.declaration id) }

/-- Puts a value into a variable, or into the list that a variable holds. The elements of a list
can be changed even where the variable cannot. -/
def assignment (receiver value : Expr) : Eval σ Unit := do
  match receiver with
  | .access _ name =>
      let value ← expression policy call value
      let slot ← slot name
      require (slot.accepted false) value
      if slot.mutable then store name value
      else fail (.immutableAssignment name)
  | .element _ name index =>
      let index ← expression policy call index
      let value ← expression policy call value
      let slot ← slot name
      require (slot.accepted true) value
      let address ← lift (slot.value.address name)
      storeElement address index value
  | _ => fail .invalidAssignmentTarget

variable (limit : Nat)

mutual

/-- Loops make at most `limit` rounds. -/
def statement : Stmt → Eval σ Flow
  | .expression value => do
      let _ ← expression policy call value
      return .next
  | .declaration id name typeName initial => do
      declaration policy call id name typeName initial
      return .next
  | .assignment receiver value => do
      assignment policy call receiver value
      return .next
  | .branch test thenBlock elseBlock => do
      if ← condition policy call test then inBlock (block thenBlock)
      else inBlock (block elseBlock)
  | .switch subject arms =>
      inBlock do
        let value ← expression policy call subject
        cases value arms
  | .loop test body =>
      repeatWhile (condition policy call test) (inBlock (block body)) limit
  | .ret value => do
      let value ← expression policy call value
      return .returning value

/-- The statements of a block in the current frame, up to the first that returns. -/
def block : List Stmt → Eval σ Flow
  | [] => return .next
  | first :: rest => do
      match ← statement first with
      | .next => block rest
      | .returning value => return .returning value

/-- The body of the first arm whose value equals the subject's, or of the default arm. -/
def cases (subject : Value) : List Case → Eval σ Flow
  | [] => return .next
  | .mk none body :: _ => inBlock (block body)
  | .mk (some value) body :: rest => do
      let value ← expression policy call value
      let machine ← get
      if machine.heap.equal value subject then inBlock (block body)
      else cases subject rest

end

end Eval

end Scriptlet
