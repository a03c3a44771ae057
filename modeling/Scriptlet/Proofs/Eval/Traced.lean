import Scriptlet.Proofs.Eval.Changes

/-! # Evaluation with its changes

Evaluation that tells each change it makes to the machine, in order, besides how it ends. Every
part of it has the form of the part of evaluation that it stands for, and leaving out the changes
gives that part back.
-/

namespace Scriptlet

variable {σ α β : Type}

/-- A step that tells its changes: from a machine, the changes in their order, and the result or
why there is none. -/
def Traced (σ α : Type) := Machine σ → List (Change σ) × Except Halt α

namespace Traced

instance : Monad (Traced σ) where
  pure result := fun _ => ([], .ok result)
  bind step next := fun machine =>
    match step machine with
    | (changes, .ok result) =>
        let more := next result (machine.after changes)
        (changes ++ more.1, more.2)
    | (changes, .error halt) => (changes, .error halt)

/-- The step without its changes. -/
def run (step : Traced σ α) : Eval σ α := fun machine =>
  match step machine with
  | (changes, .ok result) => .ok result (machine.after changes)
  | (changes, .error halt) => .error halt (machine.after changes)

/-! ## Elementary steps -/

def halt (reason : Halt) : Traced σ α := fun _ => ([], .error reason)

def fail (cause : Cause) : Traced σ α := halt (.error cause)

def lift : Except Cause α → Traced σ α
  | .ok result => pure result
  | .error cause => fail cause

/-- Reads something off the machine. -/
def view (look : Machine σ → α) : Traced σ α := fun machine => ([], .ok (look machine))

/-- Makes a change. -/
def make (change : Change σ) : Traced σ Unit := fun _ => ([change], .ok ())

/-- Takes a step between two changes, the second of which is made however the step ends. -/
def within (enter leave : Change σ) (step : Traced σ α) : Traced σ α := fun machine =>
  let inner := step (enter.apply machine)
  (enter :: inner.1 ++ [leave], inner.2)

theorem after_within (enter leave : Change σ) (step : Traced σ α) (machine : Machine σ) :
    machine.after (within enter leave step machine).1 =
      leave.apply ((enter.apply machine).after (step (enter.apply machine)).1) := by
  simp [within]

def inBlock (step : Traced σ α) : Traced σ α :=
  within .enterBlock .leaveBlock step

def inFunction (step : Traced σ α) : Traced σ α :=
  within .enterFunction .leaveFunction step

def slot (name : String) : Traced σ Slot := do
  match ← view fun machine => machine.scopes.findVariable? name with
  | some slot => return slot
  | none => fail (.variableNotDeclared name)

def require (target : Ty) (value : Value) : Traced σ Unit :=
  lift (value.requireFor target)

def requireIf (checked : Bool) (target : Ty) (value : Value) : Traced σ Unit :=
  if checked then require target value else return ()

def resolve (name : String) : Traced σ Ty :=
  lift (Ty.ofName name)

/-- Makes a slot in the current frame. -/
def declare (name : String) (slot : Slot) (given : Bool) : Traced σ Unit := do
  if ← view fun machine => machine.scopes.current.vars.binds name then
    fail (.variableAlreadyDeclared name)
  else make (.declare name slot given)

/-- Makes a slot whose value, if the program gives it one, fits it. -/
def introduce (name : String) (slot : Slot) (given : Bool) : Traced σ Unit := do
  requireIf given slot.ty slot.value
  declare name slot given

/-- Puts a value into a variable that takes it. -/
def assign (name : String) (value : Value) : Traced σ Unit := do
  let slot ← slot name
  require (slot.accepted false) value
  if slot.mutable then make (.store name value)
  else fail (.immutableAssignment name)

def createList (elements : List Value) : Traced σ Value := do
  let address ← view fun machine => machine.heap.fresh
  make (.createList elements)
  return .list address

def position (address : Address) (index : Value) : Traced σ Nat := do
  let length ← view fun machine => (machine.heap.elements address).size
  lift (index.position length)

def elementAt (address : Address) (index : Value) : Traced σ Value := do
  let position ← position address index
  view fun machine => (machine.heap.elements address)[position]?.getD .nil

/-- Puts a value into the list that a variable holds, if the variable takes such elements. -/
def assignElement (name : String) (index value : Value) : Traced σ Unit := do
  let slot ← slot name
  require (slot.accepted true) value
  let address ← lift (slot.value.address name)
  let position ← position address index
  make (.storeElement name address position value)

def runNative (name : String) (run : Native σ) (arguments : List Value) : Traced σ Value := do
  let value ← view fun machine => (run arguments machine.heap machine.host).1
  make (.native name run arguments)
  return value

/-! ## Expressions -/

section

variable (policy : Division) (call : String → List Value → Traced σ Value)

mutual

def expression : Expr → Traced σ Value
  | .literal _ value => return .ofLiteral value
  | .group _ inner => expression inner
  | .binary _ operator left right => do
      let first ← expression left
      match operator.deciding? with
      | some verdict =>
          let truth ← lift first.truth
          if truth = verdict then return .boolean verdict
          else
            let second ← expression right
            let truth ← lift second.truth
            return .boolean truth
      | none =>
          let second ← expression right
          let heap ← view fun machine => machine.heap
          lift (operator.apply policy heap first second)
  | .access _ name => do
      let slot ← slot name
      return slot.value
  | .element _ name index => do
      let index ← expression index
      let slot ← slot name
      let address ← lift (slot.value.address name)
      elementAt address index
  | .call _ name arguments => do
      let values ← expressions arguments
      call name values
  | .list _ elements => do
      let values ← expressions elements
      createList values

def expressions : List Expr → Traced σ (List Value)
  | [] => return []
  | first :: rest => do
      let value ← expression first
      let values ← expressions rest
      return value :: values

end

def condition (expr : Expr) : Traced σ Bool := do
  let value ← expression policy call expr
  lift value.truth

/-! ## Statements -/

def repeatWhile (test : Traced σ Bool) (step : Traced σ Flow) : (limit : Nat) → Traced σ Flow
  | 0 => halt .outOfFuel
  | limit + 1 => do
      if ← test then
        match ← step with
        | .next => repeatWhile test step limit
        | .returning value => return .returning value
      else return .next

def slotType (value : Value) : Option String → Traced σ Ty
  | some typeName => resolve typeName
  | none => return value.ty

/-- The slot of a local variable that a program declares. -/
def localSlot (id : NodeId) (value : Value) (ty : Ty) : Slot :=
  { value, ty, mutable := true, isList := false, origin := some (.declaration id) }

def declaration (id : NodeId) (name : String) (typeName : Option String) :
    (initial : Option Expr) → Traced σ Unit
  | some initial => do
      let value ← expression policy call initial
      let ty ← slotType value typeName
      introduce name (localSlot id value ty) true
  | none => do
      let ty ← slotType .nil typeName
      introduce name (localSlot id .nil ty) false

def assignment (receiver value : Expr) : Traced σ Unit := do
  match receiver with
  | .access _ name =>
      let value ← expression policy call value
      assign name value
  | .element _ name index =>
      let index ← expression policy call index
      let value ← expression policy call value
      assignElement name index value
  | _ => fail .invalidAssignmentTarget

variable (limit : Nat)

mutual

def statement : Stmt → Traced σ Flow
  | .expression value => do
      let _ ← expression policy call value
      return .next
  | .declaration id name typeName initial => do
      declaration policy call id name typeName initial
      return .next
  | .assignment receiver value => do
      assignment policy call receiver value
      return .next
  | .branch test thenBlock elseBlock => do
      if ← condition policy call test then inBlock (block thenBlock)
      else inBlock (block elseBlock)
  | .switch subject arms =>
      inBlock do
        let value ← expression policy call subject
        cases value arms
  | .loop test body =>
      repeatWhile (condition policy call test) (inBlock (block body)) limit
  | .ret value => do
      let value ← expression policy call value
      return .returning value

def block : List Stmt → Traced σ Flow
  | [] => return .next
  | first :: rest => do
      match ← statement first with
      | .next => block rest
      | .returning value => return .returning value

def cases (subject : Value) : List Case → Traced σ Flow
  | [] => return .next
  | .mk none body :: _ => inBlock (block body)
  | .mk (some value) body :: rest => do
      let value ← expression policy call value
      let heap ← view fun machine => machine.heap
      if heap.equal value subject then inBlock (block body)
      else cases subject rest

end

end

/-! ## Calls and programs -/

/-- The slot of a parameter. -/
def parameterSlot (function : NodeId) (index : Nat) (value : Value) (ty : Ty) : Slot :=
  { value, ty, mutable := true, isList := false, origin := some (.parameter function index) }

def parameters (function : NodeId) :
    (index : Nat) → List String → List String → List Value → Traced σ Unit
  | index, name :: names, typeName :: typeNames, value :: values => do
      let ty ← resolve typeName
      introduce name (parameterSlot function index value ty) true
      parameters function (index + 1) names typeNames values
  | _, _, _, _ => return ()

def returnType : Option String → Traced σ Ty
  | some name => resolve name
  | none => return .nil

def returned (f : Function) : Flow → Traced σ Value
  | .next => return .nil
  | .returning value => do
      let ty ← returnType f.returnType
      require ty value
      return value

section

variable (policy : Division)

def call : (limit : Nat) → (name : String) → (arguments : List Value) → Traced σ Value
  | 0, _, _ => halt .outOfFuel
  | limit + 1, name, arguments => do
      match ← view fun machine => machine.scopes.findFunction? ⟨name, arguments.length⟩ with
      | none => fail (.functionNotDeclared name arguments.length)
      | some (.native run) => runNative name run arguments
      | some (.user f) =>
          let flow ← inFunction do
            parameters f.id 0 f.parameterNames f.parameterTypes arguments
            block policy (call limit) limit f.body
          returned f flow

end

def requireAll (target : Ty) : List Value → Traced σ Unit
  | [] => return ()
  | first :: rest => do
      require target first
      requireAll target rest

def requireInitial (g : Global) (ty : Ty) (value : Value) : Traced σ Unit := do
  match g.isList, value with
  | true, .list address =>
      let elements ← view fun machine => (machine.heap.elements address).toList
      requireAll ty elements
  | _, _ => requireIf g.initial.isSome ty value

def declareFunction (f : Function) : Traced σ Unit := do
  if ← view fun machine => machine.scopes.current.funs.binds ⟨f.name, f.arity⟩ then
    fail (.functionAlreadyDeclared f.name f.arity)
  else make (.declareFunction f)

def each {α : Type} (step : α → Traced σ Unit) : List α → Traced σ Unit
  | [] => return ()
  | first :: rest => do
      step first
      each step rest

variable (policy : Division) (limit : Nat)

def initialValue : Option Expr → Traced σ Value
  | some initial => expression policy (call policy limit) initial
  | none => return .nil

/-- The slot of a global. -/
def globalSlot (g : Global) (value : Value) (ty : Ty) : Slot :=
  { value, ty, mutable := g.mutable, isList := g.isList, origin := some (.global g.id) }

def global (g : Global) : Traced σ Unit := do
  let ty ← resolve g.typeName
  let value ← initialValue policy limit g.initial
  requireInitial g ty value
  declare g.name (globalSlot g value ty) g.initial.isSome

def program (p : Program) : Traced σ Value := do
  each (global policy limit) p.globals
  each declareFunction p.functions
  call policy limit "main" []

end Traced

end Scriptlet
