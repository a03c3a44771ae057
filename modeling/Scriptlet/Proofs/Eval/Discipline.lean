import Scriptlet.Host
import Scriptlet.Proofs.Eval.Outline
import Scriptlet.Proofs.Scope.Alignment
import Scriptlet.Proofs.Scope.Contents
import Scriptlet.Proofs.Syntax.Nodes
import Scriptlet.Proofs.Typing.Derivation

/-! # Disciplines

A discipline says what is to hold of the values, the variables and the lists of a machine that runs
a typed program, and that each elementary step of evaluation keeps it so. What a discipline says of
values may depend on a world, which grows with the lists of the machine.

Which names a step can see does not depend on the discipline: the scopes of the machine are aligned
with those of the typing.
-/

namespace Scriptlet

variable {σ α β : Type}

/-- The errors that depend on the data of a run alone. -/
def Cause.isData : Cause → Bool
  | .divisionByZero | .indexOutOfRange _ _ | .notAList _ | .immutableAssignment _ => true
  | _ => false

/-- The result is a good one, or the error is allowed. -/
def Ends (good : α → Prop) (allows : Cause → Prop) : Except Cause α → Prop
  | .ok result => good result
  | .error cause => allows cause

theorem Ends.mono {good good' : α → Prop} {allows : Cause → Prop} {result : Except Cause α}
    (h : Ends good allows result) (hgood : ∀ value, result = .ok value → good value → good' value) :
    Ends good' allows result := by
  cases result with
  | ok value => exact hgood value rfl h
  | error cause => exact h

theorem Ends.allowing {good : α → Prop} {allows allows' : Cause → Prop}
    {result : Except Cause α} (h : Ends good allows result)
    (hallows : ∀ cause, allows cause → allows' cause) : Ends good allows' result := by
  cases result with
  | ok value => exact h
  | error cause => exact hallows cause h

/-- A lifted result leaves the machine as it is. -/
theorem Ends.lift_bind {next : α → Eval σ β} {machine : Machine σ}
    {good : β → Machine σ → Prop} {bad : Halt → Machine σ → Prop} {result : Except Cause α}
    (h : Ends (fun value => Ensures (next value) machine good bad)
      (fun cause => bad (.error cause) machine) result) :
    Ensures (Eval.lift result >>= next) machine good bad := by
  cases result with
  | ok value => exact h
  | error cause => exact h

/-- The last statement of a block returns. -/
def Stmt.endsWithReturn : List Stmt → Bool
  | [] => false
  | [.ret _] => true
  | _ :: rest => endsWithReturn rest

/-- What is known of a variable agrees with what the annotations say of its declaration, if it is a
local one. -/
def VariableInfo.Noted (notes : Annotations) (info : VariableInfo) : Prop :=
  ∀ id, info.origin = .declaration id → notes.declaredTypeOf? id = some info.ty

theorem VariableInfo.noted_ofLocal {notes : Annotations} {id : NodeId} {ty : Ty}
    (h : notes.declaredTypeOf? id = some ty) : (VariableInfo.ofLocal id ty).Noted notes := by
  intro other hother
  cases hother
  exact h

theorem VariableInfo.noted_ofGlobal {notes : Annotations} (g : Global) (ty : Ty) :
    (VariableInfo.ofGlobal g ty).Noted notes := by
  intro id hid
  cases hid

theorem VariableInfo.noted_ofParameter {notes : Annotations} (function : NodeId) (index : Nat)
    (ty : Ty) : (VariableInfo.ofParameter function index ty).Noted notes := by
  intro id hid
  cases hid

/-- What is to hold of a machine, and that the elementary steps keep it. -/
structure Discipline (σ : Type) (notes : Annotations) (policy : Division)
    (builtins : List (Builtin σ)) where
  World : Type
  /-- The second world can come after the first. -/
  later : World → World → Prop
  /-- The value is one for a place of the type. -/
  fits : World → Ty → Value → Prop
  /-- The slot holds a value that it may hold. -/
  keeps : World → Slot → Prop
  /-- The lists and the host are in order. -/
  store : World → Heap → σ → Prop
  /-- The slot, whatever its value, is one of a variable of which the typing knows this. -/
  shows : VariableInfo → Slot → Prop
  /-- Evaluation may end with the error. -/
  allows : Cause → Prop
  /-- The node may be part of the program. -/
  admits : Node → Prop
  later_refl (w : World) : later w w
  later_trans {w w' w'' : World} : later w w' → later w' w'' → later w w''
  fits_later {w w' : World} {ty : Ty} {value : Value} :
    later w w' → fits w ty value → fits w' ty value
  keeps_later {w w' : World} {slot : Slot} : later w w' → keeps w slot → keeps w' slot
  allows_data {cause : Cause} : cause.isData = true → allows cause
  -- Values.
  fits_of_accepts {w : World} {target source : Ty} {value : Value} :
    target.accepts source = true → fits w source value → fits w target value
  fits_literal {w : World} {literal : Literal} {ty : Ty} :
    literal.type = .ok ty → fits w ty (.ofLiteral literal)
  fits_boolean {w : World} (value : Bool) : fits w .boolean (.boolean value)
  require {w : World} {ty : Ty} {value : Value} :
    fits w ty value → Ends (fun _ => True) allows (value.requireFor ty)
  truth {w : World} {value : Value} :
    fits w .boolean value → Ends (fun _ => True) allows value.truth
  position {w : World} {index : Value} (length : Nat) :
    fits w .integer index → Ends (fun _ => True) allows (index.position length)
  operation {w : World} {operator : Operator} {left right ty : Ty} {first second : Value}
    (heap : Heap) :
    operator.resultType left right = .ok ty → fits w left first → fits w right second →
      Ends (fits w ty) allows (operator.apply policy heap first second)
  -- Variables.
  shows_scalar {info : VariableInfo} :
    info.isList = false → info.Noted notes →
      shows info ⟨.nil, info.ty, info.mutable, false, some info.origin⟩
  keeps_scalar {w : World} {ty : Ty} {value : Value} (mutable : Bool)
    (origin : Option VariableOrigin) :
    fits w ty value → keeps w ⟨value, ty, mutable, false, origin⟩
  /-- A local variable without a first value. -/
  keeps_unset {w : World} {id : NodeId} {name typeName : String} {ty : Ty} :
    admits (.declaration id name (some typeName) none) → Ty.ofName typeName = .ok ty →
      keeps w ⟨.nil, ty, true, false, some (.declaration id)⟩
  /-- A local variable without a declared type. -/
  inferred {w : World} {id : NodeId} {name : String} {initial : Expr} {ty : Ty} {value : Value} :
    admits (.declaration id name none (some initial)) → notes.typeOf? initial.id = some ty →
      notes.declaredTypeOf? id = some ty → fits w ty value →
      keeps w ⟨value, value.ty, true, false, some (.declaration id)⟩ ∧
        shows (.ofLocal id ty) ⟨.nil, value.ty, true, false, some (.declaration id)⟩
  /-- A global without a first value. -/
  keeps_unset_global {w : World} {g : Global} {ty : Ty} :
    admits (.global g) → g.initial = none → Ty.ofName g.typeName = .ok ty →
      keeps w ⟨.nil, ty, g.mutable, false, some (.global g.id)⟩
  shows_list {g : Global} {ty : Ty} :
    admits (.global g) → g.isList = true → Ty.ofName g.typeName = .ok ty →
      shows (.ofGlobal g ty) ⟨.nil, ty, g.mutable, true, some (.global g.id)⟩
  access {w : World} {id : NodeId} {name : String} {info : VariableInfo} {slot : Slot} :
    admits (.expression (.access id name)) → notes.variableOf? id = some info.origin →
      shows info slot.outline → keeps w slot → fits w info.bareType slot.value
  /-- A value for a variable passes the check of its slot, or may be refused. -/
  assign {w : World} {id : NodeId} {name : String} {info : VariableInfo} {slot : Slot}
    {value : Value} :
    admits (.expression (.access id name)) → notes.variableOf? id = some info.origin →
      shows info slot.outline → keeps w slot → fits w info.bareType value →
      Ends (fun _ => keeps w { slot with value }) allows (value.requireFor (slot.accepted false))
  -- Lists.
  element {w : World} {info : VariableInfo} {slot : Slot} {heap : Heap} {host : σ}
    {address : Address} {value : Value} :
    (info.isList = true ∨ info.ty = .any) → shows info slot.outline → keeps w slot →
      store w heap host → slot.value = .list address → value ∈ heap.elements address →
      fits w info.ty value
  accepted_indexed {w : World} {info : VariableInfo} {slot : Slot} {value : Value} :
    (info.isList = true ∨ info.ty = .any) → shows info slot.outline → fits w info.ty value →
      fits w (slot.accepted true) value
  assign_element {w : World} {info : VariableInfo} {slot : Slot} {heap : Heap} {host : σ}
    {address : Address} {value : Value} (position : Nat) :
    (info.isList = true ∨ info.ty = .any) → shows info slot.outline → keeps w slot →
      store w heap host → slot.value = .list address → fits w info.ty value →
      store w (heap.setElement address position value) host
  create {w : World} {heap : Heap} {host : σ} {values : List Value} :
    store w heap host → (∀ value ∈ values, fits w .any value) →
      ∃ w', later w w' ∧ store w' (heap.create values.toArray) host ∧
        fits w' .any (.list heap.fresh)
  /-- The list of a global. -/
  create_global {w : World} {heap : Heap} {host : σ} {values : List Value} {ty : Ty}
    (mutable : Bool) (origin : Option VariableOrigin) :
    store w heap host → (∀ value ∈ values, fits w ty value) →
      ∃ w', later w w' ∧ store w' (heap.create values.toArray) host ∧
        keeps w' ⟨.list heap.fresh, ty, mutable, true, origin⟩
  -- Functions.
  native {w : World} {builtin : Builtin σ} {heap : Heap} {host : σ} {arguments : List Value} :
    builtin ∈ builtins → store w heap host →
      List.Forall₂ (fits w) builtin.parameterTypes arguments →
      ∃ w', later w w' ∧
        store w' (builtin.run arguments heap host).2.1 (builtin.run arguments heap host).2.2 ∧
        fits w' builtin.returnType (builtin.run arguments heap host).1
  /-- A function that ends without a return. -/
  unreturned {w : World} {f : Function} {result : Ty} :
    admits (.function f) → Ty.ofReturn f.returnType = .ok result →
      Stmt.endsWithReturn f.body = false → fits w result .nil

/-- What is known of a function that can be called. -/
inductive Callable.Described (builtins : List (Builtin σ)) :
    Signature → FunctionInfo → Callable σ → Prop
  | user {f : Function} {info : FunctionInfo} :
      f.Described info → f.parameterNames.length = f.parameterTypes.length →
        Callable.Described builtins ⟨f.name, f.arity⟩ info (.user f)
  | native {builtin : Builtin σ} :
      builtin ∈ builtins →
        Callable.Described builtins builtin.signature builtin.info (.native builtin.run)

namespace Discipline

variable {notes : Annotations} {policy : Division} {builtins : List (Builtin σ)}
variable (D : Discipline σ notes policy builtins)

/-- The functions of the program that the run can call are typed by what the typing sees. -/
def Bodies (globals : Frame VariableInfo FunctionInfo) (outline : RunScopes σ) : Prop :=
  ∀ signature f, outline.globals.funs.value? signature = some (.user f) →
    f.Typed notes globals ∧ ∀ node ∈ f.nodes, D.admits node

/-- The scopes of the typing and those of the run say the same. -/
structure Ready (scopes : StaticScopes) (outline : RunScopes σ) : Prop where
  aligned : Scopes.Aligned (fun _ => D.shows) (Callable.Described builtins) scopes outline
  bodies : D.Bodies scopes.globals outline

/-- The scopes say the same inside a function, and their current blocks correspond. -/
structure Inside (scopes : StaticScopes) (outline : RunScopes σ) : Prop where
  inStep : Scopes.InStep (fun _ => D.shows) (Callable.Described builtins) scopes outline
  bodies : D.Bodies scopes.globals outline
  blocks : scopes.blocks ≠ []

/-- The machine is in order. -/
structure Holds (w : D.World) (machine : Machine σ) : Prop where
  slots : machine.scopes.All (D.keeps w)
  store : D.store w machine.heap machine.host

/-- What a step may halt with. -/
def Halts : Halt → Prop
  | .error cause => D.allows cause
  | .outOfFuel => True

/-- The step leaves the machine in order and its outline as it is, and its result is a good one. -/
def Kept (w : D.World) (machine : Machine σ) (step : Eval σ α)
    (good : D.World → α → Prop) : Prop :=
  Ensures step machine
    (fun result finish => ∃ w', D.later w w' ∧ finish.outline = machine.outline ∧
      D.Holds w' finish ∧ good w' result)
    fun halt _ => D.Halts halt

variable {D}
variable {scopes scopes' : StaticScopes} {outline : RunScopes σ} {w w' : D.World}
variable {machine finish : Machine σ}

theorem Inside.ready (h : D.Inside scopes outline) : D.Ready scopes outline :=
  ⟨h.inStep.aligned, h.bodies⟩

theorem Ready.enter (h : D.Ready scopes machine.outline) :
    D.Inside scopes.enter machine.enter.outline :=
  ⟨h.aligned.enter, h.bodies, nofun⟩

theorem Ready.blank (h : D.Ready scopes machine.outline) : D.Ready scopes machine.enter.outline :=
  ⟨h.aligned.blank, h.bodies⟩

theorem Ready.enterFunction (h : D.Ready scopes machine.outline) :
    D.Inside (Scopes.enterFunction ⟨[], [], scopes.globals⟩) machine.enterFunction.outline :=
  ⟨h.aligned.enterFunction, h.bodies, nofun⟩

theorem Holds.later (h : D.Holds w machine) (hlater : D.later w w')
    (hstore : D.store w' finish.heap finish.host) (hscopes : finish.scopes = machine.scopes) :
    D.Holds w' finish :=
  ⟨hscopes ▸ h.slots.imp fun _ => D.keeps_later hlater, hstore⟩

theorem Holds.enter (h : D.Holds w machine) : D.Holds w machine.enter :=
  ⟨h.slots.enter, h.store⟩

theorem Holds.leaveBlock (h : D.Holds w machine) : D.Holds w machine.leaveBlock :=
  ⟨h.slots.leaveBlock, h.store⟩

theorem Holds.enterFunction (h : D.Holds w machine) : D.Holds w machine.enterFunction :=
  ⟨h.slots.enterFunction, h.store⟩

theorem Holds.leaveFunction (h : D.Holds w machine) : D.Holds w machine.leaveFunction :=
  ⟨h.slots.leaveFunction, h.store⟩

/-! ## Putting steps together -/

namespace Kept

variable {good middle : D.World → α → Prop} {last : D.World → β → Prop}
variable {step : Eval σ α} {next : α → Eval σ β}

theorem pure {result : α} (hholds : D.Holds w machine) (h : good w result) :
    D.Kept w machine (pure result) good :=
  ⟨w, D.later_refl w, rfl, hholds, h⟩

theorem lift {result : Except Cause α} (hholds : D.Holds w machine)
    (h : Ends (good w) D.allows result) : D.Kept w machine (Eval.lift result) good := by
  cases result with
  | ok value => exact pure hholds h
  | error cause => exact h

theorem lift_bind {result : Except Cause α}
    (h : Ends (fun value => D.Kept w machine (next value) last) D.allows result) :
    D.Kept w machine (Eval.lift result >>= next) last :=
  Ends.lift_bind h

theorem bind (hstep : D.Kept w machine step middle)
    (hnext : ∀ w' result finish, D.later w w' → finish.outline = machine.outline →
      D.Holds w' finish → middle w' result → D.Kept w' finish (next result) last) :
    D.Kept w machine (step >>= next) last := by
  refine Ensures.bind hstep fun result finish h => ?_
  obtain ⟨w', hlater, houtline, hholds, hmiddle⟩ := h
  refine Ensures.imp (hnext w' result finish hlater houtline hholds hmiddle) fun _ finish' h => ?_
  obtain ⟨w'', hlater', houtline', hholds', hlast⟩ := h
  exact ⟨w'', D.later_trans hlater hlater', houtline'.trans houtline, hholds', hlast⟩

theorem get_bind {next : Machine σ → Eval σ β} (h : D.Kept w machine (next machine) last) :
    D.Kept w machine (get >>= next) last :=
  Ensures.get_bind h

end Kept

end Discipline

end Scriptlet
