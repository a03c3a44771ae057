import Scriptlet.Eval.Program
import Scriptlet.Proofs.Ensures
import Scriptlet.Proofs.Scope.Outline

/-! # What evaluation leaves of the scopes

Evaluation changes the values of variables and nothing else about the scopes: however it ends, the
frames, their functions, and the names, types and origins of their variables are as before. Only a
local declaration adds something, to the current frame. None of this asks for a typed program.
-/

namespace Scriptlet

variable {σ α β : Type}

/-- All of a slot but its value. -/
def Slot.outline (slot : Slot) : Slot :=
  { slot with value := .nil }

/-- The scopes of a machine without the values of variables. -/
def Machine.outline (machine : Machine σ) : RunScopes σ :=
  machine.scopes.mapVars Slot.outline

/-- The machine with an empty block inside its current one. -/
def Machine.enter (machine : Machine σ) : Machine σ :=
  { machine with scopes := machine.scopes.enter }

/-- The machine with an empty activation. -/
def Machine.enterFunction (machine : Machine σ) : Machine σ :=
  { machine with scopes := machine.scopes.enterFunction }

def Machine.leaveBlock (machine : Machine σ) : Machine σ :=
  { machine with scopes := machine.scopes.leaveBlock }

def Machine.leaveFunction (machine : Machine σ) : Machine σ :=
  { machine with scopes := machine.scopes.leaveFunction }

@[simp] theorem Machine.outline_enter (machine : Machine σ) :
    machine.enter.outline = machine.outline.enter := rfl

@[simp] theorem Machine.outline_enterFunction (machine : Machine σ) :
    machine.enterFunction.outline = machine.outline.enterFunction := rfl

@[simp] theorem Machine.outline_leaveBlock (machine : Machine σ) :
    machine.leaveBlock.outline = machine.outline.leaveBlock :=
  Scopes.mapVars_leaveBlock _ _

@[simp] theorem Machine.outline_leaveFunction (machine : Machine σ) :
    machine.leaveFunction.outline = machine.outline.leaveFunction :=
  Scopes.mapVars_leaveFunction _ _

theorem Machine.findVariable?_outline (machine : Machine σ) (name : String) :
    machine.outline.findVariable? name =
      (machine.scopes.findVariable? name).map Slot.outline :=
  Scopes.findVariable?_mapVars _ _ _

theorem Machine.findFunction?_outline (machine : Machine σ) (signature : Signature) :
    machine.outline.findFunction? signature = machine.scopes.findFunction? signature :=
  Scopes.findFunction?_mapVars _ _ _

namespace Eval

/-- A step between entering and leaving a frame, from what the step does inside. -/
theorem within_ensures {enter leave : RunScopes σ → RunScopes σ} {step : Eval σ α}
    {machine : Machine σ} {good : α → Machine σ → Prop} {bad : Halt → Machine σ → Prop}
    (h : Ensures step { machine with scopes := enter machine.scopes }
      (fun result finish => good result { finish with scopes := leave finish.scopes })
      fun halt finish => bad halt { finish with scopes := leave finish.scopes }) :
    Ensures (within enter leave step) machine good bad := by
  unfold Ensures at h ⊢
  unfold within
  split at h
  next hok =>
    simp only [hok]
    exact h
  next herror =>
    simp only [herror]
    exact h

theorem inBlock_ensures {step : Eval σ α} {machine : Machine σ} {good : α → Machine σ → Prop}
    {bad : Halt → Machine σ → Prop}
    (h : Ensures step machine.enter (fun result finish => good result finish.leaveBlock)
      fun halt finish => bad halt finish.leaveBlock) :
    Ensures (inBlock step) machine good bad :=
  within_ensures h

theorem inFunction_ensures {step : Eval σ α} {machine : Machine σ} {good : α → Machine σ → Prop}
    {bad : Halt → Machine σ → Prop}
    (h : Ensures step machine.enterFunction (fun result finish => good result finish.leaveFunction)
      fun halt finish => bad halt finish.leaveFunction) :
    Ensures (inFunction step) machine good bad :=
  within_ensures h

/-- The step leaves the outline of the scopes as it is, however it ends. -/
def Steady (step : Eval σ α) : Prop :=
  ∀ machine, Ensures step machine (fun _ finish => finish.outline = machine.outline)
    fun _ finish => finish.outline = machine.outline

/-- The step at most declares variables in the current frame, however it ends. -/
def Growing (step : Eval σ α) : Prop :=
  ∀ machine, Ensures step machine (fun _ finish => machine.outline.Grows finish.outline)
    fun _ finish => machine.outline.Grows finish.outline

namespace Steady

theorem pure (result : α) : Steady (pure result : Eval σ α) := fun _ => rfl

theorem throw (halt : Halt) : Steady (throw halt : Eval σ α) := fun _ => rfl

theorem fail (cause : Cause) : Steady (fail cause : Eval σ α) := fun _ => rfl

theorem lift (result : Except Cause α) : Steady (lift result : Eval σ α) := by
  cases result with
  | ok _ => exact pure _
  | error _ => exact fail _

theorem bind {step : Eval σ α} {next : α → Eval σ β} (hstep : Steady step)
    (hnext : ∀ result, Steady (next result)) : Steady (step >>= next) := by
  intro machine
  exact (hstep machine).bind_trans hnext fun hfirst hsecond => hsecond.trans hfirst

theorem get_bind {next : Machine σ → Eval σ β} (hnext : ∀ machine, Steady (next machine)) :
    Steady (get >>= next) :=
  fun machine => hnext machine machine

theorem modify {change : Machine σ → Machine σ}
    (hchange : ∀ machine, (change machine).outline = machine.outline) :
    Steady (modify change : Eval σ PUnit) :=
  fun machine => hchange machine

theorem growing {step : Eval σ α} (h : Steady step) : Growing step :=
  fun machine => (h machine).weaken (fun _ _ heq => heq ▸ .refl) fun _ _ heq => heq ▸ .refl

end Steady

namespace Growing

theorem bind {step : Eval σ α} {next : α → Eval σ β} (hstep : Growing step)
    (hnext : ∀ result, Growing (next result)) : Growing (step >>= next) := by
  intro machine
  exact (hstep machine).bind_trans hnext Scopes.Grows.trans

/-- What a step declares in a block of its own is gone after it. -/
theorem inBlock {step : Eval σ α} (h : Growing step) : Steady (inBlock step) := by
  intro machine
  apply inBlock_ensures
  refine (h machine.enter).weaken (fun _ finish hgrows => ?_) fun _ finish hgrows => ?_
  · rw [Machine.outline_enter] at hgrows
    simpa using hgrows.leaveBlock_eq
  · rw [Machine.outline_enter] at hgrows
    simpa using hgrows.leaveBlock_eq

/-- What a step declares in an activation of its own is gone after it. -/
theorem inFunction {step : Eval σ α} (h : Growing step) : Steady (inFunction step) := by
  intro machine
  apply inFunction_ensures
  refine (h machine.enterFunction).weaken (fun _ finish hgrows => ?_) fun _ finish hgrows => ?_
  · rw [Machine.outline_enterFunction] at hgrows
    simpa using hgrows.leaveFunction_eq
  · rw [Machine.outline_enterFunction] at hgrows
    simpa using hgrows.leaveFunction_eq

end Growing

/-! ## Elementary steps -/

theorem slot_steady (name : String) : Steady (slot name : Eval σ Slot) := by
  refine .get_bind fun machine => ?_
  split
  · exact .pure _
  · exact .fail _

theorem store_steady (name : String) (value : Value) : Steady (store name value : Eval σ Unit) :=
  .modify fun machine => Scopes.mapVars_modifyVariable Slot.outline
    (fun slot => show Slot.outline { slot with value } = slot.outline from rfl) machine.scopes name

theorem createList_steady (elements : List Value) :
    Steady (createList elements : Eval σ Value) := fun _ => rfl

theorem position_steady (address : Address) (index : Value) :
    Steady (position address index : Eval σ Nat) :=
  .get_bind fun _ => .lift _

theorem elementAt_steady (address : Address) (index : Value) :
    Steady (elementAt address index : Eval σ Value) :=
  (position_steady address index).bind fun _ => .get_bind fun _ => .pure _

theorem storeElement_steady (address : Address) (index value : Value) :
    Steady (storeElement address index value : Eval σ Unit) :=
  (position_steady address index).bind fun _ => .modify fun _ => rfl

theorem require_steady (target : Ty) (value : Value) :
    Steady (require target value : Eval σ Unit) := .lift _

theorem requireIf_steady (checked : Bool) (target : Ty) (value : Value) :
    Steady (requireIf checked target value : Eval σ Unit) := by
  cases checked with
  | true => exact require_steady target value
  | false => exact .pure _

theorem resolve_steady (name : String) : Steady (resolve name : Eval σ Ty) := .lift _

theorem runNative_steady (run : Native σ) (arguments : List Value) :
    Steady (runNative run arguments : Eval σ Value) := fun _ => rfl

/-- A declaration that goes through is a declaration in the outline, and one that fails changes
nothing. -/
theorem declare_outline (name : String) (slot : Slot) (machine : Machine σ) :
    Ensures (declare name slot) machine
      (fun _ finish => machine.outline.declareVariable name slot.outline = .ok finish.outline)
      fun _ finish => finish.outline = machine.outline := by
  apply Ensures.get_bind
  cases hdeclare : machine.scopes.declareVariable name slot with
  | ok scopes => exact Scopes.declareVariable_mapVars _ hdeclare
  | error cause => exact rfl

theorem declare_growing (name : String) (slot : Slot) :
    Growing (declare name slot : Eval σ Unit) :=
  fun machine => (declare_outline name slot machine).weaken (fun _ _ h => .declare .refl h)
    fun _ _ h => h ▸ .refl

/-! ## Expressions -/

variable (policy : Division) {call : String → List Value → Eval σ Value}

mutual

theorem expression_steady (hcall : ∀ name arguments, Steady (call name arguments)) :
    ∀ e : Expr, Steady (expression policy call e)
  | .literal _ _ => by
      simp only [expression]
      exact .pure _
  | .group _ inner => by
      simp only [expression]
      exact expression_steady hcall inner
  | .binary _ operator left right => by
      simp only [expression]
      refine (expression_steady hcall left).bind fun first => ?_
      split
      · refine (Steady.lift _).bind fun truth => ?_
        split
        · exact .pure _
        · refine (expression_steady hcall right).bind fun second => ?_
          exact (Steady.lift _).bind fun _ => .pure _
      · refine (expression_steady hcall right).bind fun second => ?_
        exact .get_bind fun _ => .lift _
  | .access _ name => by
      simp only [expression]
      exact (slot_steady name).bind fun _ => .pure _
  | .element _ name index => by
      simp only [expression]
      refine (expression_steady hcall index).bind fun _ => ?_
      refine (slot_steady name).bind fun _ => ?_
      exact (Steady.lift _).bind fun _ => elementAt_steady _ _
  | .call _ name arguments => by
      simp only [expression]
      exact (expressions_steady hcall arguments).bind fun _ => hcall _ _
  | .list _ elements => by
      simp only [expression]
      exact (expressions_steady hcall elements).bind fun _ => createList_steady _

theorem expressions_steady (hcall : ∀ name arguments, Steady (call name arguments)) :
    ∀ es : List Expr, Steady (expressions policy call es)
  | [] => by
      simp only [expressions]
      exact .pure _
  | first :: rest => by
      simp only [expressions]
      refine (expression_steady hcall first).bind fun _ => ?_
      exact (expressions_steady hcall rest).bind fun _ => .pure _

end

theorem condition_steady (hcall : ∀ name arguments, Steady (call name arguments)) (e : Expr) :
    Steady (condition policy call e) :=
  (expression_steady policy hcall e).bind fun _ => .lift _

/-! ## Statements -/

theorem repeatWhile_steady {test : Eval σ Bool} {step : Eval σ Flow} (htest : Steady test)
    (hstep : Steady step) (limit : Nat) : Steady (repeatWhile test step limit) := by
  induction limit with
  | zero => exact .throw _
  | succ limit ih =>
      refine htest.bind fun holds => ?_
      split
      · refine hstep.bind fun flow => ?_
        cases flow with
        | next => exact ih
        | returning value => exact .pure _
      · exact .pure _

theorem initialValue_steady (hcall : ∀ name arguments, Steady (call name arguments))
    (initial : Option Expr) : Steady (initialValue policy call initial) := by
  cases initial with
  | some e => exact expression_steady policy hcall e
  | none => exact .pure _

theorem slotType_steady (value : Value) (typeName : Option String) :
    Steady (slotType value typeName : Eval σ Ty) := by
  cases typeName with
  | some name => exact resolve_steady name
  | none => exact .pure _

theorem assignment_steady (hcall : ∀ name arguments, Steady (call name arguments))
    (receiver value : Expr) : Steady (assignment policy call receiver value) := by
  unfold assignment
  split
  · refine (expression_steady policy hcall value).bind fun _ => ?_
    refine (slot_steady _).bind fun _ => (require_steady _ _).bind fun _ => ?_
    split
    · exact store_steady _ _
    · exact .fail _
  · refine (expression_steady policy hcall _).bind fun _ => ?_
    refine (expression_steady policy hcall value).bind fun _ => ?_
    refine (slot_steady _).bind fun _ => (require_steady _ _).bind fun _ => ?_
    exact (Steady.lift _).bind fun _ => storeElement_steady _ _ _
  · exact .fail _

/-- What a statement adds to the outline: a declaration one slot, all others nothing. -/
def Declares (statement : Stmt) (before after : RunScopes σ) : Prop :=
  match statement with
  | .declaration id name _ _ =>
      ∃ slot : Slot, slot.origin = some (.declaration id) ∧ slot.isList = false ∧
        before.declareVariable name slot = .ok after
  | _ => after = before

theorem Declares.grows {statement : Stmt} {before after : RunScopes σ}
    (h : Declares statement before after) : before.Grows after := by
  unfold Declares at h
  split at h
  · obtain ⟨slot, _, _, hdeclare⟩ := h
    exact .declare .refl hdeclare
  · exact h ▸ .refl

theorem declaration_outline (hcall : ∀ name arguments, Steady (call name arguments)) (id : NodeId)
    (name : String) (typeName : Option String) (initial : Option Expr) (machine : Machine σ) :
    Ensures (declaration policy call id name typeName initial) machine
      (fun _ finish => Declares (.declaration id name typeName initial) machine.outline
        finish.outline)
      fun _ finish => finish.outline = machine.outline := by
  refine (initialValue_steady policy hcall initial machine).bind fun value m1 h1 => ?_
  refine Ensures.bind ((slotType_steady value typeName m1).weaken
    (fun _ _ h => h.trans h1) fun _ _ h => h.trans h1) fun ty m2 h2 => ?_
  refine Ensures.bind ((requireIf_steady initial.isSome ty value m2).weaken
    (fun _ _ h => h.trans h2) fun _ _ h => h.trans h2) fun _ m3 h3 => ?_
  refine (declare_outline name _ m3).weaken (fun _ finish h => ?_) fun _ _ h => h.trans h3
  rw [h3] at h
  exact ⟨_, rfl, rfl, h⟩

variable (limit : Nat)

mutual

/-- A statement adds to the outline what it declares, and if it fails nothing. -/
theorem statement_outline (hcall : ∀ name arguments, Steady (call name arguments)) :
    ∀ (s : Stmt) (machine : Machine σ), Ensures (statement policy call limit s) machine
      (fun _ finish => Declares s machine.outline finish.outline)
      fun _ finish => finish.outline = machine.outline
  | .expression value => fun machine => by
      simp only [statement]
      exact ((expression_steady policy hcall value).bind fun _ => .pure _) machine
  | .declaration id name typeName initial => fun machine => by
      simp only [statement]
      refine (declaration_outline policy hcall id name typeName initial machine).bind
        fun _ finish h => Ensures.pure h
  | .assignment receiver value => fun machine => by
      simp only [statement]
      exact ((assignment_steady policy hcall receiver value).bind fun _ => .pure _) machine
  | .branch test thenBlock elseBlock => fun machine => by
      simp only [statement]
      refine ((condition_steady policy hcall test).bind fun holds => ?_) machine
      split
      · exact (block_growing hcall thenBlock).inBlock
      · exact (block_growing hcall elseBlock).inBlock
  | .switch subject arms => fun machine => by
      simp only [statement]
      exact (((expression_steady policy hcall subject).bind fun value =>
        cases_steady hcall value arms).growing.inBlock) machine
  | .loop test body => fun machine => by
      simp only [statement]
      exact repeatWhile_steady (condition_steady policy hcall test)
        (block_growing hcall body).inBlock limit machine
  | .ret value => fun machine => by
      simp only [statement]
      exact ((expression_steady policy hcall value).bind fun _ => .pure _) machine

/-- A block grows the current frame and nothing else. -/
theorem block_growing (hcall : ∀ name arguments, Steady (call name arguments)) :
    ∀ statements : List Stmt, Growing (block policy call limit statements)
  | [] => by
      simp only [block]
      exact (Steady.pure _).growing
  | first :: rest => by
      simp only [block]
      have hfirst : Growing (statement policy call limit first) := fun machine =>
        (statement_outline hcall first machine).weaken (fun _ _ h => h.grows) fun _ _ h => h ▸ .refl
      refine hfirst.bind fun flow => ?_
      split
      · exact block_growing hcall rest
      · exact (Steady.pure _).growing

theorem cases_steady (hcall : ∀ name arguments, Steady (call name arguments)) (subject : Value) :
    ∀ arms : List Case, Steady (cases policy call limit subject arms)
  | [] => by
      simp only [cases]
      exact .pure _
  | .mk none body :: _ => by
      simp only [cases]
      exact (block_growing hcall body).inBlock
  | .mk (some value) body :: rest => by
      simp only [cases]
      refine (expression_steady policy hcall value).bind fun _ => .get_bind fun _ => ?_
      split
      · exact (block_growing hcall body).inBlock
      · exact cases_steady hcall subject rest

end

/-! ## Calls -/

theorem parameters_growing (function index : Nat) (names typeNames : List String)
    (values : List Value) :
    Growing (parameters function index names typeNames values : Eval σ Unit) := by
  induction names generalizing index typeNames values with
  | nil => exact (Steady.pure _).growing
  | cons name names ih =>
      cases typeNames with
      | nil => exact (Steady.pure _).growing
      | cons typeName typeNames =>
          cases values with
          | nil => exact (Steady.pure _).growing
          | cons value values =>
              refine (resolve_steady typeName).growing.bind fun ty => ?_
              refine (require_steady ty value).growing.bind fun _ => ?_
              exact (declare_growing name _).bind fun _ => ih (index + 1) typeNames values

theorem returned_steady (f : Function) (flow : Flow) : Steady (returned f flow : Eval σ Value) := by
  cases flow with
  | next => exact .pure _
  | returning value =>
      refine Steady.bind ?_ fun ty => (require_steady ty value).bind fun _ => .pure _
      cases f.returnType with
      | some name => exact resolve_steady name
      | none => exact .pure _

/-- A call leaves the outline of the scopes as it is, however it ends. -/
theorem call_steady (limit : Nat) (name : String) (arguments : List Value) :
    Steady (Eval.call policy limit name arguments : Eval σ Value) := by
  induction limit generalizing name arguments with
  | zero => exact .throw _
  | succ limit ih =>
      refine .get_bind fun machine => ?_
      split
      · exact .fail _
      · exact runNative_steady _ _
      next f _ =>
        refine Steady.bind ?_ fun flow => returned_steady f flow
        exact ((parameters_growing f.id 0 f.parameterNames f.parameterTypes arguments).bind
          fun _ => block_growing policy limit ih f.body).inFunction

end Eval

end Scriptlet
