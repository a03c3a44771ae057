import Scriptlet.Proofs.Eval.Traced

/-! # Leaving out the changes

Evaluation that tells its changes is evaluation: with the changes left out, each of its steps is the
step it stands for, with the same result on the same machine.
-/

namespace Scriptlet

variable {σ α β : Type}

/-- How a step ends, whatever machine it leaves. -/
def Eval.outcome (step : Eval σ α) (machine : Machine σ) : Except Halt α :=
  match step machine with
  | .ok result _ => .ok result
  | .error halt _ => .error halt

/-- The machine that a step leaves, however it ends. -/
def Eval.final (step : Eval σ α) (machine : Machine σ) : Machine σ :=
  match step machine with
  | .ok _ finish => finish
  | .error _ finish => finish

namespace Traced

/-! ## Putting steps together -/

@[simp] theorem run_pure (result : α) : (pure result : Traced σ α).run = pure result := rfl

@[simp] theorem run_lift (result : Except Cause α) :
    (lift result : Traced σ α).run = Eval.lift result := by
  cases result <;> rfl

@[simp] theorem run_bind (step : Traced σ α) (next : α → Traced σ β) :
    (step >>= next).run = step.run >>= fun result => (next result).run := by
  funext machine
  rcases hstep : step machine with ⟨changes, _ | result⟩
  · simp only [run, bind, EStateM.bind, hstep]
  · rcases hnext : next result (machine.after changes) with ⟨more, _ | value⟩ <;>
      simp only [run, bind, EStateM.bind, hstep, hnext, Machine.after_append]

theorem run_view_bind (look : Machine σ → α) (next : α → Traced σ β) :
    (view look >>= next).run = get >>= fun machine => (next (look machine)).run := by
  rw [run_bind]
  rfl

theorem run_within (enter leave : Change σ) (step : Traced σ α)
    (opening closing : RunScopes σ → RunScopes σ)
    (henter : ∀ machine, enter.apply machine = { machine with scopes := opening machine.scopes })
    (hleave : ∀ machine, leave.apply machine = { machine with scopes := closing machine.scopes }) :
    (within enter leave step).run = Eval.within opening closing step.run := by
  funext machine
  rcases hstep : step { machine with scopes := opening machine.scopes } with
    ⟨changes, _ | result⟩ <;>
    simp [run, within, Eval.within, henter, hleave, hstep]

@[simp] theorem run_inBlock (step : Traced σ α) : (inBlock step).run = Eval.inBlock step.run :=
  run_within _ _ _ _ _ (fun _ => rfl) fun _ => rfl

@[simp] theorem run_inFunction (step : Traced σ α) :
    (inFunction step).run = Eval.inFunction step.run :=
  run_within _ _ _ _ _ (fun _ => rfl) fun _ => rfl

/-- How a step ends, and the machine it leaves, are told with its changes. -/
theorem run_eq (step : Traced σ α) (machine : Machine σ) :
    Eval.outcome step.run machine = (step machine).2 ∧
      Eval.final step.run machine = machine.after (step machine).1 := by
  unfold Eval.outcome Eval.final run
  rcases step machine with ⟨changes, reason | result⟩ <;> exact ⟨rfl, rfl⟩

/-! ## Elementary steps -/

@[simp] theorem run_slot (name : String) : (slot name : Traced σ Slot).run = Eval.slot name := by
  unfold slot Eval.slot
  rw [run_view_bind]
  congr 1
  funext machine
  cases machine.scopes.findVariable? name <;> rfl

@[simp] theorem run_require (target : Ty) (value : Value) :
    (require target value : Traced σ Unit).run = Eval.require target value :=
  run_lift _

@[simp] theorem run_requireIf (checked : Bool) (target : Ty) (value : Value) :
    (requireIf checked target value : Traced σ Unit).run = Eval.requireIf checked target value := by
  cases checked with
  | true => exact run_require target value
  | false => rfl

@[simp] theorem run_resolve (name : String) :
    (resolve name : Traced σ Ty).run = Eval.resolve name :=
  run_lift _

@[simp] theorem run_declare (name : String) (slot : Slot) (given : Bool) :
    (declare name slot given : Traced σ Unit).run = Eval.declare name slot := by
  unfold declare
  rw [run_view_bind]
  funext machine
  change (if machine.scopes.current.vars.binds name = true then
      (fail (.variableAlreadyDeclared name) : Traced σ Unit)
    else make (.declare name slot given)).run machine =
      (Eval.lift (machine.scopes.declareVariable name slot) >>= fun scopes =>
        set { machine with scopes }) machine
  cases hbinds : machine.scopes.current.vars.binds name with
  | true =>
      simp only [Scopes.declareVariable, hbinds, if_true]
      rfl
  | false =>
      simp only [Scopes.declareVariable, hbinds, Bool.false_eq_true, if_false]
      rfl

@[simp] theorem run_introduce (name : String) (slot : Slot) (given : Bool) :
    (introduce name slot given : Traced σ Unit).run =
      Eval.requireIf given slot.ty slot.value >>= fun _ => Eval.declare name slot := by
  simp [introduce]

@[simp] theorem run_assign (name : String) (value : Value) :
    (assign name value : Traced σ Unit).run = (do
      let slot ← Eval.slot name
      Eval.require (slot.accepted false) value
      if slot.mutable then Eval.store name value
      else Eval.fail (.immutableAssignment name)) := by
  simp only [assign, run_bind, run_slot, run_require]
  congr 1
  funext slot
  congr 1
  funext _
  cases slot.mutable <;> rfl

@[simp] theorem run_createList (elements : List Value) :
    (createList elements : Traced σ Value).run = Eval.createList elements := rfl

@[simp] theorem run_position (address : Address) (index : Value) :
    (position address index : Traced σ Nat).run = Eval.position address index := by
  unfold position Eval.position
  simp only [run_view_bind, run_lift]

@[simp] theorem run_elementAt (address : Address) (index : Value) :
    (elementAt address index : Traced σ Value).run = Eval.elementAt address index := by
  simp only [elementAt, run_bind, run_position]
  rfl

@[simp] theorem run_assignElement (name : String) (index value : Value) :
    (assignElement name index value : Traced σ Unit).run = (do
      let slot ← Eval.slot name
      Eval.require (slot.accepted true) value
      let address ← Eval.lift (slot.value.address name)
      Eval.storeElement address index value) := by
  simp only [assignElement, run_bind, run_slot, run_require, run_lift, run_position]
  rfl

/-! ## Expressions -/

section

variable (policy : Division) (call : String → List Value → Traced σ Value)

mutual

theorem run_expression : ∀ e : Expr, (expression policy call e).run =
    Eval.expression policy (fun name arguments => (call name arguments).run) e
  | .literal _ _ => by
      simp only [expression, Eval.expression]
      rfl
  | .group _ inner => by
      simp only [expression, Eval.expression]
      exact run_expression inner
  | .binary _ operator left right => by
      simp only [expression, Eval.expression, run_bind, run_expression left]
      congr 1
      funext first
      cases operator.deciding? with
      | none =>
          rw [run_bind, run_expression right]
          congr 1
          funext second
          simp only [run_view_bind, run_lift]
      | some verdict =>
          simp only [run_bind, run_lift]
          congr 1
          funext truth
          by_cases hverdict : truth = verdict
          · simp only [if_pos hverdict]
            rfl
          · simp only [if_neg hverdict, run_bind, run_expression right, run_lift, run_pure]
  | .access _ name => by
      simp only [expression, Eval.expression, run_bind, run_slot, run_pure]
  | .element _ name index => by
      simp only [expression, Eval.expression, run_bind, run_expression index, run_slot, run_lift,
        run_elementAt]
  | .call _ name arguments => by
      simp only [expression, Eval.expression, run_bind, run_expressions arguments]
  | .list _ elements => by
      simp only [expression, Eval.expression, run_bind, run_expressions elements, run_createList]

theorem run_expressions : ∀ es : List Expr, (expressions policy call es).run =
    Eval.expressions policy (fun name arguments => (call name arguments).run) es
  | [] => by
      simp only [expressions, Eval.expressions]
      rfl
  | first :: rest => by
      simp only [expressions, Eval.expressions, run_bind, run_expression first,
        run_expressions rest, run_pure]

end

theorem run_condition (e : Expr) : (condition policy call e).run =
    Eval.condition policy (fun name arguments => (call name arguments).run) e := by
  simp only [condition, Eval.condition, run_bind, run_expression, run_lift]

/-! ## Statements -/

theorem run_repeatWhile (test : Traced σ Bool) (step : Traced σ Flow) (limit : Nat) :
    (repeatWhile test step limit).run = Eval.repeatWhile test.run step.run limit := by
  induction limit with
  | zero => rfl
  | succ limit ih =>
      simp only [repeatWhile, Eval.repeatWhile, run_bind]
      congr 1
      funext holds
      cases holds with
      | false => rfl
      | true =>
          simp only [if_true, run_bind]
          congr 1
          funext flow
          cases flow with
          | next => exact ih
          | returning value => rfl

theorem run_slotType (value : Value) (typeName : Option String) :
    (slotType value typeName : Traced σ Ty).run = Eval.slotType value typeName := by
  cases typeName with
  | some name => exact run_resolve name
  | none => rfl

theorem run_declaration (id : NodeId) (name : String) (typeName : Option String)
    (initial : Option Expr) : (declaration policy call id name typeName initial).run =
      Eval.declaration policy (fun name arguments => (call name arguments).run) id name typeName
        initial := by
  cases initial with
  | some e =>
      simp only [declaration, Eval.declaration, Eval.initialValue, run_bind, run_expression,
        run_slotType, run_introduce]
      rfl
  | none =>
      simp only [declaration, Eval.declaration, Eval.initialValue, run_bind, run_slotType,
        run_introduce]
      rfl

theorem run_assignment (receiver value : Expr) : (assignment policy call receiver value).run =
    Eval.assignment policy (fun name arguments => (call name arguments).run) receiver value := by
  cases receiver with
  | access id name =>
      simp only [assignment, Eval.assignment, run_bind, run_expression, run_assign]
  | element id name index =>
      simp only [assignment, Eval.assignment, run_bind, run_expression, run_assignElement]
  | _ => rfl

variable (limit : Nat)

mutual

theorem run_statement : ∀ s : Stmt, (statement policy call limit s).run =
    Eval.statement policy (fun name arguments => (call name arguments).run) limit s
  | .expression value => by
      simp only [statement, Eval.statement, run_bind, run_expression, run_pure]
  | .declaration id name typeName initial => by
      simp only [statement, Eval.statement, run_bind, run_declaration, run_pure]
  | .assignment receiver value => by
      simp only [statement, Eval.statement, run_bind, run_assignment, run_pure]
  | .branch test thenBlock elseBlock => by
      simp only [statement, Eval.statement, run_bind, run_condition]
      congr 1
      funext holds
      cases holds with
      | true => simp only [if_true, run_inBlock, run_block thenBlock]
      | false => simp only [Bool.false_eq_true, if_false, run_inBlock, run_block elseBlock]
  | .switch subject arms => by
      simp only [statement, Eval.statement, run_inBlock, run_bind, run_expression, run_cases]
  | .loop test body => by
      simp only [statement, Eval.statement, run_repeatWhile, run_condition, run_inBlock,
        run_block body]
  | .ret value => by
      simp only [statement, Eval.statement, run_bind, run_expression, run_pure]

theorem run_block : ∀ statements : List Stmt, (block policy call limit statements).run =
    Eval.block policy (fun name arguments => (call name arguments).run) limit statements
  | [] => by
      simp only [block, Eval.block]
      rfl
  | first :: rest => by
      simp only [block, Eval.block, run_bind, run_statement first]
      congr 1
      funext flow
      cases flow with
      | next => exact run_block rest
      | returning value => rfl

theorem run_cases (subject : Value) : ∀ arms : List Case,
    (cases policy call limit subject arms).run =
      Eval.cases policy (fun name arguments => (call name arguments).run) limit subject arms
  | [] => by
      simp only [cases, Eval.cases]
      rfl
  | .mk none body :: _ => by
      simp only [cases, Eval.cases, run_inBlock, run_block body]
  | .mk (some value) body :: rest => by
      simp only [cases, Eval.cases, run_bind, run_expression]
      congr 1
      funext found
      rw [← run_bind, run_view_bind]
      congr 1
      funext machine
      cases machine.heap.equal found subject with
      | true => simp only [if_true, run_inBlock, run_block body]
      | false => simp only [Bool.false_eq_true, if_false, run_cases subject rest]

end

end

/-! ## Calls and programs -/

theorem run_parameters (function index : Nat) (names typeNames : List String)
    (values : List Value) :
    (parameters function index names typeNames values : Traced σ Unit).run =
      Eval.parameters function index names typeNames values := by
  induction names generalizing index typeNames values with
  | nil => rfl
  | cons name names ih =>
      cases typeNames with
      | nil => rfl
      | cons typeName typeNames =>
          cases values with
          | nil => rfl
          | cons value values =>
              simp only [parameters, Eval.parameters, run_bind, run_resolve, run_introduce, ih,
                bind_assoc]
              rfl

theorem run_returned (f : Function) (flow : Flow) :
    (returned f flow : Traced σ Value).run = Eval.returned f flow := by
  cases flow with
  | next => rfl
  | returning value =>
      simp only [returned, Eval.returned, run_bind, run_require, run_pure]
      cases hreturn : f.returnType with
      | none => rfl
      | some name => simp only [returnType, Eval.returnType, run_resolve]

theorem run_call (policy : Division) (limit : Nat) (name : String) (arguments : List Value) :
    (call policy limit name arguments : Traced σ Value).run =
      Eval.call policy limit name arguments := by
  induction limit generalizing name arguments with
  | zero => rfl
  | succ limit ih =>
      simp only [call, Eval.call]
      rw [run_view_bind]
      congr 1
      funext machine
      rcases machine.scopes.findFunction? ⟨name, arguments.length⟩ with _ | ⟨f | run⟩
      · rfl
      · simp only [run_bind, run_inFunction, run_parameters, run_block, ih, run_returned]
      · rfl

theorem run_requireAll (target : Ty) (values : List Value) :
    (requireAll target values : Traced σ Unit).run = Eval.requireAll target values := by
  induction values with
  | nil => rfl
  | cons first rest ih => simp only [requireAll, Eval.requireAll, run_bind, run_require, ih]

theorem run_requireInitial (g : Global) (ty : Ty) (value : Value) :
    (requireInitial g ty value : Traced σ Unit).run = Eval.requireInitial g ty value := by
  cases hlist : g.isList with
  | false =>
      simp only [requireInitial, Eval.requireInitial, hlist]
      exact run_requireIf _ _ _
  | true =>
      cases value with
      | list address =>
          simp only [requireInitial, Eval.requireInitial, hlist, run_view_bind, run_requireAll]
      | _ =>
          simp only [requireInitial, Eval.requireInitial, hlist]
          exact run_requireIf _ _ _

theorem run_declareFunction (f : Function) :
    (declareFunction f : Traced σ Unit).run = Eval.declareFunction f := by
  unfold declareFunction
  rw [run_view_bind]
  funext machine
  change (if machine.scopes.current.funs.binds ⟨f.name, f.arity⟩ = true then
      (fail (.functionAlreadyDeclared f.name f.arity) : Traced σ Unit)
    else make (.declareFunction f)).run machine =
      (Eval.lift (machine.scopes.declareFunction ⟨f.name, f.arity⟩ (.user f)) >>= fun scopes =>
        set { machine with scopes }) machine
  cases hbinds : machine.scopes.current.funs.binds ⟨f.name, f.arity⟩ with
  | true =>
      simp only [Scopes.declareFunction, hbinds, if_true]
      rfl
  | false =>
      simp only [Scopes.declareFunction, hbinds, Bool.false_eq_true, if_false]
      rfl

theorem run_each (step : α → Traced σ Unit) (items : List α) :
    (each step items).run = Eval.each (fun item => (step item).run) items := by
  induction items with
  | nil => rfl
  | cons first rest ih => simp only [each, Eval.each, run_bind, ih]

variable (policy : Division) (limit : Nat)

theorem run_initialValue (initial : Option Expr) :
    (initialValue policy limit initial : Traced σ Value).run =
      Eval.initialValue policy (Eval.call policy limit) initial := by
  cases initial with
  | none => rfl
  | some e => simp only [initialValue, Eval.initialValue, run_expression, run_call]

theorem run_global (g : Global) :
    (global policy limit g : Traced σ Unit).run = Eval.global policy limit g := by
  simp only [global, Eval.global, run_bind, run_resolve, run_initialValue, run_requireInitial,
    run_declare, globalSlot]

/-- A run of a program that tells its changes is a run of the program. -/
theorem run_program (p : Program) :
    (program policy limit p : Traced σ Value).run = Eval.program policy limit p := by
  simp only [program, Eval.program, run_bind, run_each, run_global, run_declareFunction, run_call]

end Traced

end Scriptlet
