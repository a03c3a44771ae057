import Scriptlet.Proofs.Eval.Preservation
import Scriptlet.Proofs.Typing.ProgramSoundness

/-! # Runs keep a discipline

Calls keep what the bodies of functions keep, by induction on the limit of nested calls. A program
makes its globals and declares its functions in step with its typing, and so every run of a typed
program keeps the discipline from its first step to its last.
-/

namespace Scriptlet

variable {σ : Type}

namespace Eval

/-- Only a block that does not end with a return lets another statement follow. -/
theorem block_returns {policy : Division} {call : String → List Value → Eval σ Value}
    {limit : Nat} (statements : List Stmt) (machine : Machine σ) :
    Gives (block policy call limit statements) machine fun flow _ =>
      flow = .next → Stmt.endsWithReturn statements = false := by
  induction statements using Stmt.endsWithReturn.induct generalizing machine with
  | case1 => exact Ensures.of_forall fun _ _ _ _ => rfl
  | case2 value =>
      simp only [block, statement, bind_assoc, pure_bind]
      exact (Ensures.of_forall fun _ _ _ => trivial).bind fun _ _ _ => Ensures.pure (by simp)
  | case3 first rest hlast ih =>
      simp only [block]
      refine (Ensures.of_forall fun _ _ _ => trivial).bind fun flow middle _ => ?_
      cases flow with
      | next =>
          rw [Stmt.endsWithReturn]
          · exact ih middle
          · exact hlast
      | returning value => exact Ensures.pure (by simp)

theorem returnType_eq_lift (typeName : Option String) :
    (returnType typeName : Eval σ Ty) = lift (Ty.ofReturn typeName) := by
  cases typeName <;> rfl

end Eval

theorem Callable.Described.length_eq {builtins : List (Builtin σ)} {signature : Signature}
    {info : FunctionInfo} {callable : Callable σ}
    (h : callable.Described builtins signature info) :
    info.parameterTypes.length = signature.arity := by
  cases h with
  | user hdescribed hlength => exact hdescribed.parameters.length_eq.symm.trans hlength.symm
  | native _ => rfl

namespace Discipline

variable {notes : Annotations} {policy : Division} {builtins : List (Builtin σ)}
variable {D : Discipline σ notes policy builtins}
variable {scopes scopes' : StaticScopes} {w : D.World} {machine : Machine σ}

/-! ## Calls -/

/-- The parameters of a function are declared in step with the typing of its body. -/
theorem parameters_runs {function index : Nat} {names typeNames : List String} {types : List Ty}
    {values : List Value}
    (hdeclared : ParametersDeclared function index names typeNames scopes scopes')
    (htypes : List.Forall₂ (fun name ty => Ty.ofName name = .ok ty) typeNames types)
    (hvalues : List.Forall₂ (D.fits w) types values) (hinside : D.Inside scopes machine.outline)
    (hholds : D.Holds w machine) :
    Ensures (Eval.parameters function index names typeNames values) machine
      (fun _ finish => D.Holds w finish ∧ D.Inside scopes' finish.outline)
      fun halt _ => D.Halts halt := by
  induction hdeclared generalizing types values machine with
  | nil => exact ⟨hholds, hinside⟩
  | cons hname hdeclare _ ih =>
      cases htypes with
      | cons hname' htypes =>
          cases hvalues with
          | cons hvalue hvalues =>
              obtain rfl := Except.ok.inj (hname.symm.trans hname')
              simp only [Eval.parameters, Eval.resolve, hname, Eval.lift, pure_bind]
              refine Ends.lift_bind ((D.require hvalue).mono fun _ _ _ => ?_)
              refine Ensures.bind (declare_runs hinside hholds hdeclare
                (D.keeps_scalar true _ hvalue)
                (D.shows_scalar rfl (VariableInfo.noted_ofParameter _ _ _))) fun _ m1 h => ?_
              exact ih htypes hvalues h.2 h.1

theorem Kept.inFunction {α : Type} {step : Eval σ α} {good : D.World → α → Prop}
    (hgrowing : Eval.Growing step)
    (h : Ensures step machine.enterFunction
      (fun result finish => ∃ w', D.later w w' ∧ D.Holds w' finish ∧ good w' result)
      fun halt _ => D.Halts halt) :
    D.Kept w machine (Eval.inFunction step) good := by
  refine Kept.of_steady hgrowing.inFunction (Eval.inFunction_ensures ?_)
  refine h.imp fun result finish h => ?_
  obtain ⟨w', hlater, hholds, hgood⟩ := h
  exact ⟨w', hlater, hholds.leaveFunction, hgood⟩

/-- The function that a name refers to is one that the typing knows. -/
theorem Ready.exists_callable {signature : Signature} {info : FunctionInfo}
    (hready : D.Ready scopes machine.outline) (hfind : scopes.findFunction? signature = some info) :
    ∃ callable, machine.scopes.findFunction? signature = some callable ∧
      callable.Described builtins signature info := by
  have hrel := hready.aligned.findFunction?_rel signature
  rw [hfind, Machine.findFunction?_outline] at hrel
  cases hcallable : machine.scopes.findFunction? signature with
  | none =>
      rw [hcallable] at hrel
      cases hrel
  | some callable =>
      rw [hcallable] at hrel
      cases hrel with
      | some hdescribed => exact ⟨callable, rfl, hdescribed⟩

theorem Ready.body {signature : Signature} {f : Function}
    (hready : D.Ready scopes machine.outline)
    (hfind : machine.scopes.findFunction? signature = some (.user f)) :
    f.Typed notes scopes.globals ∧ ∀ node ∈ f.nodes, D.admits node := by
  rw [← Machine.findFunction?_outline, hready.aligned.right_findFunction?] at hfind
  exact hready.bodies signature f hfind

/-- The value that a call gives fits, however the body ended. -/
theorem returned_kept {f : Function} {result : Ty} {flow : Flow} (hholds : D.Holds w machine)
    (hresult : Ty.ofReturn f.returnType = .ok result) (hadmits : D.admits (.function f))
    (hflow : D.FlowFits result w flow)
    (hnext : flow = .next → Stmt.endsWithReturn f.body = false) :
    D.Kept w machine (Eval.returned f flow) fun w' value => D.fits w' result value := by
  cases flow with
  | next => exact Kept.pure hholds (D.unreturned hadmits hresult (hnext rfl))
  | returning value =>
      simp only [Eval.returned, Eval.returnType_eq_lift, hresult, Eval.lift, pure_bind]
      exact Kept.require_bind hflow (Kept.pure hholds hflow)

/-- A function of the program keeps the discipline if the calls in its body do. -/
theorem function_kept {limit : Nat} (hcall : D.CallsKept (Eval.call policy limit)) {f : Function}
    {info : FunctionInfo} {arguments : List Value} (hinfo : f.Described info)
    (htyped : f.Typed notes scopes.globals) (hadmits : ∀ node ∈ f.nodes, D.admits node)
    (harguments : List.Forall₂ (D.fits w) info.parameterTypes arguments)
    (hready : D.Ready scopes machine.outline) (hholds : D.Holds w machine) :
    D.Kept w machine (do
        let flow ← Eval.inFunction do
          Eval.parameters f.id 0 f.parameterNames f.parameterTypes arguments
          Eval.block policy (Eval.call policy limit) limit f.body
        Eval.returned f flow) fun w' value => D.fits w' info.returnType value := by
  simp only [Function.nodes, List.forall_mem_append, List.forall_mem_singleton] at hadmits
  obtain ⟨hadmitsBody, hadmitsSelf⟩ := hadmits
  cases htyped with
  | mk hresult hparameters hbody =>
      obtain rfl := Except.ok.inj (hresult.symm.trans hinfo.result)
      have hsteady (name : String) (arguments : List Value) :
          Eval.Steady (Eval.call policy limit name arguments : Eval σ Value) :=
        Eval.call_steady policy limit name arguments
      have hsteps : Ensures (do
            Eval.parameters f.id 0 f.parameterNames f.parameterTypes arguments
            Eval.block policy (Eval.call policy limit) limit f.body) machine.enterFunction
          (fun flow finish => ∃ w', D.later w w' ∧ D.Holds w' finish ∧
            (D.FlowFits info.returnType w' flow ∧
              (flow = .next → Stmt.endsWithReturn f.body = false)))
          fun halt _ => D.Halts halt := by
        refine Ensures.bind (parameters_runs hparameters hinfo.parameters harguments
          hready.enterFunction hholds.enterFunction) fun _ m1 h => ?_
        -- Of what type a returned value is follows from the typing, but not whether there is one.
        have hblock := block_runs limit hsteady hcall f.body hbody hadmitsBody h.2 h.1
        refine (hblock.both (Eval.block_returns f.body m1)).weaken (fun flow finish h => ?_)
          fun _ _ h => h.1
        obtain ⟨⟨w', hlater, hholds, hfits, _⟩, hnext⟩ := h
        exact ⟨w', hlater, hholds, hfits, hnext⟩
      refine Kept.bind (Kept.inFunction ?_ hsteps) fun w1 flow m1 _ _ hholds hflow => ?_
      · exact (Eval.parameters_growing _ _ _ _ _).bind fun _ =>
          Eval.block_growing policy limit hsteady f.body
      · exact returned_kept hholds hresult hadmitsSelf hflow.1 hflow.2

/-- Calls keep the discipline. -/
theorem call_kept (limit : Nat) : D.CallsKept (Eval.call policy limit) := by
  induction limit with
  | zero => exact fun _ _ _ _ => trivial
  | succ limit ih =>
      intro scopes w machine name arguments info hready hholds hfind harguments
      -- The run finds the function that the typing found.
      obtain ⟨callable, hcallable, hdescribed⟩ := hready.exists_callable hfind
      refine Kept.get_bind ?_
      rw [hcallable]
      generalize (⟨name, arguments.length⟩ : Signature) = signature at hcallable hdescribed
      cases hdescribed with
      | native hbuiltin => exact Kept.runNative hbuiltin hholds harguments
      | @user f _ hinfo _ =>
          obtain ⟨htyped, hadmits⟩ := hready.body hcallable
          exact function_kept (fun {_ _ _ _ _ _} => ih) hinfo htyped hadmits harguments hready
            hholds

/-! ## Programs -/

/-- The scopes say the same at the top of a program, and the functions of the program that can be
called are among the given ones. -/
structure Top (D : Discipline σ notes policy builtins) (functions : List Function)
    (scopes : StaticScopes) (outline : RunScopes σ) : Prop where
  inStep : Scopes.InStep (fun _ => D.shows) (Callable.Described builtins) scopes outline
  blocks : scopes.blocks = []
  members : ∀ signature f, outline.globals.funs.value? signature = some (.user f) → f ∈ functions

/-- Before functions are declared, none of the program can be called. -/
theorem Top.ready {outline : RunScopes σ} (h : D.Top [] scopes outline) : D.Ready scopes outline :=
  ⟨h.inStep.aligned, fun signature f hfind => nomatch h.members signature f hfind⟩

theorem Top.declareVariable {functions : List Function} {outline outline' : RunScopes σ}
    {name : String} {info : VariableInfo} {slot : Slot} (h : D.Top functions scopes outline)
    (hdeclare : scopes.declareVariable name info = .ok scopes')
    (hdeclare' : outline.declareVariable name slot = .ok outline')
    (hinStep : Scopes.InStep (fun _ => D.shows) (Callable.Described builtins) scopes' outline') :
    D.Top functions scopes' outline' := by
  obtain ⟨_, rfl⟩ := Scopes.declareVariable_eq_ok.mp hdeclare
  obtain ⟨_, rfl⟩ := Scopes.declareVariable_eq_ok.mp hdeclare'
  refine ⟨hinStep, by simp [Scopes.setCurrent, h.blocks], fun signature f hfind => ?_⟩
  refine h.members signature f (Eq.trans ?_ hfind)
  cases hblocks : outline.blocks <;> simp [Scopes.setCurrent, Scopes.current, hblocks]

theorem Top.declareFunction {functions : List Function} {outline outline' : RunScopes σ}
    {signature : Signature} {info : FunctionInfo} {callable : Callable σ}
    (h : D.Top functions scopes outline)
    (hdeclare : scopes.declareFunction signature info = .ok scopes')
    (hdescribed : callable.Described builtins signature info)
    (hmember : ∀ f, callable = .user f → f ∈ functions)
    (hdeclare' : outline.declareFunction signature callable = .ok outline') :
    D.Top functions scopes' outline' := by
  obtain ⟨other, hother, hinStep⟩ := h.inStep.declareFunction h.blocks hdeclare hdescribed
  obtain rfl := Except.ok.inj (hother.symm.trans hdeclare')
  have hblocks := h.inStep.blocks
  rw [h.blocks] at hblocks
  obtain ⟨_, rfl⟩ := Scopes.declareFunction_eq_ok.mp hdeclare
  obtain ⟨_, rfl⟩ := Scopes.declareFunction_eq_ok.mp hother
  refine ⟨hinStep, by simp [Scopes.setCurrent, h.blocks], fun name f hfind => ?_⟩
  obtain ⟨blocks, callers, globals⟩ := outline
  cases hblocks
  rw [show (Scopes.setCurrent _ _).globals.funs = Table.bind signature callable globals.funs
    from rfl, Table.value?_bind] at hfind
  split at hfind
  · exact hmember f (Option.some.inj hfind)
  · exact h.members name f hfind

theorem requireAll_ensures {ty : Ty} {values : List Value}
    (h : ∀ value ∈ values, D.fits w ty value) :
    Ensures (Eval.requireAll ty values) machine (fun _ finish => finish = machine)
      fun halt _ => D.Halts halt := by
  induction values with
  | nil => exact rfl
  | cons first rest ih =>
      obtain ⟨hfirst, hrest⟩ := List.forall_mem_cons.mp h
      exact Ends.lift_bind ((D.require hfirst).mono fun _ _ _ => ih hrest)

theorem declare_top {functions : List Function} {name : String} {info : VariableInfo}
    {slot : Slot} {bad : Halt → Machine σ → Prop} (htop : D.Top functions scopes machine.outline)
    (hholds : D.Holds w machine) (hdeclare : scopes.declareVariable name info = .ok scopes')
    (hkeeps : D.keeps w slot) (hshows : D.shows info slot.outline) :
    Ensures (Eval.declare name slot) machine
      (fun _ finish => D.Holds w finish ∧ D.Top functions scopes' finish.outline) bad := by
  refine (declare_inStep htop.inStep hholds hdeclare hkeeps hshows).imp fun _ finish h => ?_
  obtain ⟨hholds, houtline, hinStep⟩ := h
  exact ⟨hholds, htop.declareVariable hdeclare houtline hinStep⟩

/-- A global is made in step with the typing. -/
theorem global_runs {limit : Nat} {g : Global} (htyped : g.Typed notes scopes scopes')
    (hadmits : ∀ node ∈ g.nodes, D.admits node) (htop : D.Top [] scopes machine.outline)
    (hholds : D.Holds w machine) :
    Ensures (Eval.global policy limit g) machine
      (fun _ finish => ∃ w', D.later w w' ∧ D.Holds w' finish ∧ D.Top [] scopes' finish.outline)
      fun halt _ => D.Halts halt := by
  simp only [Global.nodes, List.forall_mem_append, List.forall_mem_singleton] at hadmits
  obtain ⟨hadmitsInitial, hadmitsSelf⟩ := hadmits
  cases htyped with
  | @mk _ _ ty hname hinitial _ hdeclare =>
      simp only [Eval.global, Eval.resolve, hname, Eval.lift, pure_bind]
      generalize hg : g.initial = initial at hinitial hadmitsInitial
      cases hinitial with
      | unset =>
          have hlist : g.isList = false := by simp [Global.isList, hg]
          simp only [Eval.initialValue, pure_bind, Eval.requireInitial, hg, hlist]
          refine (declare_top htop hholds hdeclare (D.keeps_unset_global hadmitsSelf hg hname)
            (D.shows_scalar hlist (VariableInfo.noted_ofGlobal g ty))).imp fun _ finish h => ?_
          exact ⟨w, D.later_refl w, h⟩
      | @list id elements hpassed _ =>
          -- The elements are typed by the global, so the list is made by the steps of its own rule.
          have hlist : g.isList = true := by simp [Global.isList, hg, Expr.isList]
          simp only [Expr.optionNodes, Expr.nodes, List.forall_mem_append] at hadmitsInitial
          simp only [Eval.initialValue, Eval.expression, bind_assoc, Eval.requireInitial, hlist]
          refine Ensures.bind (expressions_kept (call_kept limit) elements hpassed
            hadmitsInitial.1 htop.ready hholds) fun values m1 h1 => ?_
          obtain ⟨w1, hlater1, houtline1, hholds, hvalues⟩ := h1
          have hvalues := forall_fits hvalues
          obtain ⟨w2, hlater2, hstore, hkeeps⟩ :=
            D.create_global g.mutable (some (.global g.id)) hholds.store hvalues
          have hcreate : Ensures (Eval.createList values) m1
              (fun value finish => value = .list m1.heap.fresh ∧
                finish = { m1 with heap := m1.heap.create values.toArray })
              fun halt _ => D.Halts halt := ⟨rfl, rfl⟩
          refine hcreate.bind fun value m2 h2 => ?_
          obtain ⟨rfl, rfl⟩ := h2
          -- The elements of the list that has just been created are the values.
          simp only [bind_assoc]
          refine Ensures.get_bind ?_
          rw [Heap.elements_create_fresh]
          refine Ensures.bind (requireAll_ensures hvalues) fun _ m3 h3 => ?_
          have hholds : D.Holds w2 m3 :=
            h3 ▸ hholds.later hlater2 hstore rfl
          have houtline : m3.outline = machine.outline := h3 ▸ houtline1
          refine (declare_top (houtline ▸ htop) hholds hdeclare hkeeps
            (D.shows_list hadmitsSelf hlist hname)).imp fun _ finish h => ?_
          exact ⟨w2, D.later_trans hlater1 hlater2, h⟩
      | @scalar initial given hscalar hinitial haccepts =>
          have hlist : g.isList = false := by simp [Global.isList, hg, hscalar]
          simp only [Eval.requireInitial, hg, hlist]
          refine Ensures.bind (expression_kept (call_kept limit) initial hinitial hadmitsInitial
            htop.ready hholds) fun value m1 h1 => ?_
          obtain ⟨w1, hlater, houtline, hholds, hvalue⟩ := h1
          have hfits := D.fits_of_accepts haccepts hvalue
          refine Ends.lift_bind ((D.require hfits).mono fun _ _ _ => ?_)
          refine (declare_top (houtline ▸ htop) hholds hdeclare (D.keeps_scalar g.mutable _ hfits)
            (D.shows_scalar hlist (VariableInfo.noted_ofGlobal g ty))).imp fun _ finish h => ?_
          exact ⟨w1, hlater, h⟩

/-- The same step for every item keeps what it keeps of one. -/
theorem each_runs {α : Type} {step : α → Eval σ Unit}
    {Typed : StaticScopes → α → StaticScopes → Prop} {items : List α} {functions : List Function}
    (hstep : ∀ item ∈ items, ∀ {scopes scopes' : StaticScopes} {w : D.World}
      {machine : Machine σ}, Typed scopes item scopes' →
      D.Top functions scopes machine.outline → D.Holds w machine →
      Ensures (step item) machine
        (fun _ finish => ∃ w', D.later w w' ∧ D.Holds w' finish ∧
          D.Top functions scopes' finish.outline) fun halt _ => D.Halts halt)
    (htyped : Chain Typed scopes items scopes') (htop : D.Top functions scopes machine.outline)
    (hholds : D.Holds w machine) :
    Ensures (Eval.each step items) machine
      (fun _ finish => ∃ w', D.later w w' ∧ D.Holds w' finish ∧
        D.Top functions scopes' finish.outline) fun halt _ => D.Halts halt := by
  induction htyped generalizing w machine with
  | nil => exact ⟨w, D.later_refl w, hholds, htop⟩
  | cons hfirst _ ih =>
      rw [List.forall_mem_cons] at hstep
      refine Ensures.bind (hstep.1 hfirst htop hholds) fun _ m1 h => ?_
      obtain ⟨w1, hlater1, hholds, htop⟩ := h
      refine Ensures.imp (ih hstep.2 htop hholds) fun _ finish h => ?_
      obtain ⟨w2, hlater2, h⟩ := h
      exact ⟨w2, D.later_trans hlater1 hlater2, h⟩

/-- A function of the program is declared in step with the typing. -/
theorem declareFunction_runs {functions : List Function} {f : Function}
    (hlength : f.parameterNames.length = f.parameterTypes.length) (hmember : f ∈ functions)
    (htyped : f.Declared notes scopes scopes') (htop : D.Top functions scopes machine.outline)
    (hholds : D.Holds w machine) :
    Ensures (Eval.declareFunction f) machine
      (fun _ finish => ∃ w', D.later w w' ∧ D.Holds w' finish ∧
        D.Top functions scopes' finish.outline) fun halt _ => D.Halts halt := by
  cases htyped with
  | mk hdescribed _ hdeclare =>
      have hcallable : (Callable.user f).Described builtins _ _ := .user hdescribed hlength
      obtain ⟨outline', houtline', _⟩ :=
        htop.inStep.declareFunction htop.blocks hdeclare hcallable
      obtain ⟨declared, hdeclared⟩ := Scopes.exists_declareFunction Slot.outline houtline'
      apply Ensures.get_bind
      rw [hdeclared]
      refine ⟨w, D.later_refl w, ⟨hholds.slots.declareFunction hdeclared, hholds.store⟩, ?_⟩
      refine htop.declareFunction hdeclare hcallable (fun _ heq => ?_)
        (Scopes.declareFunction_mapVars Slot.outline hdeclared)
      cases heq
      exact hmember

/-- The globals of a program are made in step with the typing. -/
theorem globals_runs (limit : Nat) {globals : List Global}
    (htyped : Chain (Global.Typed notes) scopes globals scopes')
    (hadmits : ∀ g ∈ globals, ∀ node ∈ g.nodes, D.admits node)
    (htop : D.Top [] scopes machine.outline) (hholds : D.Holds w machine) :
    Ensures (Eval.each (Eval.global policy limit) globals) machine
      (fun _ finish => ∃ w', D.later w w' ∧ D.Holds w' finish ∧ D.Top [] scopes' finish.outline)
      fun halt _ => D.Halts halt := by
  refine each_runs (fun g hg => ?_) htyped htop hholds
  intro scopes scopes' w machine htyped htop hholds
  exact global_runs htyped (hadmits g hg) htop hholds

/-- When the functions of a program are declared, the run sees what their bodies are typed with. -/
theorem functions_runs {p : Program} {start middle finish : StaticScopes}
    (htyped : p.Typed notes start middle finish)
    (hadmits : ∀ f ∈ p.functions, ∀ node ∈ f.nodes, D.admits node)
    (hlength : ∀ f ∈ p.functions, f.parameterNames.length = f.parameterTypes.length)
    (htop : D.Top [] middle machine.outline) (hholds : D.Holds w machine) :
    Ensures (Eval.each Eval.declareFunction p.functions) machine
      (fun _ final => ∃ w', D.Holds w' final ∧ D.Ready finish final.outline)
      fun halt _ => D.Halts halt := by
  have htop : D.Top p.functions middle machine.outline :=
    ⟨htop.inStep, htop.blocks, fun signature f hfind => nomatch htop.members signature f hfind⟩
  refine (each_runs (fun f hf => ?_) htyped.functions htop hholds).imp fun _ final h => ?_
  · intro scopes scopes' w machine htyped htop hholds
    exact declareFunction_runs (hlength f hf) hf htyped htop hholds
  · obtain ⟨w', _, hholds, htop⟩ := h
    refine ⟨w', hholds, htop.inStep.aligned, fun signature f hfind => ?_⟩
    have hf := htop.members signature f hfind
    exact ⟨htyped.bodies f hf, hadmits f hf⟩

/-- The typing knows `main` as a function without parameters that gives an integer. -/
theorem Ready.exists_main {p : Program} {start middle finish : StaticScopes}
    (htyped : p.Typed notes start middle finish) (hready : D.Ready finish machine.outline) :
    ∃ info, finish.findFunction? ⟨"main", 0⟩ = some info ∧ info.parameterTypes = [] ∧
      info.returnType = .integer := by
  obtain ⟨info, _, hmain, _, hinteger⟩ := htyped.main
  obtain ⟨callable, _, hdescribed⟩ := hready.exists_callable hmain
  exact ⟨info, hmain, List.length_eq_zero_iff.mp hdescribed.length_eq, hinteger⟩

/-- A run of a typed program keeps the discipline, and its value is an integer. -/
theorem program_runs {limit : Nat} {p : Program} {start middle finish : StaticScopes}
    (htyped : p.Typed notes start middle finish) (hadmits : ∀ node ∈ p.nodes, D.admits node)
    (hlength : ∀ f ∈ p.functions, f.parameterNames.length = f.parameterTypes.length)
    (htop : D.Top [] start machine.outline) (hholds : D.Holds w machine) :
    Ensures (Eval.program policy limit p) machine
      (fun value final => ∃ w', D.Holds w' final ∧ D.fits w' .integer value)
      fun halt _ => D.Halts halt := by
  refine Ensures.bind (globals_runs limit htyped.globals (fun g hg node hnode => ?_) htop hholds)
    fun _ m1 h1 => ?_
  · exact hadmits node (Program.mem_nodes_of_global hg hnode)
  obtain ⟨w1, _, hholds, htop⟩ := h1
  refine Ensures.bind (functions_runs htyped (fun f hf node hnode => ?_) hlength htop hholds)
    fun _ m2 h2 => ?_
  · exact hadmits node (Program.mem_nodes_of_function hf hnode)
  obtain ⟨w2, hholds, hready⟩ := h2
  obtain ⟨info, hmain, hnone, hinteger⟩ := hready.exists_main htyped
  refine Ensures.imp (call_kept limit hready hholds hmain (hnone ▸ .nil)) fun value m3 h3 => ?_
  obtain ⟨w3, _, _, hholds, hfits⟩ := h3
  exact ⟨w3, hholds, hinteger ▸ hfits⟩

end Discipline

end Scriptlet
