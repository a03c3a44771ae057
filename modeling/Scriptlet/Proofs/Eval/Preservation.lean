import Scriptlet.Proofs.Eval.Discipline

/-! # Evaluation keeps a discipline

What each elementary step keeps is kept by the evaluation of every typed expression, by every typed
statement and by every call.
-/

namespace Scriptlet

variable {σ : Type}

/-- A logical operator works on truth values alone. -/
theorem Operator.resultType_of_deciding {operator : Operator} {verdict : Bool} {left right ty : Ty}
    (hdeciding : operator.deciding? = some verdict)
    (h : operator.resultType left right = .ok ty) :
    left = .boolean ∧ right = .boolean ∧ ty = .boolean := by
  cases operator with
  | and | or =>
      obtain ⟨hleft, h⟩ := Ty.of_requireAssignable h
      obtain ⟨hright, h⟩ := Ty.of_requireAssignable h
      exact ⟨Ty.eq_of_accepts hleft (by decide) (by decide),
        Ty.eq_of_accepts hright (by decide) (by decide), (Except.ok.inj h).symm⟩
  | _ => cases hdeciding

/-- A position that an index denotes is inside the list. -/
theorem Value.lt_of_position {index : Value} {length position : Nat}
    (h : index.position length = .ok position) : position < length := by
  unfold Value.position at h
  split at h
  next n =>
    split at h
    next hrange =>
      cases h
      simp only [Bool.and_eq_true, decide_eq_true_eq] at hrange
      omega
    next => cases h
  next => cases h

theorem Expr.Typed.typeOf? {notes : Annotations} {scopes : StaticScopes} {e : Expr} {ty : Ty}
    (h : e.Typed notes scopes ty) : notes.typeOf? e.id = some ty := by
  cases h <;> assumption

theorem Expr.Passed.length_eq {notes : Annotations} {scopes : StaticScopes}
    {arguments : List Expr} {types : List Ty} (h : Expr.Passed notes scopes arguments types) :
    arguments.length = types.length := by
  induction arguments generalizing types with
  | nil => cases h; rfl
  | cons _ _ ih =>
      cases h with
      | cons _ _ hrest => simp [ih hrest]

namespace Discipline

variable {notes : Annotations} {policy : Division} {builtins : List (Builtin σ)}
variable {D : Discipline σ notes policy builtins}
variable {scopes scopes' : StaticScopes} {w : D.World} {machine : Machine σ}

/-! ## Elementary steps -/

/-- A variable that the typing sees has a slot. -/
theorem Ready.exists_slot {name : String} {info : VariableInfo}
    (hready : D.Ready scopes machine.outline) (hfind : scopes.findVariable? name = some info) :
    ∃ slot, machine.scopes.findVariable? name = some slot ∧ D.shows info slot.outline := by
  have hrel := hready.aligned.findVariable?_rel name
  rw [hfind, Machine.findVariable?_outline] at hrel
  cases hslot : machine.scopes.findVariable? name with
  | none =>
      rw [hslot] at hrel
      cases hrel
  | some slot =>
      rw [hslot] at hrel
      cases hrel with
      | some hshows => exact ⟨slot, rfl, hshows⟩

theorem Kept.slot_bind {β : Type} {next : Slot → Eval σ β} {last : D.World → β → Prop}
    {name : String} {info : VariableInfo} (hready : D.Ready scopes machine.outline)
    (hholds : D.Holds w machine) (hfind : scopes.findVariable? name = some info)
    (h : ∀ slot, machine.scopes.findVariable? name = some slot → D.shows info slot.outline →
      D.keeps w slot → D.Kept w machine (next slot) last) :
    D.Kept w machine (Eval.slot name >>= next) last := by
  obtain ⟨slot, hslot, hshows⟩ := hready.exists_slot hfind
  unfold Eval.slot
  simp only [bind_assoc]
  refine Kept.get_bind ?_
  simp only [hslot, pure_bind]
  exact h slot hslot hshows (hholds.slots.of_findVariable? hslot)

theorem Kept.require_bind {β : Type} {next : Unit → Eval σ β} {last : D.World → β → Prop}
    {ty : Ty} {value : Value} (hfits : D.fits w ty value)
    (h : D.Kept w machine (next ()) last) :
    D.Kept w machine (Eval.require ty value >>= next) last :=
  Kept.lift_bind ((D.require hfits).mono fun _ _ _ => h)

theorem Kept.elementAt {address : Address} {index : Value} {ty : Ty} (hholds : D.Holds w machine)
    (hindex : D.fits w .integer index)
    (helements : ∀ value ∈ machine.heap.elements address, D.fits w ty value) :
    D.Kept w machine (Eval.elementAt address index) fun w' value => D.fits w' ty value := by
  simp only [Eval.elementAt, Eval.position, bind_assoc]
  refine Kept.get_bind (Kept.lift_bind ((D.position _ hindex).mono fun i hi _ => ?_))
  refine Kept.get_bind (Kept.pure hholds ?_)
  have hlt := Value.lt_of_position hi
  rw [Array.getElem?_eq_getElem hlt, Option.getD_some]
  exact helements _ (Array.getElem_mem hlt)

theorem Kept.storeElement {address : Address} {index value : Value} (hholds : D.Holds w machine)
    (hindex : D.fits w .integer index)
    (hstore : ∀ position, D.store w (machine.heap.setElement address position value)
      machine.host) :
    D.Kept w machine (Eval.storeElement address index value) fun _ _ => True := by
  simp only [Eval.storeElement, Eval.position, bind_assoc]
  refine Kept.get_bind (Kept.lift_bind ((D.position _ hindex).mono fun i _ _ => ?_))
  exact ⟨w, D.later_refl w, rfl, ⟨hholds.slots, hstore i⟩, trivial⟩

theorem Kept.createList {values : List Value} (hholds : D.Holds w machine)
    (hvalues : ∀ value ∈ values, D.fits w .any value) :
    D.Kept w machine (Eval.createList values) fun w' value => D.fits w' .any value := by
  obtain ⟨w', hlater, hstore, hfits⟩ := D.create hholds.store hvalues
  exact ⟨w', hlater, rfl, hholds.later hlater hstore rfl, hfits⟩

theorem Kept.runNative {builtin : Builtin σ} {arguments : List Value}
    (hbuiltin : builtin ∈ builtins) (hholds : D.Holds w machine)
    (harguments : List.Forall₂ (D.fits w) builtin.parameterTypes arguments) :
    D.Kept w machine (Eval.runNative builtin.run arguments) fun w' value =>
      D.fits w' builtin.returnType value := by
  obtain ⟨w', hlater, hstore, hfits⟩ := D.native hbuiltin hholds.store harguments
  exact ⟨w', hlater, rfl, hholds.later hlater hstore rfl, hfits⟩

/-! ## Expressions -/

/-- Calls keep the discipline, whatever scopes they are made from. -/
def CallsKept (D : Discipline σ notes policy builtins)
    (call : String → List Value → Eval σ Value) : Prop :=
  ∀ {scopes : StaticScopes} {w : D.World} {machine : Machine σ} {name : String}
    {arguments : List Value} {info : FunctionInfo}, D.Ready scopes machine.outline →
    D.Holds w machine → scopes.findFunction? ⟨name, arguments.length⟩ = some info →
    List.Forall₂ (D.fits w) info.parameterTypes arguments →
    D.Kept w machine (call name arguments) fun w' value => D.fits w' info.returnType value

/-- Values that fit one type each. -/
theorem forall_fits {items : List Expr} {ty : Ty} {values : List Value}
    (h : List.Forall₂ (D.fits w) (items.map fun _ => ty) values) :
    ∀ value ∈ values, D.fits w ty value := by
  rw [List.forall₂_map_left_iff] at h
  induction h with
  | nil => simp
  | cons hfirst _ ih => exact List.forall_mem_cons.mpr ⟨hfirst, ih⟩

variable {call : String → List Value → Eval σ Value}

mutual

theorem expression_kept (hcall : D.CallsKept call) :
    ∀ (e : Expr) {ty : Ty} {scopes : StaticScopes} {w : D.World} {machine : Machine σ},
      e.Typed notes scopes ty → (∀ node ∈ e.nodes, D.admits node) →
      D.Ready scopes machine.outline → D.Holds w machine →
      D.Kept w machine (Eval.expression policy call e) fun w' value => D.fits w' ty value
  | .literal _ _ => by
      intro htyped _ _ hholds
      cases htyped with
      | literal hliteral _ =>
          simp only [Eval.expression]
          exact Kept.pure hholds (D.fits_literal hliteral)
  | .group _ inner => by
      intro htyped hadmits hready hholds
      simp only [Expr.nodes, List.forall_mem_append] at hadmits
      cases htyped with
      | group hinner _ =>
          simp only [Eval.expression]
          exact expression_kept hcall inner hinner hadmits.1 hready hholds
  | .binary _ operator left right => by
      intro htyped hadmits hready hholds
      simp only [Expr.nodes, List.forall_mem_append] at hadmits
      obtain ⟨⟨hadmitsLeft, hadmitsRight⟩, _⟩ := hadmits
      cases htyped with
      | binary hleft hright hresult _ =>
          simp only [Eval.expression]
          refine Kept.bind (expression_kept hcall left hleft hadmitsLeft hready hholds)
            fun w1 first m1 hlater houtline hholds hfirst => ?_
          have hready : D.Ready _ m1.outline := houtline ▸ hready
          have hrest := expression_kept hcall right hright hadmitsRight hready hholds
          split
          next verdict hdeciding =>
            -- The operands of a logical operator are truth values, and so is its result.
            obtain ⟨rfl, rfl, rfl⟩ := Operator.resultType_of_deciding hdeciding hresult
            refine Kept.lift_bind ((D.truth hfirst).mono fun truth _ _ => ?_)
            split
            · exact Kept.pure hholds (D.fits_boolean verdict)
            · refine Kept.bind hrest fun w2 second m2 _ _ hholds hsecond => ?_
              refine Kept.lift_bind ((D.truth hsecond).mono fun truth _ _ => ?_)
              exact Kept.pure hholds (D.fits_boolean truth)
          · refine Kept.bind hrest fun w2 second m2 hlater _ hholds hsecond => ?_
            exact Kept.get_bind (Kept.lift hholds
              (D.operation m2.heap hresult (D.fits_later hlater hfirst) hsecond))
  | .access id name => by
      intro htyped hadmits hready hholds
      cases htyped with
      | access hfind hvariable _ =>
          simp only [Eval.expression]
          refine Kept.slot_bind hready hholds hfind fun slot _ hshows hkeeps => ?_
          exact Kept.pure hholds
            (D.access (hadmits _ (Expr.self_mem_nodes _)) hvariable hshows hkeeps)
  | .element id name index => by
      intro htyped hadmits hready hholds
      simp only [Expr.nodes, List.forall_mem_append] at hadmits
      cases htyped with
      | element hfind hindex hlist _ _ =>
          simp only [Eval.expression]
          refine Kept.bind (expression_kept hcall index hindex hadmits.1 hready hholds)
            fun w1 i m1 _ houtline hholds hi => ?_
          have hready : D.Ready _ m1.outline := houtline ▸ hready
          refine Kept.slot_bind hready hholds hfind fun slot _ hshows hkeeps => ?_
          refine Kept.lift_bind ?_
          -- A variable of any type need not hold a list.
          cases hvalue : slot.value with
          | list address =>
              exact Kept.elementAt hholds hi fun value hmem =>
                D.element hlist hshows hkeeps hholds.store hvalue hmem
          | _ => exact D.allows_data rfl
  | .call id name arguments => by
      intro htyped hadmits hready hholds
      simp only [Expr.nodes, List.forall_mem_append] at hadmits
      cases htyped with
      | call hfind hpassed _ _ =>
          simp only [Eval.expression]
          refine Kept.bind (expressions_kept hcall arguments hpassed hadmits.1 hready hholds)
            fun w1 values m1 _ houtline hholds hvalues => ?_
          -- The run looks for a function by the number of values, the typing by that of arguments.
          have hlength : values.length = arguments.length :=
            hvalues.length_eq.symm.trans hpassed.length_eq.symm
          exact hcall (houtline ▸ hready) hholds (hlength ▸ hfind) hvalues
  | .list id elements => by
      intro htyped hadmits hready hholds
      simp only [Expr.nodes, List.forall_mem_append] at hadmits
      cases htyped with
      | list hpassed _ =>
          simp only [Eval.expression]
          refine Kept.bind (expressions_kept hcall elements hpassed hadmits.1 hready hholds)
            fun w1 values m1 _ _ hholds hvalues => ?_
          exact Kept.createList hholds (forall_fits hvalues)

theorem expressions_kept (hcall : D.CallsKept call) :
    ∀ (es : List Expr) {types : List Ty} {scopes : StaticScopes} {w : D.World}
      {machine : Machine σ}, Expr.Passed notes scopes es types →
      (∀ node ∈ Expr.listNodes es, D.admits node) → D.Ready scopes machine.outline →
      D.Holds w machine →
      D.Kept w machine (Eval.expressions policy call es) fun w' values =>
        List.Forall₂ (D.fits w') types values
  | [] => by
      intro hpassed _ _ hholds
      cases hpassed
      simp only [Eval.expressions]
      exact Kept.pure hholds .nil
  | first :: rest => by
      intro hpassed hadmits hready hholds
      simp only [Expr.listNodes, List.forall_mem_append] at hadmits
      cases hpassed with
      | cons hfirst haccepts hrest =>
          simp only [Eval.expressions]
          refine Kept.bind (expression_kept hcall first hfirst hadmits.1 hready hholds)
            fun w1 value m1 _ houtline hholds hvalue => ?_
          refine Kept.bind (expressions_kept hcall rest hrest hadmits.2 (houtline ▸ hready) hholds)
            fun w2 values m2 hlater _ hholds hvalues => ?_
          refine Kept.pure hholds (.cons ?_ hvalues)
          exact D.fits_of_accepts haccepts (D.fits_later hlater hvalue)

end

theorem condition_kept (hcall : D.CallsKept call) {e : Expr}
    (htyped : e.Typed notes scopes .boolean) (hadmits : ∀ node ∈ e.nodes, D.admits node)
    (hready : D.Ready scopes machine.outline) (hholds : D.Holds w machine) :
    D.Kept w machine (Eval.condition policy call e) fun _ _ => True := by
  refine Kept.bind (expression_kept hcall e htyped hadmits hready hholds)
    fun w1 value m1 _ _ hholds hvalue => ?_
  exact Kept.lift hholds (D.truth hvalue)

/-! ## Statements -/

/-- If control returns, then with a value of the type. -/
def FlowFits (D : Discipline σ notes policy builtins) (result : Ty) (w : D.World) : Flow → Prop
  | .next => True
  | .returning value => D.fits w result value

/-- The step leaves the machine in order. It either lets the next statement follow, in scopes that
say what those of the typing say, or returns a value of the type. -/
def Runs (D : Discipline σ notes policy builtins) (w : D.World) (machine : Machine σ)
    (step : Eval σ Flow) (result : Ty) (scopes : StaticScopes) : Prop :=
  Ensures step machine
    (fun flow finish => ∃ w', D.later w w' ∧ D.Holds w' finish ∧ D.FlowFits result w' flow ∧
      (flow = .next → D.Inside scopes finish.outline))
    fun halt _ => D.Halts halt

theorem Kept.runs {step : Eval σ Flow} {result : Ty} (hinside : D.Inside scopes machine.outline)
    (h : D.Kept w machine step (D.FlowFits result)) : D.Runs w machine step result scopes := by
  refine Ensures.imp h fun flow finish h => ?_
  obtain ⟨w', hlater, houtline, hholds, hfits⟩ := h
  exact ⟨w', hlater, hholds, hfits, fun _ => houtline ▸ hinside⟩

/-- A step that leaves the outline as it is in any case need only be shown to leave the machine in
order. -/
theorem Kept.of_steady {α : Type} {step : Eval σ α} {good : D.World → α → Prop}
    (hsteady : Eval.Steady step)
    (h : Ensures step machine
      (fun result finish => ∃ w', D.later w w' ∧ D.Holds w' finish ∧ good w' result)
      fun halt _ => D.Halts halt) :
    D.Kept w machine step good := by
  refine (h.both (hsteady machine)).weaken (fun result finish h => ?_) fun _ _ h => h.1
  obtain ⟨⟨w', hlater, hholds, hgood⟩, houtline⟩ := h
  exact ⟨w', hlater, houtline, hholds, hgood⟩

theorem Kept.inBlock {α : Type} {step : Eval σ α} {good : D.World → α → Prop}
    (hgrowing : Eval.Growing step)
    (h : Ensures step machine.enter
      (fun result finish => ∃ w', D.later w w' ∧ D.Holds w' finish ∧ good w' result)
      fun halt _ => D.Halts halt) :
    D.Kept w machine (Eval.inBlock step) good := by
  refine Kept.of_steady hgrowing.inBlock (Eval.inBlock_ensures ?_)
  refine h.imp fun result finish h => ?_
  obtain ⟨w', hlater, hholds, hgood⟩ := h
  exact ⟨w', hlater, hholds.leaveBlock, hgood⟩

/-- A block that runs in a frame of its own. -/
theorem Runs.inBlock {step : Eval σ Flow} {result : Ty} {scopes' : StaticScopes}
    (hgrowing : Eval.Growing step) (h : D.Runs w machine.enter step result scopes') :
    D.Kept w machine (Eval.inBlock step) (D.FlowFits result) := by
  refine Kept.inBlock hgrowing (Ensures.imp h fun flow finish h => ?_)
  obtain ⟨w', hlater, hholds, hfits, _⟩ := h
  exact ⟨w', hlater, hholds, hfits⟩

/-- Inside a function declarations do not touch the global frame. -/
theorem Inside.declareVariable {outline outline' : RunScopes σ} {name : String}
    {info : VariableInfo} {slot : Slot} (h : D.Inside scopes outline)
    (hdeclare : scopes.declareVariable name info = .ok scopes')
    (hdeclare' : outline.declareVariable name slot = .ok outline')
    (hinStep : Scopes.InStep (fun _ => D.shows) (Callable.Described builtins) scopes' outline') :
    D.Inside scopes' outline' := by
  obtain ⟨block, blocks, hblocks⟩ := List.exists_cons_of_ne_nil h.blocks
  obtain ⟨block', rfl⟩ := Scopes.Grows.blocks_eq (.declare .refl hdeclare) hblocks
  have houter := h.inStep.blocks
  rw [hblocks] at houter
  cases hrights : outline.blocks with
  | nil =>
      rw [hrights] at houter
      cases houter
  | cons right rights =>
      obtain ⟨right', rfl⟩ := Scopes.Grows.blocks_eq (.declare .refl hdeclare') hrights
      exact ⟨hinStep, h.bodies, nofun⟩

/-- A variable is declared in step with the typing. -/
theorem declare_inStep {name : String} {info : VariableInfo} {slot : Slot}
    {bad : Halt → Machine σ → Prop}
    (hinStep : Scopes.InStep (fun _ => D.shows) (Callable.Described builtins) scopes
      machine.outline)
    (hholds : D.Holds w machine) (hdeclare : scopes.declareVariable name info = .ok scopes')
    (hkeeps : D.keeps w slot) (hshows : D.shows info slot.outline) :
    Ensures (Eval.declare name slot) machine
      (fun _ finish => D.Holds w finish ∧
        machine.outline.declareVariable name slot.outline = .ok finish.outline ∧
        Scopes.InStep (fun _ => D.shows) (Callable.Described builtins) scopes' finish.outline)
      bad := by
  obtain ⟨outline', houtline', hinStep⟩ := hinStep.declareVariable hdeclare hshows
  obtain ⟨declared, hdeclared⟩ := Scopes.exists_declareVariable Slot.outline slot houtline'
  obtain rfl : declared.mapVars Slot.outline = outline' := by
    have hview := Scopes.declareVariable_mapVars Slot.outline hdeclared
    exact Except.ok.inj (hview.symm.trans houtline')
  apply Ensures.get_bind
  rw [hdeclared]
  exact ⟨⟨hholds.slots.declareVariable hkeeps hdeclared, hholds.store⟩, houtline', hinStep⟩

theorem declare_runs {name : String} {info : VariableInfo} {slot : Slot}
    {bad : Halt → Machine σ → Prop} (hinside : D.Inside scopes machine.outline)
    (hholds : D.Holds w machine) (hdeclare : scopes.declareVariable name info = .ok scopes')
    (hkeeps : D.keeps w slot) (hshows : D.shows info slot.outline) :
    Ensures (Eval.declare name slot) machine
      (fun _ finish => D.Holds w finish ∧ D.Inside scopes' finish.outline) bad := by
  refine (declare_inStep hinside.inStep hholds hdeclare hkeeps hshows).imp fun _ finish h => ?_
  obtain ⟨hholds, houtline, hinStep⟩ := h
  exact ⟨hholds, hinside.declareVariable hdeclare houtline hinStep⟩

/-- A local variable is declared in step with the typing. -/
theorem declaration_runs (hcall : D.CallsKept call) {result : Ty} {id : NodeId} {name : String}
    {typeName : Option String} {initial : Option Expr}
    (htyped : Stmt.Typed notes result scopes (.declaration id name typeName initial) scopes')
    (hadmits : ∀ node ∈ Stmt.nodes (.declaration id name typeName initial), D.admits node)
    (hinside : D.Inside scopes machine.outline) (hholds : D.Holds w machine) :
    Ensures (Eval.declaration policy call id name typeName initial) machine
      (fun _ finish => ∃ w', D.later w w' ∧ D.Holds w' finish ∧ D.Inside scopes' finish.outline)
      fun halt _ => D.Halts halt := by
  simp only [Stmt.nodes, List.forall_mem_append, List.forall_mem_singleton] at hadmits
  obtain ⟨hadmitsInitial, hadmitsSelf⟩ := hadmits
  unfold Eval.declaration
  cases htyped with
  | @typed _ _ _ _ typeName initial ty given hname hinitial haccepts hnoted hdeclare =>
      refine Ensures.bind (expression_kept hcall initial hinitial hadmitsInitial hinside.ready
        hholds) fun value m1 h1 => ?_
      obtain ⟨w1, hlater, houtline, hholds, hvalue⟩ := h1
      have hfits := D.fits_of_accepts haccepts hvalue
      simp only [Eval.slotType, Eval.resolve, hname, Eval.lift, pure_bind]
      refine Ends.lift_bind ((D.require hfits).mono fun _ _ _ => ?_)
      refine (declare_runs (houtline ▸ hinside) hholds hdeclare (D.keeps_scalar true _ hfits)
        (D.shows_scalar rfl (VariableInfo.noted_ofLocal hnoted))).imp fun _ finish h => ?_
      exact ⟨w1, hlater, h⟩
  | @unset _ _ _ _ typeName ty hname hnoted hdeclare =>
      simp only [Eval.initialValue, pure_bind, Eval.slotType, Eval.resolve, hname]
      refine (declare_runs hinside hholds hdeclare (D.keeps_unset hadmitsSelf hname)
        (D.shows_scalar rfl (VariableInfo.noted_ofLocal hnoted))).imp fun _ finish h => ?_
      exact ⟨w, D.later_refl w, h⟩
  | @inferred _ _ _ _ initial ty hinitial hnoted hdeclare =>
      refine Ensures.bind (expression_kept hcall initial hinitial hadmitsInitial hinside.ready
        hholds) fun value m1 h1 => ?_
      obtain ⟨w1, hlater, houtline, hholds, hvalue⟩ := h1
      obtain ⟨hkeeps, hshows⟩ := D.inferred hadmitsSelf hinitial.typeOf? hnoted hvalue
      -- The slot takes its type from the value, which then passes the check against it.
      have hown : value.requireFor value.ty = .ok () := by
        simp [Value.requireFor, Ty.requireAssignable]
      simp only [Eval.slotType, pure_bind, Eval.requireIf, Option.isSome_some, if_true,
        Eval.require, hown]
      refine (declare_runs (houtline ▸ hinside) hholds hdeclare hkeeps hshows).imp
        fun _ finish h => ?_
      exact ⟨w1, hlater, h⟩

theorem assignment_kept (hcall : D.CallsKept call) {receiver value : Expr} {target ty : Ty}
    (hplace : receiver.isPlace = true) (hreceiver : receiver.Typed notes scopes target)
    (hvalue : value.Typed notes scopes ty) (haccepts : target.accepts ty = true)
    (hadmitsReceiver : ∀ node ∈ receiver.nodes, D.admits node)
    (hadmitsValue : ∀ node ∈ value.nodes, D.admits node)
    (hready : D.Ready scopes machine.outline) (hholds : D.Holds w machine) :
    D.Kept w machine (Eval.assignment policy call receiver value) fun _ _ => True := by
  cases receiver with
  | access id name =>
      have hself := hadmitsReceiver _ (Expr.self_mem_nodes _)
      cases hreceiver with
      | access hfind hvariable _ =>
          refine Kept.bind (expression_kept hcall value hvalue hadmitsValue hready hholds)
            fun w1 v m1 _ houtline hholds hv => ?_
          have hready : D.Ready _ m1.outline := houtline ▸ hready
          have hfits := D.fits_of_accepts haccepts hv
          refine Kept.slot_bind hready hholds hfind fun slot hslot hshows hkeeps => ?_
          refine Kept.lift_bind ((D.assign hself hvariable hshows hkeeps hfits).mono
            fun _ _ hkeeps => ?_)
          split
          · refine ⟨w1, D.later_refl w1, (Eval.store_steady name v m1).of_ok rfl,
              ⟨?_, hholds.store⟩, trivial⟩
            -- The slot that is changed is the one that was checked.
            refine hholds.slots.modifyVariable fun found hfound => ?_
            obtain rfl := Option.some.inj (hslot.symm.trans hfound)
            exact hkeeps
          · exact D.allows_data rfl
  | element id name index =>
      simp only [Expr.nodes, List.forall_mem_append] at hadmitsReceiver
      cases hreceiver with
      | element hfind hindex hlist _ _ =>
          refine Kept.bind (expression_kept hcall index hindex hadmitsReceiver.1 hready hholds)
            fun w1 i m1 _ houtline1 hholds hi => ?_
          have hready : D.Ready _ m1.outline := houtline1 ▸ hready
          refine Kept.bind (expression_kept hcall value hvalue hadmitsValue hready hholds)
            fun w2 v m2 hlater2 houtline2 hholds hv => ?_
          have hready : D.Ready _ m2.outline := houtline2 ▸ hready
          have hfits := D.fits_of_accepts haccepts hv
          refine Kept.slot_bind hready hholds hfind fun slot _ hshows hkeeps => ?_
          refine Kept.require_bind (D.accepted_indexed hlist hshows hfits) (Kept.lift_bind ?_)
          cases haddress : slot.value with
          | list address =>
              exact Kept.storeElement hholds (D.fits_later hlater2 hi) fun position =>
                D.assign_element position hlist hshows hkeeps hholds.store haddress hfits
          | _ => exact D.allows_data rfl
  | _ => cases hplace

/-- A loop keeps what its test and its body keep in every round. -/
theorem repeatWhile_kept {test : Eval σ Bool} {step : Eval σ Flow} {result : Ty}
    {outline : RunScopes σ}
    (htest : ∀ {w : D.World} {machine : Machine σ}, machine.outline = outline →
      D.Holds w machine → D.Kept w machine test fun _ _ => True)
    (hstep : ∀ {w : D.World} {machine : Machine σ}, machine.outline = outline →
      D.Holds w machine → D.Kept w machine step (D.FlowFits result))
    (limit : Nat) {w : D.World} {machine : Machine σ} (houtline : machine.outline = outline)
    (hholds : D.Holds w machine) :
    D.Kept w machine (Eval.repeatWhile test step limit) (D.FlowFits result) := by
  induction limit generalizing w machine with
  | zero => exact trivial
  | succ limit ih =>
      refine Kept.bind (htest houtline hholds) fun w1 holds m1 _ houtline1 hholds _ => ?_
      have houtline1 := houtline1.trans houtline
      split
      · refine Kept.bind (hstep houtline1 hholds) fun w2 flow m2 _ houtline2 hholds hflow => ?_
        cases flow with
        | next => exact ih (houtline2.trans houtline1) hholds
        | returning value => exact Kept.pure hholds hflow
      · exact Kept.pure hholds trivial

variable {result : Ty} (limit : Nat)

mutual

/-- One typed statement keeps the discipline. -/
theorem statement_runs (hsteady : ∀ name arguments, Eval.Steady (call name arguments))
    (hcall : D.CallsKept call) :
    ∀ (s : Stmt) {scopes scopes' : StaticScopes} {w : D.World} {machine : Machine σ},
      Stmt.Typed notes result scopes s scopes' → (∀ node ∈ s.nodes, D.admits node) →
      D.Inside scopes machine.outline → D.Holds w machine →
      D.Runs w machine (Eval.statement policy call limit s) result scopes'
  | .expression value => by
      intro htyped hadmits hinside hholds
      simp only [Stmt.nodes] at hadmits
      cases htyped with
      | expression hvalue =>
          simp only [Eval.statement]
          refine Kept.runs hinside (Kept.bind (expression_kept hcall value hvalue hadmits
            hinside.ready hholds) fun w1 _ m1 _ _ hholds _ => ?_)
          exact Kept.pure hholds trivial
  | .declaration id name typeName initial => by
      intro htyped hadmits hinside hholds
      simp only [Eval.statement]
      refine Ensures.bind (declaration_runs hcall htyped hadmits hinside hholds)
        fun _ finish h => ?_
      obtain ⟨w1, hlater, hholds, hinside⟩ := h
      exact ⟨w1, hlater, hholds, trivial, fun _ => hinside⟩
  | .assignment receiver value => by
      intro htyped hadmits hinside hholds
      simp only [Stmt.nodes, List.forall_mem_append] at hadmits
      cases htyped with
      | assignment hplace hreceiver hvalue haccepts =>
          simp only [Eval.statement]
          refine Kept.runs hinside (Kept.bind (assignment_kept hcall hplace hreceiver hvalue
            haccepts hadmits.1 hadmits.2 hinside.ready hholds) fun w1 _ m1 _ _ hholds _ => ?_)
          exact Kept.pure hholds trivial
  | .branch test thenBlock elseBlock => by
      intro htyped hadmits hinside hholds
      simp only [Stmt.nodes, List.forall_mem_append] at hadmits
      obtain ⟨⟨hadmitsTest, hadmitsThen⟩, hadmitsElse⟩ := hadmits
      cases htyped with
      | branch htest hthen helse =>
          simp only [Eval.statement]
          refine Kept.runs hinside (Kept.bind (condition_kept hcall htest hadmitsTest
            hinside.ready hholds) fun w1 holds m1 _ houtline hholds _ => ?_)
          have hready : D.Ready _ m1.outline := houtline ▸ hinside.ready
          split
          · exact (block_runs hsteady hcall thenBlock hthen hadmitsThen hready.enter
              hholds.enter).inBlock (Eval.block_growing policy limit hsteady thenBlock)
          · exact (block_runs hsteady hcall elseBlock helse hadmitsElse hready.enter
              hholds.enter).inBlock (Eval.block_growing policy limit hsteady elseBlock)
  | .switch subject arms => by
      intro htyped hadmits hinside hholds
      simp only [Stmt.nodes, List.forall_mem_append] at hadmits
      cases htyped with
      | switch hsubject harms =>
          simp only [Eval.statement]
          -- Nothing is declared in the frame around a switch, so the typing need not know of it.
          have hready := hinside.ready.blank
          have hsteps := Kept.bind (expression_kept hcall subject hsubject hadmits.1 hready
            hholds.enter) fun w1 value m1 _ houtline hholds _ =>
              cases_kept hsteady hcall value arms harms hadmits.2 (houtline ▸ hready) hholds
          refine Kept.runs hinside (Kept.inBlock ?_ (Ensures.imp hsteps fun flow finish h => ?_))
          · exact ((Eval.expression_steady policy hsteady subject).bind fun value =>
              Eval.cases_steady policy limit hsteady value arms).growing
          · obtain ⟨w', hlater, _, hholds, hfits⟩ := h
            exact ⟨w', hlater, hholds, hfits⟩
  | .loop test body => by
      intro htyped hadmits hinside hholds
      simp only [Stmt.nodes, List.forall_mem_append] at hadmits
      cases htyped with
      | loop htest hbody =>
          simp only [Eval.statement]
          -- Each round starts with the outline that the first one starts with.
          refine Kept.runs hinside (repeatWhile_kept (fun houtline hholds => ?_)
            (fun houtline hholds => ?_) limit rfl hholds)
          · exact condition_kept hcall htest hadmits.1 (houtline ▸ hinside.ready) hholds
          · have hready := houtline ▸ hinside.ready
            exact (block_runs hsteady hcall body hbody hadmits.2 hready.enter
              hholds.enter).inBlock (Eval.block_growing policy limit hsteady body)
  | .ret value => by
      intro htyped hadmits hinside hholds
      simp only [Stmt.nodes] at hadmits
      cases htyped with
      | ret hvalue haccepts =>
          simp only [Eval.statement]
          refine Kept.runs hinside (Kept.bind (expression_kept hcall value hvalue hadmits
            hinside.ready hholds) fun w1 v m1 _ _ hholds hv => ?_)
          exact Kept.pure hholds (D.fits_of_accepts haccepts hv)

/-- A run of statements keeps the discipline. -/
theorem block_runs (hsteady : ∀ name arguments, Eval.Steady (call name arguments))
    (hcall : D.CallsKept call) :
    ∀ (statements : List Stmt) {scopes scopes' : StaticScopes} {w : D.World}
      {machine : Machine σ}, Stmt.BlockTyped notes result scopes statements scopes' →
      (∀ node ∈ Stmt.blockNodes statements, D.admits node) →
      D.Inside scopes machine.outline → D.Holds w machine →
      D.Runs w machine (Eval.block policy call limit statements) result scopes'
  | [] => by
      intro htyped _ hinside hholds
      cases htyped
      simp only [Eval.block]
      exact Kept.runs hinside (Kept.pure hholds trivial)
  | first :: rest => by
      intro htyped hadmits hinside hholds
      simp only [Stmt.blockNodes, List.forall_mem_append] at hadmits
      cases htyped with
      | cons hfirst hrest =>
          simp only [Eval.block]
          refine Ensures.bind (statement_runs hsteady hcall first hfirst hadmits.1 hinside hholds)
            fun flow m1 h => ?_
          obtain ⟨w1, hlater, hholds, hfits, hinside⟩ := h
          cases flow with
          | next =>
              refine Ensures.imp (block_runs hsteady hcall rest hrest hadmits.2 (hinside rfl)
                hholds) fun flow finish h => ?_
              obtain ⟨w2, hlater2, h⟩ := h
              exact ⟨w2, D.later_trans hlater hlater2, h⟩
          | returning value => exact ⟨w1, hlater, hholds, hfits, nofun⟩

/-- The arms of a switch keep the discipline, whatever the subject is. -/
theorem cases_kept (hsteady : ∀ name arguments, Eval.Steady (call name arguments))
    (hcall : D.CallsKept call) (subject : Value) :
    ∀ (arms : List Case) {scopes : StaticScopes} {ty : Ty} {w : D.World} {machine : Machine σ},
      (∀ arm ∈ arms, Case.Typed notes result scopes ty arm) →
      (∀ node ∈ Stmt.caseNodes arms, D.admits node) → D.Ready scopes machine.outline →
      D.Holds w machine →
      D.Kept w machine (Eval.cases policy call limit subject arms) (D.FlowFits result)
  | [] => by
      intro _ _ _ hholds
      simp only [Eval.cases]
      exact Kept.pure hholds trivial
  | .mk none body :: rest => by
      intro htyped hadmits hready hholds
      simp only [Stmt.caseNodes, List.forall_mem_append] at hadmits
      cases htyped _ List.mem_cons_self with
      | default hbody =>
          simp only [Eval.cases]
          exact (block_runs hsteady hcall body hbody hadmits.1.2 hready.enter
            hholds.enter).inBlock (Eval.block_growing policy limit hsteady body)
  | .mk (some value) body :: rest => by
      intro htyped hadmits hready hholds
      simp only [Stmt.caseNodes, List.forall_mem_append] at hadmits
      obtain ⟨hfirst, hrest⟩ := List.forall_mem_cons.mp htyped
      cases hfirst with
      | value hvalue hbody =>
          simp only [Eval.cases]
          refine Kept.bind (expression_kept hcall value hvalue hadmits.1.1 hready hholds)
            fun w1 v m1 _ houtline hholds _ => Kept.get_bind ?_
          have hready : D.Ready _ m1.outline := houtline ▸ hready
          split
          · exact (block_runs hsteady hcall body hbody hadmits.1.2 hready.enter
              hholds.enter).inBlock (Eval.block_growing policy limit hsteady body)
          · exact cases_kept hsteady hcall subject rest hrest hadmits.2 hready hholds

end

end Discipline

end Scriptlet
