import Scriptlet.Proofs.Eval.Names
import Scriptlet.Proofs.Eval.TypeSafety

/-! # Types of local variables

A local variable without a declared type gets one twice: the typing takes the type of the
expression for its first value, and a run takes the type of the first value itself. The two agree
unless the expression is of type `Any` or `Comparable`, of which no value but a list is. Then the
slot may be narrower than the typing knows, and refuse an assignment that was checked. In a program
that gives every variable a first value, and has no lists as globals, nothing else of a wrong type
is ever met.
-/

namespace Scriptlet

variable {σ : Type}

/-- If the node is a variable, it has a first value. -/
def Node.isInitialized : Node → Bool
  | .declaration _ _ _ initial => initial.isSome
  | .global g => g.initial.isSome
  | .expression _ | .function _ => true

/-- Every variable has a first value, every function ends with a return, and no global is a
list. -/
structure Program.Complete (p : Program) : Prop where
  initialized : ∀ node ∈ p.nodes, node.isInitialized = true
  returns : ∀ f ∈ p.functions, Stmt.endsWithReturn f.body = true
  lists : ∀ g ∈ p.globals, g.isList = false

/-- The node is a local variable that gets its type from a first value that can be of several. -/
def Node.isLoose (notes : Annotations) : Node → Bool
  | .declaration _ _ none (some initial) =>
      notes.typeOf? initial.id = some .any || notes.typeOf? initial.id = some .comparable
  | _ => false

/-- The declaration leaves the type of its variable to the first value. -/
def Program.Loose (p : Program) (notes : Annotations) (id : NodeId) : Prop :=
  ∃ node ∈ p.nodes, node.id = id ∧ node.isLoose notes = true

/-- A local variable without a declared type has that of its first value, or is loose. -/
theorem Program.eq_or_loose {p : Program} {notes : Annotations} {id : NodeId} {name : String}
    {initial : Expr} {ty source : Ty}
    (hnode : .declaration id name none (some initial) ∈ p.nodes)
    (htype : notes.typeOf? initial.id = some ty) (haccepts : ty.accepts source = true) :
    source = ty ∨ p.Loose notes id := by
  by_cases hloose : ty = .any ∨ ty = .comparable
  · refine .inr ⟨_, hnode, rfl, ?_⟩
    rcases hloose with rfl | rfl <;> simp [Node.isLoose, htype]
  · rw [not_or] at hloose
    exact .inl (Ty.eq_of_accepts haccepts hloose.1 hloose.2)

/-- The slot comes from the declaration of the variable, is for no list, and is of the type that is
known of the variable. The slot of a loose declaration may be of a narrower type. -/
structure Slot.Narrows (p : Program) (notes : Annotations) (info : VariableInfo) (slot : Slot) :
    Prop where
  origin : slot.origin = some info.origin
  noted : info.Noted notes
  plain : info.isList = false
  isList : slot.isList = false
  accepts : info.ty.accepts slot.ty = true
  ty : slot.ty = info.ty ∨ ∃ id, info.origin = .declaration id ∧ p.Loose notes id

namespace Slot.Narrows

variable {p : Program} {notes : Annotations} {info : VariableInfo} {slot : Slot}

theorem bareType (h : slot.Narrows p notes info) : info.bareType = info.ty := by
  simp [VariableInfo.bareType, h.plain]

/-- Without an index, the slot takes what its type says. -/
theorem accepted_bare (h : slot.outline.Narrows p notes info) : slot.accepted false = slot.ty := by
  have hlist : slot.isList = false := h.isList
  simp [Slot.accepted, hlist]

/-- With an index, the slot takes anything. -/
theorem accepted_indexed (h : slot.outline.Narrows p notes info) : slot.accepted true = .any := by
  have hlist : slot.isList = false := h.isList
  simp [Slot.accepted, hlist]

/-- Only a variable of type `Any` can be used with an index. -/
theorem ty_eq_any (h : slot.Narrows p notes info) (hlist : info.isList = true ∨ info.ty = .any) :
    info.ty = .any := by
  rcases hlist with hlist | hany
  · cases hlist.symm.trans h.plain
  · exact hany

end Slot.Narrows

/-! ## The discipline of local types -/

/-- The discipline of local types: values are of the types of their expressions and of their slots,
and slots are no wider than what is known of their variables. -/
def Discipline.locals {p : Program} {builtins : List (Builtin σ)} (notes : Annotations)
    (policy : Division) (hcomplete : p.Complete)
    (htruthful : ∀ builtin ∈ builtins, builtin.Truthful) :
    Discipline σ notes policy builtins where
  World := Unit
  later _ _ := True
  fits _ ty value := ty.accepts value.ty = true
  keeps _ slot := slot.isList = false → slot.ty.accepts slot.value.ty = true
  store _ _ _ := True
  shows info slot := slot.Narrows p notes info
  allows cause := cause.isData = true ∨ cause.isOfValues = true ∧ ∃ id, p.Loose notes id
  admits node := node ∈ p.nodes
  later_refl _ := trivial
  later_trans _ _ := trivial
  fits_later _ h := h
  keeps_later _ h := h
  allows_data h := .inl h
  fits_of_accepts := Ty.accepts_trans
  fits_literal h := by rw [(Literal.ty_ofLiteral h).1, Ty.accepts_self]
  fits_boolean _ := rfl
  require h := Value.ends_requireFor h
  truth h := Value.ends_truth h
  position length h := (Value.ends_position length h).allowing fun _ => .inl
  operation heap hty hfirst hsecond := by
    refine Ends.allowing ?_ fun _ => .inl
    refine (Operator.ends_apply heap hty hfirst hsecond).mono fun result _ hresult => ?_
    rw [hresult.1, Ty.accepts_self]
  shows_scalar hlist hnoted := ⟨rfl, hnoted, hlist, rfl, Ty.accepts_self _, .inl rfl⟩
  keeps_scalar _ _ h _ := h
  keeps_unset hnode _ := nomatch hcomplete.initialized _ hnode
  inferred {_ id name initial ty value} hnode htype hnoted h := by
    refine ⟨fun _ => Ty.accepts_self _, rfl, VariableInfo.noted_ofLocal hnoted, rfl, rfl, h, ?_⟩
    exact (Program.eq_or_loose hnode htype h).imp_right fun hloose => ⟨id, rfl, hloose⟩
  keeps_unset_global {_ g _} hnode hinitial _ := by
    have hsome : g.initial.isSome = true := hcomplete.initialized _ hnode
    rw [hinitial] at hsome
    cases hsome
  shows_list hnode hlist _ := by
    have hplain := hcomplete.lists _ (Program.mem_globals_of_mem_nodes hnode)
    cases hlist.symm.trans hplain
  access {_ _ _ info slot} _ _ hshows hkeeps := by
    rw [hshows.bareType]
    exact Ty.accepts_trans hshows.accepts (hkeeps hshows.isList)
  assign {_ _ _ info slot value} _ _ hshows _ hfits := by
    rw [hshows.bareType] at hfits
    rw [hshows.accepted_bare]
    rcases hshows.ty with hty | ⟨id, _, hloose⟩
    · have haccepts : slot.ty.accepts value.ty = true := hty ▸ hfits
      exact (Value.ends_requireFor haccepts).mono fun _ _ _ _ => haccepts
    · refine Ends.allowing ?_ fun cause hcause => .inr ⟨hcause, id, hloose⟩
      exact (value.requireFor_fails slot.ty).mono fun _ hok _ _ => Value.requireFor_eq_ok_iff.mp hok
  element hlist hshows _ _ _ _ := by
    rw [hshows.ty_eq_any hlist]
    rfl
  accepted_indexed _ hshows _ := by
    rw [hshows.accepted_indexed]
    rfl
  assign_element _ _ _ _ _ _ _ := trivial
  create _ _ := ⟨(), trivial, trivial, rfl⟩
  create_global _ _ _ _ := ⟨(), trivial, trivial, nofun⟩
  native {_ builtin heap host arguments} hbuiltin _ _ :=
    ⟨(), trivial, trivial, htruthful builtin hbuiltin arguments heap host⟩
  unreturned hnode _ hends := by
    have hreturns := hcomplete.returns _ (Program.mem_functions_of_mem_nodes hnode)
    cases hends.symm.trans hreturns

/-! ## Declarations -/

/-- A statement, within a limit on nested calls and on rounds of a loop. -/
def Eval.perform (policy : Division) (limit : Nat) (s : Stmt) : Eval σ Flow :=
  statement policy (call policy limit) limit s

/-- A declared variable is the one that the current frame has of its name. -/
theorem Scopes.value?_declareVariable {V F : Type} {scopes scopes' : Scopes V F} {name : String}
    {value : V} (h : scopes.declareVariable name value = .ok scopes') :
    scopes'.current.vars.value? name = some value := by
  obtain ⟨_, rfl⟩ := declareVariable_eq_ok.mp h
  simp [current_setCurrent, Table.value?_bind]

theorem Eval.declare_gives (name : String) (slot : Slot) (machine : Machine σ) :
    Gives (declare name slot) machine fun _ finish =>
      finish.scopes.current.vars.value? name = some slot := by
  unfold declare
  refine Ensures.get_bind (Ends.lift_bind ?_)
  cases hdeclare : machine.scopes.declareVariable name slot with
  | ok scopes => exact Scopes.value?_declareVariable hdeclare
  | error cause => trivial

/-- The slot that a declaration makes: its value is that of the expression, and its type the
declared one or that of the value. -/
theorem Eval.declaration_gives (policy : Division) (limit : Nat) (id : NodeId) (name : String)
    (typeName : Option String) (initial : Expr) (machine : Machine σ) :
    Gives (perform policy limit (.declaration id name typeName (some initial))) machine
      fun _ finish => ∃ slot middle, finish.scopes.current.vars.value? name = some slot ∧
        slot.origin = some (.declaration id) ∧
        value policy limit initial machine = .ok slot.value middle ∧
        (typeName = none → slot.ty = slot.value.ty) ∧
        ∀ declared, typeName = some declared → Ty.ofName declared = .ok slot.ty := by
  unfold perform statement declaration
  refine Ensures.bind ?_ fun _ _ h => Ensures.pure h
  refine Ensures.bind ((Ensures.self (value policy limit initial) machine).weaken
    (fun _ _ h => h) fun _ _ _ => trivial) fun result middle hresult => ?_
  have hdeclared (ty : Ty) : Gives (do
      requireIf (some initial).isSome ty result
      declare name ⟨result, ty, true, false, some (.declaration id)⟩) middle fun _ finish =>
        finish.scopes.current.vars.value? name =
          some ⟨result, ty, true, false, some (.declaration id)⟩ := by
    refine Ends.lift_bind ?_
    cases result.requireFor ty with
    | ok _ => exact declare_gives name _ middle
    | error cause => trivial
  cases typeName with
  | none =>
      refine (hdeclared result.ty).imp fun _ finish hslot => ?_
      refine ⟨_, middle, hslot, rfl, hresult, fun _ => rfl, fun declared hdeclared => ?_⟩
      cases hdeclared
  | some declared =>
      refine Ends.lift_bind ?_
      cases hname : Ty.ofName declared with
      | error cause => trivial
      | ok ty =>
          refine (hdeclared ty).imp fun _ finish hslot => ?_
          refine ⟨_, middle, hslot, rfl, hresult, fun hnone => ?_, fun other hother => ?_⟩
          · cases hnone
          · cases hother
            exact hname

/-! ## Assignments -/

/-- A value was of a type that does not fit. -/
def Halt.isMismatch : Halt → Bool
  | .error (.typeMismatch _ _) => true
  | _ => false

/-- An expression that is evaluated for the task of the moment halts so. -/
def Moment.PartHalts (policy : Division) (moment : Moment σ) (halt : Halt) (finish : Machine σ) :
    Prop :=
  ∃ e machine, Moment.Starts policy moment ⟨moment.limit, .expression e, machine⟩ ∧
    Eval.value policy moment.limit e machine = .error halt finish

/-- The name refers to the slot of a loose declaration, of another type than the declared one. -/
def Machine.Narrowed (machine : Machine σ) (p : Program) (notes : Annotations) (name : String)
    (id : NodeId) : Prop :=
  p.Loose notes id ∧ ∃ slot ty, machine.scopes.findVariable? name = some slot ∧
    slot.origin = some (.declaration id) ∧ notes.declaredTypeOf? id = some ty ∧ slot.ty ≠ ty

theorem Moment.Starts.ensures_part {policy : Division} {moment : Moment σ} {e : Expr}
    {machine : Machine σ} {other : Halt → Machine σ → Prop}
    (h : Moment.Starts policy moment ⟨moment.limit, .expression e, machine⟩) :
    Ensures (Eval.value policy moment.limit e) machine
      (fun value middle => Eval.value policy moment.limit e machine = .ok value middle)
      fun halt finish => halt.isMismatch = true →
        moment.PartHalts policy halt finish ∨ other halt finish :=
  (Ensures.self _ machine).weaken (fun _ _ hok => hok)
    fun _ _ hhalt _ => .inl ⟨e, machine, h, hhalt⟩

namespace Discipline.InOrder

variable {p : Program} {notes : Annotations} {builtins : List (Builtin σ)} {policy : Division}
variable {hcomplete : p.Complete} {htruthful : ∀ builtin ∈ builtins, builtin.Truthful}
variable {limit : Nat} {machine : Machine σ}

/-- A variable is refused a value because of its type only if its slot is narrower than was
declared. -/
theorem access_refuses {id : NodeId} {name : String} {value : Expr}
    (h : (Discipline.locals notes policy hcomplete htruthful).InOrder
      ⟨limit, .statement (.assignment (.access id name) value), machine⟩) :
    Ensures (Eval.assignment policy (Eval.call policy limit) (.access id name) value) machine
      (fun _ _ => True) fun halt finish => halt.isMismatch = true →
        Moment.PartHalts policy ⟨limit, .statement (.assignment (.access id name) value), machine⟩
          halt finish ∨
        ∃ declaration, notes.variableOf? id = some (.declaration declaration) ∧
          finish.Narrowed p notes name declaration := by
  cases h with
  | statement htyped hadmits hinside hholds =>
      cases htyped with
      | assignment _ hreceiver hvalue haccepts =>
          cases hreceiver with
          | @access _ _ info hfind hvariable _ =>
              simp only [Stmt.nodes, List.forall_mem_append] at hadmits
              refine Ensures.bind Moment.Starts.assigned.ensures_part fun v middle hv => ?_
              obtain ⟨_, _, hready, _, hfits⟩ :=
                hinside.ready.after_value hvalue hadmits.2 hholds hv
              obtain ⟨slot, hslot, hshows⟩ := hready.exists_slot hfind
              have hfits : info.ty.accepts v.ty = true :=
                hshows.bareType ▸ Ty.accepts_trans haccepts hfits
              simp only [Eval.slot, bind_assoc]
              refine Ensures.get_bind ?_
              simp only [hslot, pure_bind, hshows.accepted_bare]
              refine Ends.lift_bind ?_
              cases hrequire : v.requireFor slot.ty with
              | ok _ =>
                  refine (?_ : Ensures (if slot.mutable then _ else _) middle _ _)
                  split
                  · trivial
                  · intro hmismatch
                    cases hmismatch
              | error cause =>
                  -- The value is of the declared type, so the slot is of another one.
                  have hother : slot.ty ≠ info.ty := by
                    intro hty
                    have hok := Value.requireFor_eq_ok_iff.mpr hfits
                    cases hrequire.symm.trans (hty ▸ hok)
                  rcases hshows.ty with hty | ⟨declaration, horigin, hloose⟩
                  · exact absurd hty hother
                  · intro _
                    refine .inr ⟨declaration, horigin ▸ hvariable, hloose, slot, info.ty, hslot, ?_⟩
                    exact ⟨horigin ▸ hshows.origin, hshows.noted declaration horigin, hother⟩

/-- An element of a list is never refused because of its type. -/
theorem element_refuses {id : NodeId} {name : String} {index value : Expr}
    (h : (Discipline.locals notes policy hcomplete htruthful).InOrder
      ⟨limit, .statement (.assignment (.element id name index) value), machine⟩) :
    Ensures (Eval.assignment policy (Eval.call policy limit) (.element id name index) value)
      machine (fun _ _ => True) fun halt finish => halt.isMismatch = true →
        Moment.PartHalts policy
          ⟨limit, .statement (.assignment (.element id name index) value), machine⟩ halt finish ∨
        False := by
  cases h with
  | statement htyped hadmits hinside hholds =>
      cases htyped with
      | assignment _ hreceiver hvalue _ =>
          cases hreceiver with
          | @element _ _ _ info hfind hindex _ _ _ =>
              simp only [Stmt.nodes, Expr.nodes, List.forall_mem_append] at hadmits
              refine Ensures.bind Moment.Starts.assignedIndex.ensures_part fun i middle hi => ?_
              obtain ⟨_, _, hready, hholds, hinteger⟩ :=
                hinside.ready.after_value hindex hadmits.1.1 hholds hi
              refine Ensures.bind (Moment.Starts.assignedElement hi).ensures_part
                fun v last hv => ?_
              obtain ⟨_, _, hready, _, _⟩ := hready.after_value hvalue hadmits.2 hholds hv
              obtain ⟨slot, hslot, hshows⟩ := hready.exists_slot hfind
              simp only [Eval.slot, bind_assoc]
              refine Ensures.get_bind ?_
              simp only [hslot, pure_bind, hshows.accepted_indexed]
              refine Ends.lift_bind ((Value.ends_requireFor rfl).mono fun _ _ _ => ?_)
              refine Ends.lift_bind ?_
              cases slot.value with
              | list address =>
                  simp only [Eval.storeElement, Eval.position, bind_assoc]
                  refine Ensures.get_bind (Ends.lift_bind ?_)
                  refine Ends.allowing ((Value.ends_position _ hinteger).mono
                    fun _ _ _ => trivial) fun cause hdata hmismatch => ?_
                  cases cause <;> cases hdata <;> cases hmismatch
              | _ =>
                  intro hmismatch
                  cases hmismatch

/-- An assignment is refused because of a type only if a part of it is, or if it is to a variable
whose slot is narrower than was declared. -/
theorem assignment_refuses {receiver value : Expr}
    (h : (Discipline.locals notes policy hcomplete htruthful).InOrder
      ⟨limit, .statement (.assignment receiver value), machine⟩) :
    Ensures (Eval.perform policy limit (.assignment receiver value)) machine (fun _ _ => True)
      fun halt finish => halt.isMismatch = true →
        Moment.PartHalts policy ⟨limit, .statement (.assignment receiver value), machine⟩ halt
          finish ∨
        ∃ id name declaration, receiver = .access id name ∧
          notes.variableOf? id = some (.declaration declaration) ∧
          finish.Narrowed p notes name declaration := by
  suffices hstep : Ensures (Eval.assignment policy (Eval.call policy limit) receiver value) machine
      (fun _ _ => True) _ from hstep.bind fun _ _ _ => trivial
  cases receiver with
  | access id name =>
      refine h.access_refuses.weaken (fun _ _ h => h) fun _ _ hhalt hmismatch => ?_
      refine (hhalt hmismatch).imp_right fun hnarrowed => ?_
      obtain ⟨declaration, hnarrowed⟩ := hnarrowed
      exact ⟨id, name, declaration, rfl, hnarrowed⟩
  | element id name index =>
      refine h.element_refuses.weaken (fun _ _ h => h) fun _ _ hhalt hmismatch => ?_
      exact (hhalt hmismatch).imp_right False.elim
  | _ =>
      cases h with
      | statement htyped _ _ _ =>
          cases htyped with
          | assignment hplace _ _ _ => cases hplace

/-- The slot that a declaration makes is of the declared type. That of a loose declaration is of
the type of its value. -/
theorem declaration_makes {id : NodeId} {name : String} {typeName : Option String}
    {initial : Option Expr}
    (h : (Discipline.locals notes policy hcomplete htruthful).InOrder
      ⟨limit, .statement (.declaration id name typeName initial), machine⟩) :
    Gives (Eval.perform policy limit (.declaration id name typeName initial)) machine
      fun _ finish => ∃ slot ty, finish.scopes.current.vars.value? name = some slot ∧
        slot.origin = some (.declaration id) ∧ notes.declaredTypeOf? id = some ty ∧
        ty.accepts slot.ty = true ∧
        (slot.ty = ty ∨ p.Loose notes id ∧ slot.ty = slot.value.ty) := by
  cases h with
  | statement htyped hadmits hinside hholds =>
      simp only [Stmt.nodes, List.forall_mem_append, List.forall_mem_singleton] at hadmits
      obtain ⟨hadmitsInitial, hadmitsSelf⟩ := hadmits
      cases htyped with
      | @typed _ _ _ _ typeName initial ty given hname hinitial haccepts hnoted hdeclare =>
          refine (Eval.declaration_gives policy limit id name _ initial machine).imp
            fun _ finish h => ?_
          obtain ⟨slot, _, hslot, horigin, _, _, hdeclared⟩ := h
          obtain rfl := Except.ok.inj (hname.symm.trans (hdeclared typeName rfl))
          exact ⟨slot, slot.ty, hslot, horigin, hnoted, Ty.accepts_self _, .inl rfl⟩
      | unset => cases hcomplete.initialized _ hadmitsSelf
      | @inferred _ _ _ _ initial ty hinitial hnoted hdeclare =>
          refine (Eval.declaration_gives policy limit id name none initial machine).imp
            fun _ finish h => ?_
          obtain ⟨slot, middle, hslot, horigin, hvalue, hown, _⟩ := h
          obtain ⟨_, _, _, _, hfits⟩ :=
            hinside.ready.after_value hinitial hadmitsInitial hholds hvalue
          have hfits : ty.accepts slot.ty = true := hown rfl ▸ hfits
          refine ⟨slot, ty, hslot, horigin, hnoted, hfits, ?_⟩
          exact (Program.eq_or_loose hadmitsSelf hinitial.typeOf? hfits).imp_right
            fun hloose => ⟨hloose, hown rfl⟩

end Discipline.InOrder

/-! ## Runs -/

/-- In a checked program that gives every variable a first value, ends every function with a return
and has no lists as globals, on a host that returns what its functions say: every declaration makes
a slot of the type that the annotations say of it, unless it is loose, when the slot is of the type
of its first value; an assignment is refused because of a type only if a part of it is, or if its
variable has a loose declaration and its slot is of another type than was declared; and if no
declaration is loose, a run fails only because of its data. -/
theorem local_types_agree (text : String) (builtins : List (Builtin σ)) (policy : Division)
    (limit : Nat) (host : σ) (p : Program) (notes : Annotations)
    (hcheck : check text builtins = .ok (p, notes)) (hcomplete : p.Complete)
    (htruthful : ∀ builtin ∈ builtins, builtin.Truthful) :
    (∀ depth id name typeName initial machine flow finish,
      p.Reaches policy builtins limit host
        ⟨depth, .statement (.declaration id name typeName initial), machine⟩ →
      Eval.perform policy depth (.declaration id name typeName initial) machine =
        .ok flow finish →
      ∃ slot ty, finish.scopes.current.vars.value? name = some slot ∧
        slot.origin = some (.declaration id) ∧ notes.declaredTypeOf? id = some ty ∧
        ty.accepts slot.ty = true ∧
        (slot.ty = ty ∨ p.Loose notes id ∧ slot.ty = slot.value.ty)) ∧
    (∀ depth receiver value machine expected given finish,
      p.Reaches policy builtins limit host
        ⟨depth, .statement (.assignment receiver value), machine⟩ →
      Eval.perform policy depth (.assignment receiver value) machine =
        .error (.error (.typeMismatch expected given)) finish →
      Moment.PartHalts policy ⟨depth, .statement (.assignment receiver value), machine⟩
        (.error (.typeMismatch expected given)) finish ∨
      ∃ id name declaration, receiver = .access id name ∧
        notes.variableOf? id = some (.declaration declaration) ∧
        finish.Narrowed p notes name declaration) ∧
    ((∀ id, ¬ p.Loose notes id) →
      match (p.run builtins policy limit host).outcome with
      | .value value => ∃ n, value = .integer n
      | .error error => error.stage = .runtime ∧ error.cause.isData = true
      | .outOfFuel => True) := by
  have hchecked := checked_of_check hcheck
  have hadmits : ∀ node ∈ p.nodes,
      (Discipline.locals notes policy hcomplete htruthful).admits node := fun _ hnode => hnode
  have hstore : (Discipline.locals notes policy hcomplete htruthful).store () .empty host := trivial
  refine ⟨?_, ?_, fun hnone => ?_⟩
  · intro depth id name typeName initial machine flow finish hreaches hok
    have hinOrder := Discipline.inOrder_of_reaches hchecked hadmits hstore hreaches
    exact hinOrder.declaration_makes.of_ok hok
  · intro depth receiver value machine expected given finish hreaches herror
    have hinOrder := Discipline.inOrder_of_reaches hchecked hadmits hstore hreaches
    exact hinOrder.assignment_refuses.of_error herror rfl
  · have hrun := (Discipline.locals notes policy hcomplete htruthful).run_ensured hchecked hadmits
      hstore limit
    cases houtcome : (p.run builtins policy limit host).outcome with
    | value value =>
        rw [houtcome] at hrun
        obtain ⟨_, hfits⟩ := hrun
        exact Value.exists_integer hfits
    | error error =>
        rw [houtcome] at hrun
        obtain ⟨hstage, hcause⟩ := hrun
        refine ⟨hstage, hcause.resolve_right ?_⟩
        rintro ⟨_, id, hloose⟩
        exact hnone id hloose
    | outOfFuel => trivial

/-- A variable declared to be comparable takes a character after an integer. -/
theorem local_types_agree_comparable :
    ∃ (text : String) (p : Program) (notes : Annotations) (depth : Nat) (initial : Option Expr)
      (machine finish : Machine Unit) (slot : Slot),
      check text ([] : List (Builtin Unit)) = .ok (p, notes) ∧ p.Complete ∧
      (∀ id, ¬ p.Loose notes id) ∧
      p.Reaches .unscaled [] 1 ()
        ⟨depth, .statement (.declaration 3 "c" (some "Comparable") initial), machine⟩ ∧
      Eval.perform .unscaled depth (.declaration 3 "c" (some "Comparable") initial) machine =
        .ok .next finish ∧
      finish.scopes.current.vars.value? "c" = some slot ∧ slot.value = .integer 2 ∧
      slot.ty = .comparable := by
  let p : Program :=
    ⟨[], [⟨7, "main", [], [], some "Integer",
      [.declaration 1 "n" none (some (.literal 0 (.integer 2))),
        .declaration 3 "c" (some "Comparable") (some (.access 2 "n")),
        .assignment (.access 4 "c") (.literal 5 (.character 'a')), .ret (.access 6 "n")]⟩]⟩
  let notes : Annotations :=
    ⟨[(6, .integer), (5, .character), (4, .comparable), (2, .integer), (0, .integer)],
      [(3, .comparable), (1, .integer), (7, .integer)],
      [(6, .declaration 1), (4, .declaration 3), (2, .declaration 1)], []⟩
  have hcheck : check "FUN main(): Integer DO LET n = 2; LET c: Comparable = n; c = 'a'; RETURN n;
      END" ([] : List (Builtin Unit)) = .ok (p, notes) := by
    decide +kernel
  have hcomplete : p.Complete := ⟨by decide, by decide, by decide⟩
  have hnone : ∀ id, ¬ p.Loose notes id := by
    rintro id ⟨node, hnode, _, hloose⟩
    have hfixed : ∀ node ∈ p.nodes, node.isLoose notes = false := by decide
    cases hloose.symm.trans (hfixed node hnode)
  have hmain : p.Reaches .unscaled [] 1 () ⟨1, .call "main" [], _⟩ := .main rfl rfl rfl
  have hlet := ((hmain.step (.body rfl rfl)).step (.next rfl)).step .first
  have hslots := (local_types_agree _ _ .unscaled 1 () p notes hcheck hcomplete
    fun _ hmem => absurd hmem List.not_mem_nil).1
  obtain ⟨slot, ty, hslot, _, hnoted, _, hty⟩ := hslots _ _ _ _ _ _ _ _ hlet rfl
  have hty := hty.resolve_right fun hloose => hnone 3 hloose.1
  cases hnoted
  refine ⟨_, p, notes, _, _, _, _, slot, hcheck, hcomplete, hnone, hlet, rfl, hslot, ?_, hty⟩
  cases hslot
  rfl

/-- The first value of a local variable is an integer, though the typing knows nothing of its type,
and the variable then refuses a string. -/
theorem narrowed_local_refuses :
    ∃ (text : String) (p : Program) (notes : Annotations) (depth : Nat) (id : NodeId)
      (name : String) (initial : Option Expr) (machine finish : Machine Unit) (slot : Slot),
      check text ([] : List (Builtin Unit)) = .ok (p, notes) ∧ p.Complete ∧
      p.Reaches .unscaled [] 2 ()
        ⟨depth, .statement (.declaration id name none initial), machine⟩ ∧
      Eval.perform .unscaled depth (.declaration id name none initial) machine =
        .ok .next finish ∧
      finish.scopes.current.vars.value? name = some slot ∧
      notes.declaredTypeOf? id = some .any ∧ slot.ty = .integer ∧
      (p.run [] .unscaled 2 ()).outcome =
        .error ⟨.typeMismatch "Integer" "String", .runtime⟩ := by
  let p : Program :=
    ⟨[], [⟨5, "keep", ["a"], ["Any"], some "Integer",
        [.declaration 1 "x" none (some (.access 0 "a")),
          .assignment (.access 2 "x") (.literal 3 (.string "s")),
          .ret (.literal 4 (.integer 0))]⟩,
      ⟨8, "main", [], [], some "Integer",
        [.ret (.call 7 "keep" [.literal 6 (.integer 1)])]⟩]⟩
  let notes : Annotations :=
    ⟨[(7, .integer), (6, .integer), (4, .integer), (3, .string), (2, .any), (0, .any)],
      [(1, .any), (8, .integer), (5, .integer)], [(2, .declaration 1), (0, .parameter 5 0)],
      [(7, .user 5)]⟩
  have hcheck : check "FUN keep(a: Any): Integer DO LET x = a; x = \"s\"; RETURN 0; END
      FUN main(): Integer DO RETURN keep(1); END" ([] : List (Builtin Unit)) = .ok (p, notes) := by
    decide +kernel
  have hcomplete : p.Complete := ⟨by decide, by decide, by decide⟩
  have hmain : p.Reaches .unscaled [] 2 () ⟨2, .call "main" [], _⟩ := .main rfl rfl rfl
  have hcall := ((hmain.step (.body rfl rfl)).step .first).step .returned
  have hlet := ((hcall.step (.call rfl)).step (.body rfl rfl)).step .first
  have hrun : (p.run [] .unscaled 2 ()).outcome =
      .error ⟨.typeMismatch "Integer" "String", .runtime⟩ := by decide +kernel
  exact ⟨_, p, notes, _, _, _, _, _, _, _, hcheck, hcomplete, hlet, rfl, rfl, rfl, rfl, hrun⟩

end Scriptlet
