import Scriptlet.Proofs.Eval.Composed
import Scriptlet.Proofs.Eval.Preservation
import Scriptlet.Proofs.Scope.Places

/-! # Which changes evaluation makes

Evaluation makes no change without looking first: a slot is made only under a free name and for a
value that fits it, a value is stored only where it fits and where it may be stored. What a change
needs of the machine that it is made on is said here once, and every change of evaluation has it.
-/

namespace Scriptlet

variable {σ α β : Type}

/-- The changes that an activation makes by itself, and what it has made sure of before. -/
inductive Change.Ordinary (machine : Machine σ) : Change σ → Prop
  /-- The slot of a local variable or of a parameter, which is made in a block. The value fits the
  slot, or it is the nil of a variable without a first value. -/
  | declare {name : String} {slot : Slot} {given : Bool} :
      machine.scopes.blocks ≠ [] → machine.scopes.current.vars.binds name = false →
        slot.isList = false → (∀ id, slot.origin ≠ some (.global id)) →
        slot.ty.accepts slot.value.ty = true ∨ given = false ∧ slot.value = .nil →
        Ordinary machine (.declare name slot given)
  | store {name : String} {slot : Slot} {value : Value} :
      machine.scopes.findVariable? name = some slot → slot.mutable = true →
        (slot.accepted false).accepts value.ty = true → Ordinary machine (.store name value)
  | createList (elements : List Value) : Ordinary machine (.createList elements)
  | storeElement {name : String} {slot : Slot} {address : Address} {position : Nat}
      {value : Value} :
      machine.scopes.findVariable? name = some slot → slot.value = .list address →
        (slot.accepted true).accepts value.ty = true →
        position < (machine.heap.elements address).size →
        Ordinary machine (.storeElement name address position value)

/-- What has been made sure of before the change is made. -/
inductive Change.Permitted (machine : Machine σ) : Change σ → Prop
  | ordinary {change : Change σ} : change.Ordinary machine → Permitted machine change
  | enterBlock : Permitted machine .enterBlock
  | leaveBlock : Permitted machine .leaveBlock
  | enterFunction : Permitted machine .enterFunction
  | leaveFunction : Permitted machine .leaveFunction
  | native {name : String} {run : Native σ} {arguments : List Value} :
      machine.scopes.findFunction? ⟨name, arguments.length⟩ = some (.native run) →
        Permitted machine (.native name run arguments)
  /-- The slot of a global takes its value as a local one does, except that the elements of a list
  fit it instead of the list. -/
  | declareGlobal {g : Global} {value : Value} {ty : Ty} :
      machine.scopes.current.vars.binds g.name = false → Ty.ofName g.typeName = .ok ty →
        (g.isList = false → ty.accepts value.ty = true ∨ g.initial.isSome = false ∧ value = .nil) →
        (∀ address, g.isList = true → value = .list address →
          ∀ element ∈ machine.heap.elements address, ty.accepts element.ty = true) →
        Permitted machine (.declare g.name (Traced.globalSlot g value ty) g.initial.isSome)
  /-- Functions are declared where only the global frame is in use. -/
  | declareFunction {f : Function} :
      machine.scopes.blocks = [] → Permitted machine (.declareFunction f)

namespace Change.Permitted

variable {machine : Machine σ} {name : String} {slot : Slot} {value : Value}

/-- A slot is made under a free name, and its value, or the elements of its list, fit it. -/
theorem of_declare {given : Bool} (h : Permitted machine (.declare name slot given)) :
    machine.scopes.current.vars.binds name = false ∧
    (slot.isList = false →
      slot.ty.accepts slot.value.ty = true ∨ given = false ∧ slot.value = .nil) ∧
    ∀ address, slot.isList = true → slot.value = .list address →
      ∀ element ∈ machine.heap.elements address, slot.ty.accepts element.ty = true := by
  cases h with
  | ordinary h =>
      cases h with
      | declare _ hfree hlist _ hfits =>
          refine ⟨hfree, fun _ => hfits, fun _ hislist => ?_⟩
          cases hlist.symm.trans hislist
  | declareGlobal hfree _ hfits helements => exact ⟨hfree, hfits, helements⟩

/-- Outside of all blocks only the slots of globals are made. -/
theorem exists_global_of_declare {given : Bool} (h : Permitted machine (.declare name slot given))
    (hblocks : machine.scopes.blocks = []) : ∃ id, slot.origin = some (.global id) := by
  cases h with
  | ordinary h =>
      cases h with
      | declare hinside _ _ _ _ => exact absurd hblocks hinside
  | declareGlobal _ _ _ _ => exact ⟨_, rfl⟩

/-- A value is stored where it fits and where it may be stored. -/
theorem of_store (h : Permitted machine (.store name value)) :
    ∃ slot, machine.scopes.findVariable? name = some slot ∧ slot.mutable = true ∧
      (slot.accepted false).accepts value.ty = true := by
  cases h with
  | ordinary h =>
      cases h with
      | store hfind hmutable haccepts => exact ⟨_, hfind, hmutable, haccepts⟩

/-- An element is stored in a list by a variable that holds it and takes such elements. -/
theorem of_storeElement {address : Address} {position : Nat}
    (h : Permitted machine (.storeElement name address position value)) :
    ∃ slot, machine.scopes.findVariable? name = some slot ∧ slot.value = .list address ∧
      (slot.accepted true).accepts value.ty = true ∧
      position < (machine.heap.elements address).size := by
  cases h with
  | ordinary h =>
      cases h with
      | storeElement hfind hvalue haccepts hposition =>
          exact ⟨_, hfind, hvalue, haccepts, hposition⟩

theorem of_native {run : Native σ} {arguments : List Value}
    (h : Permitted machine (.native name run arguments)) :
    machine.scopes.findFunction? ⟨name, arguments.length⟩ = some (.native run) := by
  cases h with
  | native hfind => exact hfind
  | ordinary h => cases h

theorem of_declareFunction {f : Function} (h : Permitted machine (.declareFunction f)) :
    machine.scopes.blocks = [] := by
  cases h with
  | declareFunction hblocks => exact hblocks
  | ordinary h => cases h

end Change.Permitted

/-- The changes are at most one, and ordinary. -/
def Change.AtMostOne (machine : Machine σ) (changes : List (Change σ)) : Prop :=
  changes = [] ∨ ∃ change, Ordinary machine change ∧ changes = [change]

theorem Change.AtMostOne.length_blocks {machine : Machine σ} {changes : List (Change σ)}
    (h : AtMostOne machine changes) :
    (machine.after changes).scopes.blocks.length = machine.scopes.blocks.length := by
  rcases h with rfl | ⟨change, hordinary, rfl⟩
  · rfl
  cases hordinary with
  | declare _ _ _ _ _ => exact Scopes.length_blocks_setCurrent _ _
  | store _ _ _ => exact Scopes.length_blocks_modifyVariable _ _ _
  | createList _ => rfl
  | storeElement _ _ _ _ => rfl

/-- Only a list has an address. -/
theorem Value.eq_list_of_address {value : Value} {name : String} {address : Address}
    (h : value.address name = .ok address) : value = .list address := by
  cases value with
  | list found => exact congrArg Value.list (Except.ok.inj h)
  | _ => cases h

namespace Traced

/-! ## Steps that look only -/

/-- The step changes nothing, and if it ends with a result, `good` holds of it. -/
structure Quiet (step : Traced σ α) (machine : Machine σ) (good : α → Prop) : Prop where
  changes : (step machine).1 = []
  result : ∀ result, (step machine).2 = .ok result → good result

/-- What two steps change is what the first changes, and if it has a result also what the second
changes. -/
theorem changes_bind (step : Traced σ α) (next : α → Traced σ β) (machine : Machine σ) :
    ((step >>= next) machine).1 = (step machine).1 ∨
    ∃ result, (step machine).2 = .ok result ∧ ((step >>= next) machine).1 =
      (step machine).1 ++ (next result (machine.after (step machine).1)).1 := by
  rcases hstep : step machine with ⟨changes, reason | result⟩
  · left
    simp only [bind, hstep]
  · right
    refine ⟨result, rfl, ?_⟩
    simp only [bind, hstep]

theorem view_bind (look : Machine σ → α) (next : α → Traced σ β) (machine : Machine σ) :
    (view look >>= next) machine = next (look machine) machine := rfl

/-- After a step that only looks, the next one is taken on the same machine or not at all. -/
theorem Quiet.changes_bind {step : Traced σ α} {machine : Machine σ} {good : α → Prop}
    (h : Quiet step machine good) (next : α → Traced σ β) :
    ((step >>= next) machine).1 = [] ∨
      ∃ result, good result ∧ ((step >>= next) machine).1 = (next result machine).1 := by
  rcases Traced.changes_bind step next machine with heq | ⟨result, hresult, heq⟩
  · exact .inl (heq.trans h.changes)
  · rw [h.changes] at heq
    exact .inr ⟨result, h.result result hresult, heq⟩

theorem Quiet.bind {step : Traced σ α} {next : α → Traced σ β} {machine : Machine σ}
    {good : α → Prop} {last : β → Prop} (h : Quiet step machine good)
    (hnext : ∀ result, good result → Quiet (next result) machine last) :
    Quiet (step >>= next) machine last := by
  obtain ⟨hchanges, hresult⟩ := h
  rcases hstep : step machine with ⟨changes, reason | result⟩
  · rw [hstep] at hchanges
    subst hchanges
    refine ⟨?_, ?_⟩ <;> simp only [Bind.bind, hstep]
    exact nofun
  · rw [hstep] at hchanges hresult
    subst hchanges
    obtain ⟨hmore, hlast⟩ := hnext result (hresult result rfl)
    refine ⟨?_, ?_⟩ <;> simp only [Bind.bind, hstep]
    · exact hmore
    · exact hlast

theorem Quiet.imp {step : Traced σ α} {machine : Machine σ} {good good' : α → Prop}
    (h : Quiet step machine good) (himp : ∀ result, good result → good' result) :
    Quiet step machine good' :=
  ⟨h.changes, fun result hok => himp result (h.result result hok)⟩

theorem Quiet.view_bind {look : Machine σ → α} {next : α → Traced σ β} {machine : Machine σ}
    {good : β → Prop} (h : Quiet (next (look machine)) machine good) :
    Quiet (view look >>= next) machine good :=
  ⟨h.changes, h.result⟩

section

variable (machine : Machine σ)

theorem lift_quiet (result : Except Cause α) :
    Quiet (lift result) machine fun value => result = .ok value := by
  cases result with
  | ok value =>
      refine ⟨rfl, ?_⟩
      rintro _ ⟨⟩
      rfl
  | error cause => exact ⟨rfl, nofun⟩

theorem slot_quiet (name : String) :
    Quiet (slot name) machine fun found => machine.scopes.findVariable? name = some found := by
  apply Quiet.view_bind
  cases machine.scopes.findVariable? name with
  | none => exact ⟨rfl, nofun⟩
  | some found =>
      refine ⟨rfl, ?_⟩
      rintro _ ⟨⟩
      rfl

theorem require_quiet (target : Ty) (value : Value) :
    Quiet (require target value) machine fun _ => target.accepts value.ty = true := by
  apply (lift_quiet machine (value.requireFor target)).imp
  intro _ hrequire
  unfold Value.requireFor Ty.requireAssignable at hrequire
  split at hrequire
  next haccepts => exact haccepts
  next => cases hrequire

/-- A value that is given fits; without one there is nil. -/
theorem requireIf_quiet {given : Bool} (target : Ty) {value : Value}
    (hnil : given = false → value = .nil) :
    Quiet (requireIf given target value) machine fun _ =>
      target.accepts value.ty = true ∨ given = false ∧ value = .nil := by
  cases given with
  | true => exact (require_quiet machine target value).imp fun _ haccepts => .inl haccepts
  | false => exact ⟨rfl, fun _ _ => .inr ⟨rfl, hnil rfl⟩⟩

theorem position_quiet (address : Address) (index : Value) :
    Quiet (position address index) machine fun position =>
      position < (machine.heap.elements address).size := by
  apply Quiet.view_bind
  exact (lift_quiet machine _).imp fun _ hposition => Value.lt_of_position hposition

/-! ## What elementary steps change -/

theorem declare_changes (name : String) (slot : Slot) (given : Bool) :
    (declare name slot given machine).1 = [] ∨
      machine.scopes.current.vars.binds name = false ∧
        (declare name slot given machine).1 = [.declare name slot given] := by
  have heq : declare name slot given machine =
      (if machine.scopes.current.vars.binds name then fail (.variableAlreadyDeclared name)
        else make (.declare name slot given) : Traced σ Unit) machine := rfl
  rw [heq]
  cases hbinds : machine.scopes.current.vars.binds name with
  | true => exact .inl rfl
  | false => exact .inr ⟨rfl, rfl⟩

theorem introduce_changes (name : String) {slot : Slot} {given : Bool}
    (hnil : given = false → slot.value = .nil) :
    (introduce name slot given machine).1 = [] ∨
      machine.scopes.current.vars.binds name = false ∧
        (slot.ty.accepts slot.value.ty = true ∨ given = false ∧ slot.value = .nil) ∧
        (introduce name slot given machine).1 = [.declare name slot given] := by
  rcases (requireIf_quiet machine slot.ty hnil).changes_bind fun _ => declare name slot given with
    hnone | ⟨_, hfits, heq⟩
  · exact .inl hnone
  rcases declare_changes machine name slot given with hnone | ⟨hfree, hone⟩
  · exact .inl (heq.trans hnone)
  · exact .inr ⟨hfree, hfits, heq.trans hone⟩

theorem assign_changes (name : String) (value : Value) :
    Change.AtMostOne machine (assign name value machine).1 := by
  unfold assign
  rcases (slot_quiet machine name).changes_bind _ with hnone | ⟨slot, hfind, heq⟩
  · exact .inl hnone
  rw [heq]
  rcases (require_quiet machine (slot.accepted false) value).changes_bind _ with
    hnone | ⟨_, haccepts, heq⟩
  · exact .inl hnone
  rw [heq]
  cases hmutable : slot.mutable with
  | true => exact .inr ⟨_, .store hfind hmutable haccepts, rfl⟩
  | false => exact .inl rfl

theorem assignElement_changes (name : String) (index value : Value) :
    Change.AtMostOne machine (assignElement name index value machine).1 := by
  unfold assignElement
  rcases (slot_quiet machine name).changes_bind _ with hnone | ⟨slot, hfind, heq⟩
  · exact .inl hnone
  rw [heq]
  rcases (require_quiet machine (slot.accepted true) value).changes_bind _ with
    hnone | ⟨_, haccepts, heq⟩
  · exact .inl hnone
  rw [heq]
  rcases (lift_quiet machine (slot.value.address name)).changes_bind _ with
    hnone | ⟨address, haddress, heq⟩
  · exact .inl hnone
  rw [heq]
  rcases (position_quiet machine address index).changes_bind _ with
    hnone | ⟨position, hposition, heq⟩
  · exact .inl hnone
  rw [heq]
  have hvalue := Value.eq_list_of_address haddress
  exact .inr ⟨_, .storeElement hfind hvalue haccepts hposition, rfl⟩

theorem returned_quiet (f : Function) (flow : Flow) :
    Quiet (returned f flow) machine fun _ => True := by
  cases flow with
  | next => exact ⟨rfl, fun _ _ => trivial⟩
  | returning value =>
      have htype : Quiet (returnType f.returnType) machine fun _ => True := by
        cases f.returnType with
        | some name => exact (lift_quiet machine _).imp fun _ _ => trivial
        | none => exact ⟨rfl, fun _ _ => trivial⟩
      apply htype.bind
      intro ty _
      exact (require_quiet machine ty value).bind fun _ _ => ⟨rfl, fun _ _ => trivial⟩

/-- A call changes nothing, or it calls the host, or it changes what the body of the function does
in an activation of its own. -/
theorem call_changes (policy : Division) (limit : Nat) (name : String) (arguments : List Value) :
    (call policy (limit + 1) name arguments machine).1 = [] ∨
    (∃ run, machine.scopes.findFunction? ⟨name, arguments.length⟩ = some (.native run) ∧
      (call policy (limit + 1) name arguments machine).1 = [.native name run arguments]) ∨
    ∃ body : Traced σ Flow, Composed (call policy limit) true body ∧
      (call policy (limit + 1) name arguments machine).1 =
        .enterFunction :: (body machine.enterFunction).1 ++ [.leaveFunction] := by
  unfold call
  rw [view_bind]
  cases hfind : machine.scopes.findFunction? ⟨name, arguments.length⟩ with
  | none => exact .inl rfl
  | some callable =>
      cases callable with
      | native run => exact .inr (.inl ⟨run, rfl, rfl⟩)
      | user f =>
          refine .inr (.inr ⟨_, Composed.body policy limit f arguments, ?_⟩)
          rcases changes_bind (inFunction _) (returned f) machine with heq | ⟨flow, _, heq⟩
          · exact heq
          · rw [heq, (returned_quiet _ f flow).changes, List.append_nil]
            rfl

end

/-! ## Blocks in use -/

/-- A step that leaves the scopes standing leaves them so on the machine after its changes. -/
theorem outline_after {step : Traced σ α} (h : Eval.Steady step.run) (machine : Machine σ) :
    (machine.after (step machine).1).outline = machine.outline := by
  have hrun := h machine
  unfold Ensures run at hrun
  rcases hstep : step machine with ⟨changes, reason | result⟩ <;>
    simpa only [hstep] using hrun

/-- The step leaves as many blocks in use as there were. -/
def KeepsBlocks (step : Traced σ α) : Prop :=
  ∀ machine : Machine σ,
    (machine.after (step machine).1).scopes.blocks.length = machine.scopes.blocks.length

theorem call_keepsBlocks (policy : Division) (limit : Nat) (name : String)
    (arguments : List Value) : KeepsBlocks (call policy limit name arguments : Traced σ Value) := by
  intro machine
  have hsteady : Eval.Steady (call policy limit name arguments : Traced σ Value).run := by
    rw [run_call]
    exact Eval.call_steady policy limit name arguments
  have hlength := congrArg (fun scopes => (Scopes.blocks scopes).length)
    (outline_after hsteady machine)
  simpa [Machine.outline, Scopes.mapVars] using hlength

theorem KeepsBlocks.bind {step : Traced σ α} {next : α → Traced σ β} (hstep : KeepsBlocks step)
    (hnext : ∀ result, KeepsBlocks (next result)) : KeepsBlocks (step >>= next) := by
  intro machine
  rcases changes_bind step next machine with heq | ⟨result, _, heq⟩
  · rw [heq]
    exact hstep machine
  · rw [heq, Machine.after_append]
    exact (hnext result _).trans (hstep machine)

theorem KeepsBlocks.inBlock {step : Traced σ α} (h : KeepsBlocks step) :
    KeepsBlocks (inBlock step) := by
  intro machine
  have hinside := h machine.enter
  unfold Traced.inBlock
  rw [after_within]
  simp only [Change.apply, Machine.leaveBlock, Scopes.leaveBlock, List.length_tail, hinside]
  rfl

theorem Composed.keepsBlocks {call : String → List Value → Traced σ Value} {declares : Bool}
    (hcall : ∀ name arguments, KeepsBlocks (call name arguments)) {step : Traced σ α}
    (h : Composed call declares step) : KeepsBlocks step := by
  induction h with
  | pure result => exact fun machine => rfl
  | halt reason => exact fun machine => rfl
  | bind _ _ ihstep ihnext => exact ihstep.bind ihnext
  | inBlock _ ih => exact ih.inBlock
  | slot name =>
      intro machine
      rw [(slot_quiet machine name).changes]
      rfl
  | heap look => exact fun machine => rfl
  | introduce _ _ _ hnil =>
      intro machine
      rcases introduce_changes machine _ hnil with hnone | ⟨_, _, hone⟩
      · rw [hnone]
        rfl
      · rw [hone]
        exact Scopes.length_blocks_setCurrent _ _
  | assign name value => exact fun machine => (assign_changes machine name value).length_blocks
  | assignElement name index value =>
      exact fun machine => (assignElement_changes machine name index value).length_blocks
  | createList elements => exact fun machine => rfl
  | call name arguments => exact hcall name arguments

/-! ## What evaluation changes -/

/-- A property of changes that are made on a machine which those of an activation have if each has
it. -/
structure Regular (good : Machine σ → List (Change σ) → Prop) : Prop where
  nil : ∀ machine, good machine []
  append : ∀ {machine first second}, good machine first →
    good (machine.after first) second → good machine (first ++ second)
  ordinary : ∀ {machine change}, change.Ordinary machine → good machine [change]
  inBlock : ∀ {machine changes}, good machine.enter changes →
    good machine (.enterBlock :: changes ++ [.leaveBlock])

namespace Regular

variable {good : Machine σ → List (Change σ) → Prop} (h : Regular good)
include h

theorem bind {step : Traced σ α} {next : α → Traced σ β} {machine : Machine σ}
    (hstep : good machine (step machine).1)
    (hnext : ∀ result, (step machine).2 = .ok result →
      good (machine.after (step machine).1) (next result (machine.after (step machine).1)).1) :
    good machine ((step >>= next) machine).1 := by
  rcases changes_bind step next machine with heq | ⟨result, hresult, heq⟩
  · rw [heq]
    exact hstep
  · rw [heq]
    exact h.append hstep (hnext result hresult)

theorem atMostOne {machine : Machine σ} {changes : List (Change σ)}
    (hchanges : Change.AtMostOne machine changes) : good machine changes := by
  rcases hchanges with rfl | ⟨change, hordinary, rfl⟩
  · exact h.nil machine
  · exact h.ordinary hordinary

/-- The property holds of the changes of evaluation if it holds of those of calls. What declares
variables is evaluated in a block. -/
theorem composed {call : String → List Value → Traced σ Value} {declares : Bool}
    (hcall : ∀ name arguments machine, good machine (call name arguments machine).1)
    (hkeeps : ∀ name arguments, KeepsBlocks (call name arguments))
    {step : Traced σ α} (hstep : Composed call declares step) {machine : Machine σ}
    (hblocks : declares = true → machine.scopes.blocks ≠ []) :
    good machine (step machine).1 := by
  induction hstep generalizing machine with
  | pure result => exact h.nil machine
  | halt reason => exact h.nil machine
  | bind hstep _ ihstep ihnext =>
      apply h.bind (ihstep hblocks)
      intro result _
      refine ihnext result fun hdeclares => ?_
      -- What was a block to declare variables in is still one after the first step.
      rw [← List.length_pos_iff, hstep.keepsBlocks hkeeps machine, List.length_pos_iff]
      exact hblocks hdeclares
  | inBlock _ ih => exact h.inBlock (ih fun _ => List.cons_ne_nil _ _)
  | slot name =>
      rw [(slot_quiet machine name).changes]
      exact h.nil machine
  | heap look => exact h.nil machine
  | introduce hdeclares hlist horigin hnil =>
      rcases introduce_changes machine _ hnil with hnone | ⟨hfree, hfits, hone⟩
      · rw [hnone]
        exact h.nil machine
      · rw [hone]
        exact h.ordinary (.declare (hblocks hdeclares) hfree hlist horigin hfits)
  | assign name value => exact h.atMostOne (assign_changes machine name value)
  | assignElement name index value =>
      exact h.atMostOne (assignElement_changes machine name index value)
  | createList elements => exact h.ordinary (.createList elements)
  | call name arguments => exact hcall name arguments machine

/-- The body of a function is evaluated in the first block of an activation of its own. -/
theorem body {policy : Division} {limit : Nat}
    (hcall : ∀ name arguments machine,
      good machine (Traced.call policy limit name arguments machine).1)
    {body : Traced σ Flow} (hbody : Composed (Traced.call policy limit) true body)
    (machine : Machine σ) : good machine.enterFunction (body machine.enterFunction).1 :=
  h.composed hcall (call_keepsBlocks policy limit) hbody fun _ => List.cons_ne_nil _ _

/-- The property holds of the changes of calls if it holds of a call of the host and of what
happens between entering and leaving an activation. -/
theorem call
    (hnative : ∀ {machine name run arguments},
      machine.scopes.findFunction? ⟨name, arguments.length⟩ = some (.native run) →
      good machine [.native name run arguments])
    (hfunction : ∀ {machine changes}, good machine.enterFunction changes →
      good machine (.enterFunction :: changes ++ [.leaveFunction]))
    (policy : Division) (limit : Nat) (name : String) (arguments : List Value)
    (machine : Machine σ) : good machine (call policy limit name arguments machine).1 := by
  induction limit generalizing name arguments machine with
  | zero => exact h.nil machine
  | succ limit ih =>
      rcases call_changes machine policy limit name arguments with
        hnone | ⟨run, hfind, hone⟩ | ⟨body, hbody, hbetween⟩
      · rw [hnone]
        exact h.nil machine
      · rw [hone]
        exact hnative hfind
      · rw [hbetween]
        exact hfunction (h.body ih hbody machine)

end Regular

/-! ## What programs change -/

/-- Where no block is in use, none is after a step that leaves the scopes standing. -/
theorem blocks_of_outline_eq {machine finish : Machine σ} (h : finish.outline = machine.outline)
    (hblocks : machine.scopes.blocks = []) : finish.scopes.blocks = [] := by
  have hmap := congrArg Scopes.blocks h
  simpa [Machine.outline, Scopes.mapVars, hblocks] using hmap

section

variable (policy : Division) (limit : Nat)

theorem initialValue_steady (initial : Option Expr) :
    Eval.Steady (initialValue policy limit initial : Traced σ Value).run := by
  rw [run_initialValue]
  exact Eval.initialValue_steady policy (Eval.call_steady policy limit) initial

theorem initialValue_eq_nil {initial : Option Expr} {machine : Machine σ} {value : Value}
    (h : (initialValue policy limit initial machine).2 = .ok value) :
    initial.isSome = false → value = .nil := by
  cases initial with
  | none =>
      intro _
      exact (Except.ok.inj h).symm
  | some e => exact nofun

theorem requireAll_quiet (machine : Machine σ) (target : Ty) (elements : List Value) :
    Quiet (requireAll target elements) machine fun _ =>
      ∀ element ∈ elements, target.accepts element.ty = true := by
  induction elements with
  | nil => exact ⟨rfl, fun _ _ => nofun⟩
  | cons first rest ih =>
      apply (require_quiet machine target first).bind
      intro _ hfirst
      exact ih.imp fun _ hrest => List.forall_mem_cons.mpr ⟨hfirst, hrest⟩

/-- A global's first value is checked as its slot needs it. -/
theorem requireInitial_quiet (machine : Machine σ) (g : Global) (ty : Ty) {value : Value}
    (hnil : g.initial.isSome = false → value = .nil) :
    Quiet (requireInitial g ty value) machine fun _ =>
      (g.isList = false → ty.accepts value.ty = true ∨ g.initial.isSome = false ∧ value = .nil) ∧
      ∀ address, g.isList = true → value = .list address →
        ∀ element ∈ machine.heap.elements address, ty.accepts element.ty = true := by
  unfold requireInitial
  cases hlist : g.isList with
  | false =>
      apply (requireIf_quiet machine ty hnil).imp
      intro _ hfits
      exact ⟨fun _ => hfits, nofun⟩
  | true =>
      cases value with
      | list address =>
          apply Quiet.view_bind
          apply (requireAll_quiet machine ty _).imp
          intro _ hall
          refine ⟨nofun, ?_⟩
          rintro _ _ ⟨⟩ element helement
          exact hall element (Array.mem_toList_iff.mpr helement)
      | _ => exact (requireIf_quiet machine ty hnil).imp fun _ _ => ⟨nofun, nofun⟩

/-- The declaration of a global changes what its first value does and then makes the slot, if it
comes so far. -/
theorem global_changes (g : Global) (machine : Machine σ) :
    (global policy limit g machine).1 = [] ∨
    (global policy limit g machine).1 = (initialValue policy limit g.initial machine).1 ∨
    ∃ value ty, (initialValue policy limit g.initial machine).2 = .ok value ∧
      Ty.ofName g.typeName = .ok ty ∧
      (Change.declare g.name (globalSlot g value ty) g.initial.isSome).Permitted
        (machine.after (initialValue policy limit g.initial machine).1) ∧
      (global policy limit g machine).1 = (initialValue policy limit g.initial machine).1 ++
        [.declare g.name (globalSlot g value ty) g.initial.isSome] := by
  unfold global
  rcases (lift_quiet machine (Ty.ofName g.typeName)).changes_bind _ with hnone | ⟨ty, hty, heq⟩
  · exact .inl hnone
  rw [resolve, heq]
  rcases changes_bind (initialValue policy limit g.initial) _ machine with
    heq | ⟨value, hvalue, heq⟩
  · exact .inr (.inl heq)
  rw [heq]
  -- From here on nothing depends on how the first value was got.
  generalize machine.after (initialValue policy limit g.initial machine).1 = middle
  have hnil := initialValue_eq_nil policy limit hvalue
  rcases (requireInitial_quiet middle g ty hnil).changes_bind _ with
    hnone | ⟨_, ⟨hfits, helements⟩, heq⟩
  · rw [hnone, List.append_nil]
    exact .inr (.inl rfl)
  rw [heq]
  rcases declare_changes middle g.name (globalSlot g value ty) g.initial.isSome with
    hnone | ⟨hfree, hone⟩
  · rw [hnone, List.append_nil]
    exact .inr (.inl rfl)
  · rw [hone]
    exact .inr (.inr ⟨value, ty, hvalue, hty, .declareGlobal hfree hty hfits helements, rfl⟩)

theorem declareFunction_changes (f : Function) (machine : Machine σ) :
    (declareFunction f machine).1 = [] ∨ (declareFunction f machine).1 = [.declareFunction f] := by
  have heq : declareFunction f machine =
      (if machine.scopes.current.funs.binds ⟨f.name, f.arity⟩ then
        fail (.functionAlreadyDeclared f.name f.arity)
      else make (.declareFunction f) : Traced σ Unit) machine := rfl
  rw [heq]
  split
  · exact .inl rfl
  · exact .inr rfl

theorem blocks_after_global {machine : Machine σ} (hblocks : machine.scopes.blocks = [])
    (g : Global) : (machine.after (global policy limit g machine).1).scopes.blocks = [] := by
  have hinitial := blocks_of_outline_eq
    (outline_after (initialValue_steady policy limit g.initial) machine) hblocks
  rcases global_changes policy limit g machine with hnone | hsame | ⟨value, ty, _, _, _, hmore⟩
  · rw [hnone]
    exact hblocks
  · rw [hsame]
    exact hinitial
  · rw [hmore, Machine.after_append]
    simp [Change.apply, Scopes.addVariable, Scopes.setCurrent, hinitial]

theorem blocks_after_declareFunction {machine : Machine σ} (hblocks : machine.scopes.blocks = [])
    (f : Function) : (machine.after (declareFunction f machine).1).scopes.blocks = [] := by
  rcases declareFunction_changes f machine with hnone | hone
  · rw [hnone]
    exact hblocks
  · rw [hone]
    simp [Change.apply, Scopes.addFunction, Scopes.setCurrent, hblocks]

variable {good : Machine σ → List (Change σ) → Prop}

theorem Regular.initialValue (h : Regular good)
    (hcall : ∀ name arguments machine,
      good machine (Traced.call policy limit name arguments machine).1)
    (initial : Option Expr) (machine : Machine σ) :
    good machine (Traced.initialValue policy limit initial machine).1 := by
  have hcomposed : Composed (Traced.call policy limit) false
      (Traced.initialValue policy limit initial : Traced σ Value) := by
    cases initial with
    | none => exact .pure _
    | some e => exact .expression policy e
  exact h.composed hcall (call_keepsBlocks policy limit) hcomposed nofun

/-- The property holds of the changes that are made for all items, each where no block is in use. -/
theorem Regular.each (h : Regular good) {τ : Type} {step : τ → Traced σ Unit} {items : List τ}
    (hstep : ∀ item ∈ items, ∀ machine : Machine σ, machine.scopes.blocks = [] →
      good machine (step item machine).1 ∧
        (machine.after (step item machine).1).scopes.blocks = [])
    {machine : Machine σ} (hblocks : machine.scopes.blocks = []) :
    good machine (each step items machine).1 ∧
      (machine.after (each step items machine).1).scopes.blocks = [] := by
  induction items generalizing machine with
  | nil => exact ⟨h.nil machine, hblocks⟩
  | cons first rest ih =>
      obtain ⟨hfirst, hrest⟩ := List.forall_mem_cons.mp hstep
      obtain ⟨hgood, hmiddle⟩ := hfirst machine hblocks
      rcases changes_bind (step first) (fun _ => Traced.each step rest) machine with
        heq | ⟨_, _, heq⟩
      · simp only [Traced.each, heq]
        exact ⟨hgood, hmiddle⟩
      · obtain ⟨hgood', hfinish⟩ := ih hrest hmiddle
        simp only [Traced.each, heq, Machine.after_append]
        exact ⟨h.append hgood hgood', hfinish⟩

/-- The property holds of the changes of a program if it holds of those of its globals, of the
declarations of its functions, and of calls. -/
theorem Regular.program (h : Regular good) {p : Program}
    (hglobal : ∀ g ∈ p.globals, ∀ machine, good machine (Traced.global policy limit g machine).1)
    (hfunction : ∀ f machine, machine.scopes.blocks = [] → good machine [.declareFunction f])
    (hcall : ∀ name arguments machine,
      good machine (Traced.call policy limit name arguments machine).1)
    {machine : Machine σ} (hblocks : machine.scopes.blocks = []) :
    good machine (Traced.program policy limit p machine).1 := by
  have hdeclare (f : Function) (machine : Machine σ) (hblocks : machine.scopes.blocks = []) :
      good machine (declareFunction f machine).1 := by
    rcases declareFunction_changes f machine with hnone | hone
    · rw [hnone]
      exact h.nil machine
    · rw [hone]
      exact hfunction f machine hblocks
  obtain ⟨hglobals, hmiddle⟩ := h.each (fun g hg machine hblocks =>
    ⟨hglobal g hg machine, blocks_after_global policy limit hblocks g⟩) hblocks
  apply h.bind hglobals
  intro _ _
  obtain ⟨hfunctions, _⟩ := h.each (fun f (_ : f ∈ p.functions) machine hblocks =>
    ⟨hdeclare f machine hblocks, blocks_after_declareFunction hblocks f⟩) hmiddle
  apply h.bind hfunctions
  intro _ _
  exact hcall "main" [] _

end

end Traced

/-! ## Permitted changes -/

namespace Machine

/-- Each of the changes is permitted on the machine that those before it leave. -/
def Permits : Machine σ → List (Change σ) → Prop
  | _, [] => True
  | machine, change :: changes =>
      change.Permitted machine ∧ (change.apply machine).Permits changes

theorem permits_append (machine : Machine σ) (first second : List (Change σ)) :
    machine.Permits (first ++ second) ↔
      machine.Permits first ∧ (machine.after first).Permits second := by
  induction first generalizing machine with
  | nil => simp [Permits]
  | cons change changes ih => simp [Permits, ih, and_assoc]

theorem permits_singleton (machine : Machine σ) (change : Change σ) :
    machine.Permits [change] ↔ change.Permitted machine := by
  simp [Permits]

theorem permits_concat (machine : Machine σ) (changes : List (Change σ)) (change : Change σ) :
    machine.Permits (changes ++ [change]) ↔
      machine.Permits changes ∧ change.Permitted (machine.after changes) := by
  rw [permits_append, permits_singleton]

/-- Between two changes that are always permitted. -/
theorem Permits.within {machine : Machine σ} {enter leave : Change σ} {changes : List (Change σ)}
    (h : (enter.apply machine).Permits changes) (henter : enter.Permitted machine)
    (hleave : ∀ finish, leave.Permitted finish) :
    machine.Permits (enter :: changes ++ [leave]) :=
  ⟨henter, (permits_concat _ _ _).mpr ⟨h, hleave _⟩⟩

end Machine

namespace Traced

theorem regular_permits : Regular (Machine.Permits (σ := σ)) where
  nil _ := trivial
  append hfirst hsecond := (Machine.permits_append _ _ _).mpr ⟨hfirst, hsecond⟩
  ordinary h := (Machine.permits_singleton _ _).mpr (.ordinary h)
  inBlock h := Machine.Permits.within h .enterBlock fun _ => .leaveBlock

theorem call_permits (policy : Division) (limit : Nat) (name : String) (arguments : List Value)
    (machine : Machine σ) : machine.Permits (call policy limit name arguments machine).1 := by
  apply regular_permits.call
  · intro machine name run arguments hfind
    exact (Machine.permits_singleton _ _).mpr (.native hfind)
  · intro machine changes h
    exact Machine.Permits.within h .enterFunction fun _ => .leaveFunction

/-- Every change that a program makes is permitted. -/
theorem program_permits (policy : Division) (limit : Nat) (p : Program) {machine : Machine σ}
    (hblocks : machine.scopes.blocks = []) :
    machine.Permits (program policy limit p machine).1 := by
  apply regular_permits.program policy limit _ _ (call_permits policy limit) hblocks
  · intro g _ machine
    have hinitial := regular_permits.initialValue policy limit (call_permits policy limit) g.initial
      machine
    rcases global_changes policy limit g machine with
      hnone | hsame | ⟨_, _, _, _, hpermitted, hmore⟩
    · rw [hnone]
      trivial
    · rw [hsame]
      exact hinitial
    · rw [hmore, Machine.permits_concat]
      exact ⟨hinitial, hpermitted⟩
  · intro f machine hblocks
    exact (Machine.permits_singleton _ _).mpr (.declareFunction hblocks)

end Traced

end Scriptlet
