import Scriptlet.Eval.Statement
import Scriptlet.Proofs.Eval.Discipline
import Scriptlet.Proofs.Scope.Replacement

/-! # The effect of assignments

An assignment evaluates its index, if it has one, and its value. What it does then is to change one
place of the machine, or to refuse the value and change nothing: all checks come before the change.
-/

namespace Scriptlet

variable {σ : Type}

/-- Heaps differ in one element of one list, and in nothing else. -/
structure Heap.Replaces (address : Address) (position : Nat) (value : Value)
    (before after : Heap) : Prop where
  inside : position < (before.elements address).size
  size : after.size = before.size
  lengths : ∀ other, (after.elements other).size = (before.elements other).size
  elements : ∀ (other : Address) (i : Nat), (after.elements other)[i]? =
    if other = address ∧ i = position then some value else (before.elements other)[i]?

/-- Whatever variable holds the list, and whatever index is evaluated to the number, the element is
read as the value. -/
def Heap.Reads (policy : Division) (call : String → List Value → Eval σ Value) (heap : Heap)
    (address : Address) (n : Int) (value : Value) : Prop :=
  ∀ (start machine : Machine σ) (name : String) (slot : Slot) (id : NodeId) (index : Expr),
    Eval.expression policy call index start = .ok (.integer n) machine → machine.heap = heap →
    machine.scopes.findVariable? name = some slot → slot.value = .list address →
    Eval.expression policy call (.element id name index) start = .ok value machine

namespace Machine

/-- The name refers to the slot, which takes the value as its own or, if `indexed`, as an element of
its list. -/
structure Takes (machine : Machine σ) (name : String) (indexed : Bool) (value : Value)
    (slot : Slot) : Prop where
  found : machine.scopes.findVariable? name = some slot
  accepts : (slot.accepted indexed).accepts value.ty = true

/-- What the machine becomes when a value is put into the variable of the given name or, with an
index, into its list. -/
inductive Replaces (machine : Machine σ) (name : String) (value : Value) :
    Option Value → Machine σ → Prop
  | slot {slot : Slot} {scopes : RunScopes σ} : machine.Takes name false value slot →
      slot.mutable = true → machine.scopes.Replaces name slot { slot with value } scopes →
      Replaces machine name value none { machine with scopes }
  | element {slot : Slot} {address : Address} {position : Nat} {heap : Heap} :
      machine.Takes name true value slot → slot.value = .list address →
      machine.heap.Replaces address position value heap →
      Replaces machine name value (some (.integer position)) { machine with heap }

/-- Why a value cannot be put into the variable of the given name or, with an index, into its
list. -/
inductive Refuses (machine : Machine σ) (name : String) (value : Value) :
    Option Value → Halt → Prop
  | undeclared {index : Option Value} : machine.scopes.findVariable? name = none →
      Refuses machine name value index (.error (.variableNotDeclared name))
  | mismatch {index : Option Value} {slot : Slot} :
      machine.scopes.findVariable? name = some slot →
      (slot.accepted index.isSome).accepts value.ty = false →
      Refuses machine name value index
        (.error (.typeMismatch (slot.accepted index.isSome).name value.ty.name))
  | immutable {slot : Slot} : machine.Takes name false value slot → slot.mutable = false →
      Refuses machine name value none (.error (.immutableAssignment name))
  | notAList {index : Value} {slot : Slot} : machine.Takes name true value slot →
      (∀ address, slot.value ≠ .list address) →
      Refuses machine name value (some index) (.error (.notAList name))
  | notAnInteger {index : Value} {slot : Slot} {address : Address} :
      machine.Takes name true value slot → slot.value = .list address →
      (∀ n, index ≠ .integer n) →
      Refuses machine name value (some index)
        (.error (.typeMismatch Ty.integer.name index.ty.name))
  | outOfRange {n : Int} {slot : Slot} {address : Address} :
      machine.Takes name true value slot → slot.value = .list address →
      ¬ (0 ≤ n ∧ n < (machine.heap.elements address).size) →
      Refuses machine name value (some (.integer n))
        (.error (.indexOutOfRange (String.ofList (Numeral.writeInt n))
          (machine.heap.elements address).size))

end Machine

/-- The variable that an assignment names, the value of its index, if it has one, and what it
assigns. These are evaluated in the order in which they are written. -/
inductive Eval.Operands (policy : Division) (call : String → List Value → Eval σ Value)
    (start : Machine σ) : (receiver value : Expr) → (name : String) → (index : Option Value) →
    (assigned : Value) → (finish : Machine σ) → Prop
  | access {id : NodeId} {name : String} {value : Expr} {assigned : Value} {finish : Machine σ} :
      expression policy call value start = .ok assigned finish →
      Operands policy call start (.access id name) value name none assigned finish
  | element {id : NodeId} {name : String} {index value : Expr} {position assigned : Value}
      {middle finish : Machine σ} : expression policy call index start = .ok position middle →
      expression policy call value middle = .ok assigned finish →
      Operands policy call start (.element id name index) value name (some position) assigned finish

/-! ## One element of one list -/

namespace Heap

variable {heap : Heap} {address : Address} {position : Nat}

theorem replaces_setElement (h : position < (heap.elements address).size) (value : Value) :
    heap.Replaces address position value (heap.setElement address position value) := by
  have hother (other : Address) : (heap.setElement address position value).elements other =
      if address = other then (heap.elements other).setIfInBounds position value
      else heap.elements other :=
    heap.elements_modify address other _ (lt_size_of_lt h)
  refine ⟨h, heap.size_modify address _, ?_, ?_⟩
  · intro other
    rw [hother]
    split
    · exact Array.size_setIfInBounds
    · rfl
  · intro other i
    rw [hother]
    by_cases hsame : address = other
    · subst hsame
      by_cases hposition : position = i
      · subst hposition
        simp [h]
      · simp [hposition, Ne.symm hposition]
    · simp [hsame, Ne.symm hsame]

end Heap

namespace Value

/-- Which positions an index denotes. -/
theorem ends_position_inside (index : Value) (length : Nat) :
    Ends (fun position => position < length ∧ index = .integer position)
      (fun cause => (∀ n, index ≠ .integer n) ∧
          cause = .typeMismatch Ty.integer.name index.ty.name ∨
        ∃ n, index = .integer n ∧ ¬ (0 ≤ n ∧ n < length) ∧
          cause = .indexOutOfRange (String.ofList (Numeral.writeInt n)) length)
      (index.position length) := by
  unfold position
  split
  next n =>
    split
    next hinside =>
      simp only [Bool.and_eq_true, decide_eq_true_eq] at hinside
      refine ⟨by omega, ?_⟩
      rw [Int.toNat_of_nonneg hinside.1]
    next hinside =>
      simp only [Bool.and_eq_true, decide_eq_true_eq] at hinside
      exact .inr ⟨n, rfl, hinside, rfl⟩
  next hother => exact .inl ⟨hother, rfl⟩

end Value

namespace Eval

variable {machine : Machine σ} {name : String}

/-! ## Checks and changes -/

/-- The checks that every assignment begins with. -/
theorem ensures_take (index : Option Value) {value : Value} {next : Slot → Eval σ Unit}
    {good : Unit → Machine σ → Prop}
    (hnext : ∀ slot, machine.Takes name index.isSome value slot →
      Ensures (next slot) machine good
        fun halt finish => finish = machine ∧ machine.Refuses name value index halt) :
    Ensures (do let slot ← slot name; require (slot.accepted index.isSome) value; next slot)
      machine good fun halt finish => finish = machine ∧ machine.Refuses name value index halt := by
  unfold slot
  simp only [bind_assoc]
  apply Ensures.get_bind
  cases hfound : machine.scopes.findVariable? name with
  | none => exact ⟨rfl, .undeclared hfound⟩
  | some slot =>
      apply Ends.lift_bind
      unfold Value.requireFor Ty.requireAssignable
      split
      next haccepts => exact hnext slot ⟨hfound, haccepts⟩
      next hrefuses => exact ⟨rfl, .mismatch hfound (Bool.eq_false_iff.mpr hrefuses)⟩

theorem ensures_replaces_slot (machine : Machine σ) (name : String) (value : Value) :
    Ensures (do
        let slot ← slot name
        require (slot.accepted false) value
        if slot.mutable then store name value else fail (.immutableAssignment name))
      machine (fun _ finish => machine.Replaces name value none finish)
      fun halt finish => finish = machine ∧ machine.Refuses name value none halt := by
  apply ensures_take none
  intro slot htakes
  cases hmutable : slot.mutable with
  | true =>
      exact .slot htakes hmutable
        (Scopes.replaces_modifyVariable htakes.found fun slot => { slot with value })
  | false => exact ⟨rfl, .immutable htakes hmutable⟩

theorem ensures_replaces_element (machine : Machine σ) (name : String) (index value : Value) :
    Ensures (do
        let slot ← slot name
        require (slot.accepted true) value
        let address ← lift (slot.value.address name)
        storeElement address index value)
      machine (fun _ finish => machine.Replaces name value (some index) finish)
      fun halt finish => finish = machine ∧ machine.Refuses name value (some index) halt := by
  apply ensures_take (some index)
  intro slot htakes
  apply Ends.lift_bind
  unfold Value.address
  split
  next address hlist =>
    simp only [Ends, storeElement, position, bind_assoc]
    apply Ensures.get_bind
    apply Ends.lift_bind
    have hposition := index.ends_position_inside (machine.heap.elements address).size
    cases hresult : index.position (machine.heap.elements address).size with
    | ok position =>
        rw [hresult] at hposition
        obtain ⟨hinside, rfl⟩ := hposition
        exact .element htakes hlist (Heap.replaces_setElement hinside value)
    | error cause =>
        rw [hresult] at hposition
        rcases hposition with ⟨hother, rfl⟩ | ⟨n, rfl, houtside, rfl⟩
        · exact ⟨rfl, .notAnInteger htakes hlist hother⟩
        · exact ⟨rfl, .outOfRange htakes hlist houtside⟩
  next hother => exact ⟨rfl, .notAList htakes hother⟩

/-! ## Reading -/

theorem slot_of_found {slot : Slot} (h : machine.scopes.findVariable? name = some slot) :
    Eval.slot name machine = .ok slot machine := by
  have hget : (get : Eval σ (Machine σ)) machine = .ok machine machine := rfl
  rw [Eval.slot, bind_of_ok hget, h]
  rfl

theorem elementAt_of_some {address : Address} {position : Nat} {value : Value}
    (h : (machine.heap.elements address)[position]? = some value) :
    elementAt address (.integer position) machine = .ok value machine := by
  obtain ⟨hinside, _⟩ := Array.getElem?_eq_some_iff.mp h
  have hposition : (Value.integer position).position (machine.heap.elements address).size =
      .ok position := by
    simp [Value.position, hinside]
  have hget : (get : Eval σ (Machine σ)) machine = .ok machine machine := rfl
  have hdenotes : (Eval.position address (.integer position) : Eval σ Nat) machine =
      .ok position machine := by
    rw [Eval.position, bind_of_ok hget, hposition]
    rfl
  rw [elementAt, bind_of_ok hdenotes, bind_of_ok hget, h]
  rfl

/-- What has been put into a list is what variables read that hold the list. -/
theorem reads_of_replaces {policy : Division} {call : String → List Value → Eval σ Value}
    {before after : Heap} {address : Address} {position : Nat} {value : Value}
    (h : before.Replaces address position value after) :
    after.Reads policy call address position value := by
  intro start machine name slot id index hindex hheap hfound hlist
  have haddress : (lift (slot.value.address name) : Eval σ Address) machine =
      .ok address machine := by
    rw [hlist]
    rfl
  have helement : (machine.heap.elements address)[position]? = some value := by
    rw [hheap, h.elements, if_pos ⟨rfl, rfl⟩]
  rw [expression, bind_of_ok hindex, bind_of_ok (slot_of_found hfound), bind_of_ok haddress]
  exact elementAt_of_some helement

end Eval

/-! ## Assignments -/

/-- Once the operands of an assignment are evaluated, it replaces the value of the one slot or the
one element that it names, and an element is read back through every variable that holds the list;
or it fails for a reason that is there before any change, and changes nothing. What is neither a
variable nor an element cannot be assigned, and nothing is evaluated. -/
theorem assignment_replaces_or_keeps (policy : Division)
    (call : String → List Value → Eval σ Value) (start : Machine σ) (receiver value : Expr) :
    (∀ name index assigned machine,
      Eval.Operands policy call start receiver value name index assigned machine →
      Ensures (Eval.assignment policy call receiver value) start
        (fun _ finish => machine.Replaces name assigned index finish ∧
          ∀ slot address n, machine.scopes.findVariable? name = some slot →
            slot.value = .list address → index = some (.integer n) →
            finish.heap.Reads policy call address n assigned)
        fun halt finish => finish = machine ∧ machine.Refuses name assigned index halt) ∧
    ((∀ id name, receiver ≠ .access id name) →
      (∀ id name index, receiver ≠ .element id name index) →
      Eval.assignment policy call receiver value start =
        .error (.error .invalidAssignmentTarget) start) := by
  constructor
  · intro name index assigned machine hoperands
    cases hoperands with
    | access hvalue =>
        apply Ensures.bind_of_eq_ok hvalue
        apply (Eval.ensures_replaces_slot machine name assigned).imp
        intro _ finish hreplaces
        exact ⟨hreplaces, by simp⟩
    | element hindex hvalue =>
        apply Ensures.bind_of_eq_ok hindex
        apply Ensures.bind_of_eq_ok hvalue
        apply (Eval.ensures_replaces_element machine name _ assigned).imp
        intro _ finish hreplaces
        refine ⟨hreplaces, ?_⟩
        intro slot address n hfound hlist hn
        cases hreplaces with
        | element htakes hlist' hheap =>
            -- The list that was changed is the one that the name refers to.
            cases htakes.found.symm.trans hfound
            cases hlist'.symm.trans hlist
            cases hn
            exact Eval.reads_of_replaces hheap
  · intro haccess helement
    unfold Eval.assignment
    split
    next => exact absurd rfl (haccess _ _)
    next => exact absurd rfl (helement _ _ _)
    next => rfl

/-- An element of a list that holds itself, put there by one variable and read through another; and
a number, to which nothing can be assigned. -/
theorem assignment_replaces_or_keeps_alias :
    let slot : Slot := ⟨.list 0, .any, false, false, none⟩
    let machine : Machine Unit :=
      ⟨⟨[⟨[("ys", slot)], []⟩], [], ⟨[("xs", slot)], []⟩⟩, ⟨#[#[.integer 1, .list 0]]⟩, ()⟩
    let call : String → List Value → Eval Unit Value := fun _ _ => return .nil
    let index : Expr := .literal 0 (.integer 0)
    Eval.Operands .unscaled call machine (.element 1 "xs" index) (.literal 2 (.integer 7)) "xs"
      (some (.integer 0)) (.integer 7) machine ∧
    (∃ heap, Eval.assignment .unscaled call (.element 1 "xs" index) (.literal 2 (.integer 7))
        machine = .ok () { machine with heap } ∧
      Eval.expression .unscaled call (.element 3 "ys" index) { machine with heap } =
        .ok (.integer 7) { machine with heap }) ∧
    Eval.assignment .unscaled call index index machine =
      .error (.error .invalidAssignmentTarget) machine := by
  intro slot machine call index
  have hoperands : Eval.Operands .unscaled call machine (.element 1 "xs" index)
      (.literal 2 (.integer 7)) "xs" (some (.integer 0)) (.integer 7) machine :=
    .element rfl rfl
  have hensures := (assignment_replaces_or_keeps .unscaled call machine _ _).1 _ _ _ _ hoperands
  have hok : Eval.assignment .unscaled call (.element 1 "xs" index) (.literal 2 (.integer 7))
      machine = .ok () { machine with heap := ⟨#[#[.integer 7, .list 0]]⟩ } := by
    rfl
  obtain ⟨_, hreads⟩ := hensures.of_ok hok
  refine ⟨hoperands, ⟨_, hok, ?_⟩, ?_⟩
  · exact hreads slot 0 0 rfl rfl rfl _ _ "ys" slot 3 index rfl rfl rfl rfl
  · exact (assignment_replaces_or_keeps .unscaled call machine index index).2 (by simp [index])
      (by simp [index])

end Scriptlet
