import Scriptlet.Proofs.Eval.Erasure

/-! # How evaluation is put together

Evaluation of expressions, statements and parameters is put together from a few elementary steps and
from calls. So what holds of these, and of steps put together from steps of which it holds, holds of
all evaluation.
-/

namespace Scriptlet.Traced

variable {σ α β : Type}

/-- The step is put together from elementary steps and from calls. It makes slots of its own only if
it `declares`. -/
inductive Composed (call : String → List Value → Traced σ Value) (declares : Bool) :
    {α : Type} → Traced σ α → Prop
  | pure {α : Type} (result : α) : Composed call declares (pure result : Traced σ α)
  | halt {α : Type} (reason : Halt) : Composed call declares (halt reason : Traced σ α)
  | bind {α β : Type} {step : Traced σ α} {next : α → Traced σ β} :
      Composed call declares step → (∀ result, Composed call declares (next result)) →
        Composed call declares (step >>= next)
  | inBlock {α : Type} {step : Traced σ α} :
      Composed call declares step → Composed call declares (inBlock step)
  | slot (name : String) : Composed call declares (slot name)
  | heap {α : Type} (look : Heap → α) :
      Composed call declares (view fun machine => look machine.heap)
  /-- The slot of a local variable or of a parameter, which is nil if no value is given. -/
  | introduce {name : String} {slot : Slot} {given : Bool} :
      declares = true → slot.isList = false → (∀ id, slot.origin ≠ some (.global id)) →
        (given = false → slot.value = .nil) → Composed call declares (introduce name slot given)
  | assign (name : String) (value : Value) : Composed call declares (assign name value)
  | assignElement (name : String) (index value : Value) :
      Composed call declares (assignElement name index value)
  | createList (elements : List Value) : Composed call declares (createList elements)
  | call (name : String) (arguments : List Value) : Composed call declares (call name arguments)

namespace Composed

variable {call : String → List Value → Traced σ Value} {declares : Bool}

theorem lift (result : Except Cause α) : Composed call declares (lift result) := by
  cases result with
  | ok value => exact .pure value
  | error cause => exact .halt _

theorem resolve (name : String) : Composed call declares (resolve name) :=
  lift _

theorem elementAt (address : Address) (index : Value) :
    Composed call declares (elementAt address index) := by
  apply Composed.bind
  · exact .bind (.heap fun heap => (heap.elements address).size) fun _ => lift _
  · intro position
    exact .heap fun heap => (heap.elements address)[position]?.getD .nil

/-! ## Expressions -/

variable (policy : Division)

mutual

theorem expression : ∀ e : Expr, Composed call declares (expression policy call e)
  | .literal _ _ => by
      simp only [Traced.expression]
      exact .pure _
  | .group _ inner => by
      simp only [Traced.expression]
      exact expression inner
  | .binary _ operator left right => by
      simp only [Traced.expression]
      apply (expression left).bind
      intro first
      split
      · apply (lift _).bind
        intro truth
        split
        · exact .pure _
        · exact (expression right).bind fun second => (lift _).bind fun _ => .pure _
      · apply (expression right).bind
        intro second
        exact (Composed.heap fun heap => heap).bind fun _ => lift _
  | .access _ name => by
      simp only [Traced.expression]
      exact (Composed.slot name).bind fun _ => .pure _
  | .element _ name index => by
      simp only [Traced.expression]
      apply (expression index).bind
      intro i
      exact (Composed.slot name).bind fun _ => (lift _).bind fun _ => elementAt _ _
  | .call _ name arguments => by
      simp only [Traced.expression]
      exact (expressions arguments).bind fun values => .call name values
  | .list _ elements => by
      simp only [Traced.expression]
      exact (expressions elements).bind fun values => .createList values

theorem expressions : ∀ es : List Expr, Composed call declares (expressions policy call es)
  | [] => by
      simp only [Traced.expressions]
      exact .pure _
  | first :: rest => by
      simp only [Traced.expressions]
      exact (expression first).bind fun _ => (expressions rest).bind fun _ => .pure _

end

theorem condition (e : Expr) : Composed call declares (condition policy call e) :=
  (expression policy e).bind fun _ => lift _

/-! ## Statements -/

theorem repeatWhile {test : Traced σ Bool} {step : Traced σ Flow}
    (htest : Composed call declares test) (hstep : Composed call declares step) (limit : Nat) :
    Composed call declares (repeatWhile test step limit) := by
  induction limit with
  | zero => exact .halt _
  | succ limit ih =>
      apply htest.bind
      intro holds
      split
      · apply hstep.bind
        intro flow
        cases flow with
        | next => exact ih
        | returning value => exact .pure _
      · exact .pure _

theorem slotType (value : Value) (typeName : Option String) :
    Composed call declares (slotType value typeName) := by
  cases typeName with
  | some name => exact resolve name
  | none => exact .pure _

theorem declaration (id : NodeId) (name : String) (typeName : Option String)
    (initial : Option Expr) :
    Composed call true (declaration policy call id name typeName initial) := by
  cases initial with
  | some e =>
      apply (expression policy e).bind
      intro value
      exact (slotType value typeName).bind fun ty => .introduce rfl rfl nofun nofun
  | none => exact (slotType .nil typeName).bind fun ty => .introduce rfl rfl nofun fun _ => rfl

theorem assignment (receiver value : Expr) :
    Composed call true (assignment policy call receiver value) := by
  cases receiver with
  | access id name => exact (expression policy value).bind fun _ => .assign _ _
  | element id name index =>
      apply (expression policy index).bind
      intro i
      exact (expression policy value).bind fun _ => .assignElement _ _ _
  | _ => exact .halt _

variable (limit : Nat)

mutual

theorem statement : ∀ s : Stmt, Composed call true (statement policy call limit s)
  | .expression value => by
      simp only [Traced.statement]
      exact (expression policy value).bind fun _ => .pure _
  | .declaration id name typeName initial => by
      simp only [Traced.statement]
      exact (declaration policy id name typeName initial).bind fun _ => .pure _
  | .assignment receiver value => by
      simp only [Traced.statement]
      exact (assignment policy receiver value).bind fun _ => .pure _
  | .branch test thenBlock elseBlock => by
      simp only [Traced.statement]
      apply (condition policy test).bind
      intro holds
      split
      · exact (block thenBlock).inBlock
      · exact (block elseBlock).inBlock
  | .switch subject arms => by
      simp only [Traced.statement]
      exact ((expression policy subject).bind fun value => cases value arms).inBlock
  | .loop test body => by
      simp only [Traced.statement]
      exact (condition policy test).repeatWhile (block body).inBlock limit
  | .ret value => by
      simp only [Traced.statement]
      exact (expression policy value).bind fun _ => .pure _

theorem block : ∀ statements : List Stmt, Composed call true (block policy call limit statements)
  | [] => by
      simp only [Traced.block]
      exact .pure _
  | first :: rest => by
      simp only [Traced.block]
      apply (statement first).bind
      intro flow
      split
      · exact block rest
      · exact .pure _

theorem cases (subject : Value) : ∀ arms : List Case,
    Composed call true (cases policy call limit subject arms)
  | [] => by
      simp only [Traced.cases]
      exact .pure _
  | .mk none body :: _ => by
      simp only [Traced.cases]
      exact (block body).inBlock
  | .mk (some value) body :: rest => by
      simp only [Traced.cases]
      apply (expression policy value).bind
      intro found
      apply (Composed.heap fun heap => heap).bind
      intro heap
      split
      · exact (block body).inBlock
      · exact cases subject rest

end

/-! ## Calls -/

theorem parameters (function index : Nat) (names typeNames : List String) (values : List Value) :
    Composed call true (parameters function index names typeNames values) := by
  induction names generalizing index typeNames values with
  | nil => exact .pure _
  | cons name names ih =>
      cases typeNames with
      | nil => exact .pure _
      | cons typeName typeNames =>
          cases values with
          | nil => exact .pure _
          | cons value values =>
              apply (resolve typeName).bind
              intro ty
              have hslot : Composed call true
                  (Traced.introduce name (parameterSlot function index value ty) true) :=
                .introduce rfl rfl nofun nofun
              exact hslot.bind fun _ => ih _ _ _

/-- What a call does inside the activation of a function of the program. -/
theorem body (f : Function) (arguments : List Value) :
    Composed call true (do
      Traced.parameters f.id 0 f.parameterNames f.parameterTypes arguments
      Traced.block policy call limit f.body) :=
  (parameters _ _ _ _ _).bind fun _ => block policy limit f.body

end Composed

end Scriptlet.Traced
