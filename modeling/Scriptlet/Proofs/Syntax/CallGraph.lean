import Mathlib.Data.Finset.Card
import Mathlib.Logic.Relation
import Scriptlet.Proofs.Syntax.Nodes
import Scriptlet.Scope.Basic

/-! # The call graph of a program

Which functions of a program call which, as far as the text tells. A call names a function by its
name and its number of arguments. Where functions do not call each other in a circle, each has a
height, the number of functions that its calls can lead to, which goes down along every call.
-/

namespace Scriptlet

/-! ## Loops -/

mutual

/-- Whether no loop is in a statement. -/
def Stmt.isLoopFree : Stmt → Bool
  | .expression _ | .declaration _ _ _ _ | .assignment _ _ | .ret _ => true
  | .branch _ thenBlock elseBlock =>
      Stmt.isBlockLoopFree thenBlock && Stmt.isBlockLoopFree elseBlock
  | .switch _ arms => Stmt.areCasesLoopFree arms
  | .loop _ _ => false

def Stmt.isBlockLoopFree : List Stmt → Bool
  | [] => true
  | first :: rest => first.isLoopFree && Stmt.isBlockLoopFree rest

def Stmt.areCasesLoopFree : List Case → Bool
  | [] => true
  | .mk _ body :: rest => Stmt.isBlockLoopFree body && Stmt.areCasesLoopFree rest

end

/-- Whether no loop is in a program. Statements are in its functions only. -/
def Program.isLoopFree (p : Program) : Bool :=
  p.functions.all fun f => Stmt.isBlockLoopFree f.body

/-! ## Calls -/

/-- What a node calls, if it is a call. -/
def Node.callee? : Node → Option Signature
  | expression (.call _ name arguments) => some ⟨name, arguments.length⟩
  | _ => none

/-- The node calls nothing but what is allowed. -/
def Node.CallsOnly (allowed : Signature → Prop) (node : Node) : Prop :=
  ∀ signature ∈ node.callee?, allowed signature

/-- What the calls in a function name, in the order of the text. -/
def Function.callees (f : Function) : List Signature :=
  f.nodes.filterMap Node.callee?

namespace Program

/-- A function of the program has a call in it that names another, or itself. -/
def Calls (p : Program) (f g : Function) : Prop :=
  f ∈ p.functions ∧ g ∈ p.functions ∧ ⟨g.name, g.arity⟩ ∈ f.callees

/-- No function leads to itself by calls. -/
def Acyclic (p : Program) : Prop :=
  ∀ f, ¬ Relation.TransGen p.Calls f f

open Classical in
/-- The number of functions that the calls in a function lead to. -/
noncomputable def height (p : Program) (f : Function) : Nat :=
  (p.functions.toFinset.filter (Relation.TransGen p.Calls f)).card

variable {p : Program} {f g : Function}

theorem Acyclic.height_lt (hacyclic : p.Acyclic) (hcall : p.Calls f g) :
    p.height g < p.height f := by
  classical
  -- What `g` leads to `f` leads to as well, and `f` leads to `g` besides.
  have hsubset : p.functions.toFinset.filter (Relation.TransGen p.Calls g) ⊆
      p.functions.toFinset.filter (Relation.TransGen p.Calls f) := by
    intro other hother
    rw [Finset.mem_filter] at hother ⊢
    exact ⟨hother.1, .head hcall hother.2⟩
  apply Finset.card_lt_card
  rw [Finset.ssubset_iff_of_subset hsubset]
  refine ⟨g, ?_, ?_⟩
  · rw [Finset.mem_filter, List.mem_toFinset]
    exact ⟨hcall.2.1, .single hcall⟩
  · intro hmem
    exact hacyclic g (Finset.mem_filter.mp hmem).2

theorem Acyclic.height_lt_length (hacyclic : p.Acyclic) (hf : f ∈ p.functions) :
    p.height f < p.functions.length := by
  classical
  calc p.height f
      < p.functions.toFinset.card := by
        apply Finset.card_lt_card
        rw [Finset.filter_ssubset]
        exact ⟨f, List.mem_toFinset.mpr hf, hacyclic f⟩
    _ ≤ p.functions.length := List.toFinset_card_le _

/-- A program is acyclic if and only if its functions can be ranked so that ranks go down along
every call. -/
theorem acyclic_iff_exists_rank :
    p.Acyclic ↔ ∃ rank : Function → Nat, ∀ f g, p.Calls f g → rank g < rank f := by
  constructor
  · intro hacyclic
    exact ⟨p.height, fun f g hcall => hacyclic.height_lt hcall⟩
  · intro ⟨rank, hrank⟩ f hcycle
    have hlower (g : Function) (hlead : Relation.TransGen p.Calls f g) : rank g < rank f := by
      induction hlead with
      | single hcall => exact hrank _ _ hcall
      | tail _ hcall ih => exact (hrank _ _ hcall).trans ih
    exact Nat.lt_irrefl _ (hlower f hcycle)

end Program

end Scriptlet
