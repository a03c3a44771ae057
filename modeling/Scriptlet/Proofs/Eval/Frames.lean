import Scriptlet.Proofs.Eval.Outline
import Scriptlet.Proofs.Scope.Links
import Scriptlet.Proofs.Typing.Outline

/-! # Frames after evaluation and after checking

Every frame that is entered is left again, on whatever way evaluation or checking ends. So the
frames stand afterwards as they stood before, for any program and from any state, and only a local
declaration that succeeds leaves a name behind.
-/

namespace Scriptlet

/-- The name that a statement leaves in the current frame when it succeeds. -/
def Stmt.declaredNames : Stmt → List String
  | .declaration _ name _ _ => [name]
  | _ => []

/-- However the step ends, the fact holds of the state that it leaves. -/
abbrev Leaves {ε τ α : Type} (step : EStateM ε τ α) (start : τ) (fact : τ → Prop) : Prop :=
  Ensures step start (fun _ finish => fact finish) fun _ finish => fact finish

variable {σ α : Type}

/-- Machines of the same outline have the same names in the same frames. -/
theorem Machine.extends_of_outline_eq {machine finish : Machine σ}
    (h : finish.outline = machine.outline) : machine.scopes.Extends [] finish.scopes := by
  have hextends : machine.outline.Extends [] finish.outline := by
    rw [h]
    exact .refl _
  exact hextends.of_mapVars

namespace Eval

theorem Steady.leaves {step : Eval σ α} (h : Steady step) (machine : Machine σ) :
    Leaves step machine fun finish => machine.scopes.Extends [] finish.scopes :=
  (h machine).weaken (fun _ _ => Machine.extends_of_outline_eq)
    fun _ _ => Machine.extends_of_outline_eq

theorem Growing.leaves {step : Eval σ α} (h : Growing step) (machine : Machine σ) :
    Leaves step machine fun finish => ∃ added, machine.scopes.Extends added finish.scopes := by
  have hextends {finish : Machine σ} (hgrows : machine.outline.Grows finish.outline) :
      ∃ added, machine.scopes.Extends added finish.scopes := by
    obtain ⟨added, hadded⟩ := hgrows.exists_extends
    exact ⟨added, hadded.of_mapVars⟩
  exact (h machine).weaken (fun _ _ => hextends) fun _ _ => hextends

theorem Declares.extends {statement : Stmt} {machine finish : Machine σ}
    (h : Declares statement machine.outline finish.outline) :
    machine.scopes.Extends statement.declaredNames finish.scopes := by
  cases statement with
  | declaration id name typeName initial =>
      obtain ⟨slot, _, _, hdeclare⟩ := h
      exact (Scopes.extends_of_declareVariable hdeclare).of_mapVars
  | _ => exact Machine.extends_of_outline_eq h

end Eval

namespace Check

theorem Growing.leaves {check : Check α} (h : Growing check) (typing : Typing) :
    Leaves check typing fun finish => ∃ added, typing.scopes.Extends added finish.scopes :=
  (h typing).weaken (fun _ _ hgrows => hgrows.exists_extends) fun _ _ hgrows =>
    hgrows.exists_extends

theorem Declares.extends {statement : Stmt} {before after : StaticScopes}
    (h : Declares statement before after) : before.Extends statement.declaredNames after := by
  cases statement with
  | declaration id name typeName initial =>
      obtain ⟨info, hdeclare⟩ := h
      exact Scopes.extends_of_declareVariable hdeclare
  | _ => exact h ▸ .refl _

end Check

/-- However evaluation ends, the frames stand as before, with their functions and with all the names
they had. Expressions and calls add no name, a statement adds to the current frame the name that it
declares, if it succeeds, and a block adds names to the current frame only. Checking does the same
to the scopes of a typing, where expressions leave everything as it is. -/
theorem frames_kept (policy : Division) (limit : Nat) (machine : Machine σ) (typing : Typing) :
    (∀ e, Leaves (Eval.expression policy (Eval.call policy limit) e) machine
      fun finish => machine.scopes.Extends [] finish.scopes) ∧
    (∀ name arguments, Leaves (Eval.call policy limit name arguments) machine
      fun finish => machine.scopes.Extends [] finish.scopes) ∧
    (∀ s, Ensures (Eval.statement policy (Eval.call policy limit) limit s) machine
      (fun _ finish => machine.scopes.Extends s.declaredNames finish.scopes)
      fun _ finish => machine.scopes.Extends [] finish.scopes) ∧
    (∀ statements, Leaves (Eval.block policy (Eval.call policy limit) limit statements) machine
      fun finish => ∃ added, machine.scopes.Extends added finish.scopes) ∧
    (∀ e, Leaves (Check.expression e) typing fun finish => finish.scopes = typing.scopes) ∧
    (∀ s, Ensures (Check.statement s) typing
      (fun _ finish => typing.scopes.Extends s.declaredNames finish.scopes)
      fun _ finish => typing.scopes.Extends [] finish.scopes) ∧
    (∀ statements, Leaves (Check.block statements) typing
      fun finish => ∃ added, typing.scopes.Extends added finish.scopes) := by
  have hcall := Eval.call_steady (σ := σ) policy limit
  refine ⟨?_, ?_, ?_, ?_, ?_, ?_, ?_⟩
  · intro e
    exact (Eval.expression_steady policy hcall e).leaves machine
  · intro name arguments
    exact (hcall name arguments).leaves machine
  · intro s
    exact (Eval.statement_outline policy limit hcall s machine).weaken (fun _ _ h => h.extends)
      fun _ _ => Machine.extends_of_outline_eq
  · intro statements
    exact (Eval.block_growing policy limit hcall statements).leaves machine
  · intro e
    exact Check.expression_steady e typing
  · intro s
    exact (Check.statement_outline s typing).weaken (fun _ _ h => h.extends)
      fun _ _ h => h ▸ .refl _
  · intro statements
    exact (Check.block_growing statements).leaves typing

/-! ## Marks -/

section

variable {V W F : Type} {view : V → W} {before after : Scopes V F}

/-- Scopes that have grown since a block was entered are left by the mark of the entry. -/
theorem Scopes.exit_linked_of_enter
    (h : (before.mapVars view).enter.Grows (after.mapVars view)) :
    after.linked.exit before.mark = after.leaveBlock.linked := by
  have hmark : after.leaveBlock.mark = before.mark := by
    rw [← mark_mapVars view, mapVars_leaveBlock, h.leaveBlock_eq, mark_mapVars]
  rw [← hmark]
  exact after.above_leaveBlock.exit_linked

/-- Scopes that have grown since a function was entered are left by the mark of the entry. -/
theorem Scopes.exit_linked_of_enterFunction
    (h : (before.mapVars view).enterFunction.Grows (after.mapVars view)) :
    after.linked.exit before.mark = after.leaveFunction.linked := by
  have hmark : after.leaveFunction.mark = before.mark := by
    rw [← mark_mapVars view, mapVars_leaveFunction, h.leaveFunction_eq, mark_mapVars]
  rw [← hmark]
  exact after.above_leaveFunction.exit_linked

end

/-- Evaluation leaves each frame as by the mark of its entry: to go back to the waiting frames of
the machine is what the mark, made before the block or the function was entered, does to the linked
frames. -/
theorem frames_left_by_mark (policy : Division) (limit : Nat) (machine : Machine σ) :
    (∀ statements, Leaves (Eval.block policy (Eval.call policy limit) limit statements)
      machine.enter fun inner =>
        inner.scopes.linked.exit machine.scopes.mark = inner.scopes.leaveBlock.linked) ∧
    ∀ (f : Function) (arguments : List Value), Leaves (do
        Eval.parameters f.id 0 f.parameterNames f.parameterTypes arguments
        Eval.block policy (Eval.call policy limit) limit f.body)
      machine.enterFunction fun inner =>
        inner.scopes.linked.exit machine.scopes.mark = inner.scopes.leaveFunction.linked := by
  have hblock (statements : List Stmt) : Eval.Growing (σ := σ) _ :=
    Eval.block_growing policy limit (Eval.call_steady policy limit) statements
  constructor
  · intro statements
    exact (hblock statements machine.enter).weaken (fun _ _ => Scopes.exit_linked_of_enter)
      fun _ _ => Scopes.exit_linked_of_enter
  · intro f arguments
    have hbody := (Eval.parameters_growing f.id 0 f.parameterNames f.parameterTypes arguments).bind
      fun _ => hblock f.body
    exact (hbody machine.enterFunction).weaken (fun _ _ => Scopes.exit_linked_of_enterFunction)
      fun _ _ => Scopes.exit_linked_of_enterFunction

end Scriptlet
