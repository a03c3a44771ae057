import Mathlib.Data.List.Nodup
import Scriptlet.Proofs.Eval.Moments
import Scriptlet.Proofs.Eval.Names
import Scriptlet.Proofs.Scope.FunctionOrder

/-! # Resolution of names

The declaration that the typing finds for a name is the one that a run finds, each time the name is
used: blocks, rounds of loops, switches and nested calls change the frames of a run, but not what a
name refers to.
-/

namespace Scriptlet

variable {σ : Type}

section

variable (policy : Division)

/-- The task that the moment begins looks up the variable which the node names, in the machine that
its operands left. -/
inductive Moment.LooksUp : Moment σ → NodeId → String → Machine σ → Prop
  | access {limit : Nat} {machine : Machine σ} {id : NodeId} {name : String} :
      LooksUp ⟨limit, .expression (.access id name), machine⟩ id name machine
  | element {limit : Nat} {machine middle : Machine σ} {id : NodeId} {name : String} {index : Expr}
      {i : Value} :
      Eval.value policy limit index machine = .ok i middle →
        LooksUp ⟨limit, .expression (.element id name index), machine⟩ id name middle
  | assigned {limit : Nat} {machine middle : Machine σ} {id : NodeId} {name : String}
      {value : Expr} {v : Value} :
      Eval.value policy limit value machine = .ok v middle →
        LooksUp ⟨limit, .statement (.assignment (.access id name) value), machine⟩ id name middle
  | assignedElement {limit : Nat} {machine middle finish : Machine σ} {id : NodeId} {name : String}
      {index value : Expr} {i v : Value} :
      Eval.value policy limit index machine = .ok i middle →
        Eval.value policy limit value middle = .ok v finish →
        LooksUp ⟨limit, .statement (.assignment (.element id name index) value), machine⟩ id name
          finish

/-- The task that the moment begins calls the function which the node names, in the machine that
its arguments left. -/
inductive Moment.Calls : Moment σ → NodeId → Signature → Machine σ → Prop
  | call {limit : Nat} {machine middle : Machine σ} {id : NodeId} {name : String}
      {arguments : List Expr} {values : List Value} :
      Eval.values policy limit arguments machine = .ok values middle →
        Calls ⟨limit, .expression (.call id name arguments), machine⟩ id ⟨name, values.length⟩
          middle

end

/-- What can be called is what the origin names: a function of the program, or one of its host. -/
inductive Callable.Named (p : Program) (builtins : List (Builtin σ)) :
    FunctionOrigin → Callable σ → Prop
  | user {f : Function} : f ∈ p.functions → Named p builtins (.user f.id) (.user f)
  | native {builtin : Builtin σ} :
      builtin ∈ builtins → Named p builtins (.builtin builtin.signature) (.native builtin.run)

/-! ## Origins name one function -/

/-- Functions of the host that can be declared together have different signatures. -/
theorem Builtin.nodup_of_staticScopes {builtins : List (Builtin σ)} {scopes : StaticScopes}
    (h : staticScopes builtins = .ok scopes) : (builtins.map signature).Nodup :=
  (Scopes.nodup_of_chain rfl (foldlM_eq_ok.mp h)).1

/-- The nodes of a checked program tell its functions apart, and signatures tell those of its host
apart. -/
theorem Callable.Named.unique {p : Program} {builtins : List (Builtin σ)} {notes : Annotations}
    (hchecked : Checked builtins p notes) {origin : FunctionOrigin}
    {first second : Callable σ} (hfirst : first.Named p builtins origin)
    (hsecond : second.Named p builtins origin) : first = second := by
  cases hfirst with
  | @user f hf =>
      generalize horigin : FunctionOrigin.user f.id = origin at hsecond
      cases hsecond with
      | @user g hg =>
          have hnode {f : Function} (hf : f ∈ p.functions) : Node.function f ∈ p.nodes :=
            Program.mem_nodes_of_function hf (List.mem_append_right _ List.mem_cons_self)
          have hsame := List.inj_on_of_nodup_map hchecked.distinct (hnode hf) (hnode hg)
            (FunctionOrigin.user.inj horigin)
          rw [Node.function.inj hsame]
      | native _ => cases horigin
  | @native builtin hbuiltin =>
      generalize horigin : FunctionOrigin.builtin builtin.signature = origin at hsecond
      cases hsecond with
      | user _ => cases horigin
      | native hother =>
          obtain ⟨start, _, _, hstart, _⟩ := Program.typed_of_check hchecked.checked
            hchecked.distinct hchecked.parameters
          have hsame := List.inj_on_of_nodup_map (Builtin.nodup_of_staticScopes hstart) hbuiltin
            hother (FunctionOrigin.builtin.inj horigin)
          rw [hsame]

/-! ## What a moment finds -/

namespace Discipline.InOrder

variable {notes : Annotations} {policy : Division} {builtins : List (Builtin σ)}
variable {D : Discipline σ notes policy builtins} {moment : Moment σ} {machine : Machine σ}

/-- A variable that is looked up has a slot, which shows what the typing knows of it. -/
theorem exists_slot {id : NodeId} {name : String} (h : D.InOrder moment)
    (hlooks : moment.LooksUp policy id name machine) :
    ∃ info slot, machine.scopes.findVariable? name = some slot ∧ D.shows info slot.outline ∧
      notes.variableOf? id = some info.origin := by
  cases hlooks with
  | access =>
      cases h with
      | expression htyped _ hready _ =>
          cases htyped with
          | access hfind hvariable _ =>
              obtain ⟨slot, hslot, hshows⟩ := hready.exists_slot hfind
              exact ⟨_, slot, hslot, hshows, hvariable⟩
  | element hi =>
      cases h with
      | expression htyped hadmits hready hholds =>
          simp only [Expr.nodes, List.forall_mem_append] at hadmits
          cases htyped with
          | element hfind hindex _ hvariable _ =>
              obtain ⟨_, _, hready, _, _⟩ := hready.after_value hindex hadmits.1 hholds hi
              obtain ⟨slot, hslot, hshows⟩ := hready.exists_slot hfind
              exact ⟨_, slot, hslot, hshows, hvariable⟩
  | assigned hv =>
      cases h with
      | statement htyped hadmits hinside hholds =>
          simp only [Stmt.nodes, List.forall_mem_append] at hadmits
          cases htyped with
          | assignment _ hreceiver hvalue _ =>
              obtain ⟨_, _, hready, _, _⟩ :=
                hinside.ready.after_value hvalue hadmits.2 hholds hv
              cases hreceiver with
              | access hfind hvariable _ =>
                  obtain ⟨slot, hslot, hshows⟩ := hready.exists_slot hfind
                  exact ⟨_, slot, hslot, hshows, hvariable⟩
  | assignedElement hi hv =>
      cases h with
      | statement htyped hadmits hinside hholds =>
          simp only [Stmt.nodes, Expr.nodes, List.forall_mem_append] at hadmits
          cases htyped with
          | assignment _ hreceiver hvalue _ =>
              cases hreceiver with
              | element hfind hindex _ hvariable _ =>
                  obtain ⟨_, _, hready, hholds, _⟩ :=
                    hinside.ready.after_value hindex hadmits.1.1 hholds hi
                  obtain ⟨_, _, hready, _, _⟩ := hready.after_value hvalue hadmits.2 hholds hv
                  obtain ⟨slot, hslot, hshows⟩ := hready.exists_slot hfind
                  exact ⟨_, slot, hslot, hshows, hvariable⟩

/-- A function that is called is there, and the typing knows it. -/
theorem exists_callable {id : NodeId} {signature : Signature} (h : D.InOrder moment)
    (hcalls : moment.Calls policy id signature machine) :
    ∃ info callable, machine.scopes.findFunction? signature = some callable ∧
      callable.Described builtins signature info ∧ notes.functionOf? id = some info.origin ∧
      ∀ f, callable = .user f → D.admits (.function f) := by
  cases hcalls with
  | call hvalues =>
      cases h with
      | expression htyped hadmits hready hholds =>
          simp only [Expr.nodes, List.forall_mem_append] at hadmits
          cases htyped with
          | call hfind hpassed hfunction _ =>
              obtain ⟨_, _, hready, _, hfits⟩ :=
                hready.after_values hpassed hadmits.1 hholds hvalues
              have hlength := hfits.length_eq.symm.trans hpassed.length_eq.symm
              obtain ⟨callable, hcallable, hdescribed⟩ :=
                hready.exists_callable (hlength ▸ hfind)
              refine ⟨_, callable, hcallable, hdescribed, hfunction, fun f hf => ?_⟩
              exact (hready.body (hf ▸ hcallable)).2 _
                (List.mem_append_right _ List.mem_cons_self)

end Discipline.InOrder

/-- Each time a run of a checked program looks up a variable, the slot that it finds comes from the
declaration that the annotations name, and each time it calls a function, that is the one function
that the annotations name. -/
theorem resolved_of_reaches (text : String) (builtins : List (Builtin σ)) (policy : Division)
    (limit : Nat) (host : σ) (p : Program) (notes : Annotations)
    (hcheck : check text builtins = .ok (p, notes)) (moment : Moment σ)
    (hreaches : p.Reaches policy builtins limit host moment) :
    (∀ id name machine, moment.LooksUp policy id name machine →
      ∃ slot origin, machine.scopes.findVariable? name = some slot ∧ slot.origin = some origin ∧
        notes.variableOf? id = some origin) ∧
    (∀ id signature machine, moment.Calls policy id signature machine →
      ∃ callable origin, machine.scopes.findFunction? signature = some callable ∧
        notes.functionOf? id = some origin ∧
        ∀ other : Callable σ, other.Named p builtins origin ↔ other = callable) := by
  have hchecked := checked_of_check hcheck
  have hstore : (Discipline.names p notes policy builtins).store () .empty host := trivial
  have hinOrder := Discipline.inOrder_of_reaches hchecked (fun _ hnode => hnode) hstore hreaches
  refine ⟨fun id name machine hlooks => ?_, fun id signature machine hcalls => ?_⟩
  · obtain ⟨info, slot, hslot, hshows, hvariable⟩ := hinOrder.exists_slot hlooks
    exact ⟨slot, info.origin, hslot, hshows, hvariable⟩
  · obtain ⟨info, callable, hcallable, hdescribed, hfunction, hadmits⟩ :=
      hinOrder.exists_callable hcalls
    have hnamed : callable.Named p builtins info.origin := by
      cases hdescribed with
      | @user f _ hinfo _ =>
          rw [hinfo.origin]
          exact .user (Program.mem_functions_of_mem_nodes (hadmits f rfl))
      | native hbuiltin => exact .native hbuiltin
    refine ⟨callable, info.origin, hcallable, hfunction, fun other => ⟨fun hother => ?_, ?_⟩⟩
    · exact hother.unique hchecked hnamed
    · rintro rfl
      exact hnamed

/-- A parameter that hides a global is found where it is read, and the annotations name it. -/
theorem resolved_of_reaches_parameter :
    ∃ (text : String) (p : Program) (notes : Annotations) (machine : Machine Unit),
      check text ([] : List (Builtin Unit)) = .ok (p, notes) ∧
      p.Reaches .unscaled [] 2 () ⟨0, .expression (.access 2 "n"), machine⟩ ∧
      ∃ slot, machine.scopes.findVariable? "n" = some slot ∧
        slot.origin = some (.parameter 3 0) ∧ notes.variableOf? 2 = some (.parameter 3 0) := by
  let p : Program :=
    ⟨[⟨1, "n", "Integer", true, some (.literal 0 (.integer 1))⟩],
      [⟨3, "f", ["n"], ["Integer"], some "Integer", [.ret (.access 2 "n")]⟩,
        ⟨6, "main", [], [], some "Integer",
          [.ret (.call 5 "f" [.literal 4 (.integer 2)])]⟩]⟩
  let notes : Annotations :=
    ⟨[(5, .integer), (4, .integer), (2, .integer), (0, .integer)],
      [(6, .integer), (3, .integer), (1, .integer)], [(2, .parameter 3 0)], [(5, .user 3)]⟩
  have hcheck : check "VAR n: Integer = 1; FUN f(n: Integer): Integer DO RETURN n; END
      FUN main(): Integer DO RETURN f(2); END" ([] : List (Builtin Unit)) = .ok (p, notes) := by
    decide +kernel
  have hmain : p.Reaches .unscaled [] 2 () ⟨2, .call "main" [], _⟩ := .main rfl rfl rfl
  have hcall := ((hmain.step (.body rfl rfl)).step .first).step .returned
  have haccess := (((hcall.step (.call rfl)).step (.body rfl rfl)).step .first).step .returned
  obtain ⟨slot, origin, hslot, horigin, hvariable⟩ :=
    (resolved_of_reaches _ _ _ _ _ _ _ hcheck _ haccess).1 _ _ _ .access
  cases hvariable
  exact ⟨_, p, notes, _, hcheck, haccess, slot, hslot, horigin, rfl⟩

end Scriptlet
