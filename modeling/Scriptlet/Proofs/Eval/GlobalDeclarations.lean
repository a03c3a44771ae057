import Scriptlet.Proofs.Eval.History

/-! # How the slots of globals are made

Only the declaration of a global makes a slot that says it is that global's. The list that a global
begins with is one of the program's own: right before the slot is made, so is the list.
-/

namespace Scriptlet

variable {σ : Type}

/-- Whatever the changes make as the slot of a global is made by the declaration of one of the given
globals, and right after the list that it holds if it holds one. -/
def Machine.DeclaresGlobals (globals : List Global) (machine : Machine σ)
    (changes : List (Change σ)) : Prop :=
  ∀ before change name slot id, before ++ [change] <+: changes →
    change.declared? = some (name, slot) → slot.origin = some (.global id) →
    ∃ g ∈ globals, g.id = id ∧ g.name = name ∧ slot.isList = g.isList ∧
      Ty.ofName g.typeName = .ok slot.ty ∧
      (g.isList = true → ∃ earlier elements, before = earlier ++ [.createList elements] ∧
        slot.value = .list (machine.after earlier).heap.fresh)

namespace Machine.DeclaresGlobals

variable {globals : List Global} {machine : Machine σ}

theorem nil : machine.DeclaresGlobals globals [] := by
  intro before change name slot id hbefore
  simp at hbefore

theorem append {first second : List (Change σ)} (hfirst : machine.DeclaresGlobals globals first)
    (hsecond : (machine.after first).DeclaresGlobals globals second) :
    machine.DeclaresGlobals globals (first ++ second) := by
  intro before change name slot id hbefore hslot horigin
  rcases List.prefix_or_prefix_of_prefix hbefore (List.prefix_append first second) with
    hinside | ⟨more, hmore⟩
  · exact hfirst before change name slot id hinside hslot horigin
  rcases List.eq_nil_or_concat more with rfl | ⟨part, last, rfl⟩
  · rw [List.append_nil] at hmore
    exact hfirst before change name slot id (hmore ▸ List.prefix_rfl) hslot horigin
  -- The slot is made among the later changes, so what comes right before it is there, too.
  rw [List.concat_eq_append, ← List.append_assoc] at hmore
  obtain ⟨rfl, _⟩ := List.append_inj' hmore rfl
  rw [List.append_assoc, List.prefix_append_right_inj] at hbefore
  obtain ⟨g, hg, hid, hname, hlist, hty, hpreceded⟩ :=
    hsecond part change name slot id hbefore hslot horigin
  refine ⟨g, hg, hid, hname, hlist, hty, fun hislist => ?_⟩
  obtain ⟨earlier, elements, rfl, hvalue⟩ := hpreceded hislist
  refine ⟨first ++ earlier, elements, (List.append_assoc _ _ _).symm, ?_⟩
  rw [after_append]
  exact hvalue

/-- A change that makes no slot of a global. -/
theorem singleton {change : Change σ}
    (h : ∀ name slot id, change.declared? = some (name, slot) →
      slot.origin ≠ some (.global id)) :
    machine.DeclaresGlobals globals [change] := by
  intro before other name slot id hbefore hslot horigin
  rw [← List.nil_append [change], List.prefix_concat_iff] at hbefore
  rcases hbefore with heq | hnil
  · obtain ⟨_, hother⟩ := List.append_inj' heq rfl
    cases hother
    exact absurd horigin (h name slot id hslot)
  · simp at hnil

theorem singleton_of_none {change : Change σ} (h : change.declared? = none) :
    machine.DeclaresGlobals globals [change] := by
  apply singleton
  intro name slot id hslot
  cases h.symm.trans hslot

theorem within {enter leave : Change σ} {changes : List (Change σ)}
    (henter : enter.declared? = none) (hleave : leave.declared? = none)
    (h : (enter.apply machine).DeclaresGlobals globals changes) :
    machine.DeclaresGlobals globals (enter :: changes ++ [leave]) := by
  have hfirst : machine.DeclaresGlobals globals [enter] := singleton_of_none henter
  exact hfirst.append (h.append (singleton_of_none hleave))

end Machine.DeclaresGlobals

namespace Traced

theorem regular_declaresGlobals (globals : List Global) :
    Regular (Machine.DeclaresGlobals (σ := σ) globals) where
  nil _ := .nil
  append := .append
  ordinary h := by
    cases h with
    | declare _ _ _ horigin _ =>
        apply Machine.DeclaresGlobals.singleton
        intro name slot id hslot
        cases hslot
        exact horigin id
    | store _ _ _ => exact .singleton_of_none rfl
    | createList _ => exact .singleton_of_none rfl
    | storeElement _ _ _ _ => exact .singleton_of_none rfl
  inBlock h := .within rfl rfl h

section

variable (globals : List Global) (policy : Division) (limit : Nat)

theorem call_declaresGlobals (name : String) (arguments : List Value) (machine : Machine σ) :
    machine.DeclaresGlobals globals (call policy limit name arguments machine).1 := by
  apply (regular_declaresGlobals globals).call
  · intro machine name run arguments _
    exact .singleton_of_none rfl
  · intro machine changes h
    exact .within rfl rfl h

/-- The last thing that a list literal does is to make the list. -/
theorem exists_createList {initial : Option Expr} (hlist : initial.any Expr.isList = true)
    {machine : Machine σ} {value : Value}
    (h : (initialValue policy limit initial machine).2 = .ok value) :
    ∃ earlier elements,
      (initialValue policy limit initial machine).1 = earlier ++ [.createList elements] ∧
      value = .list (machine.after earlier).heap.fresh := by
  rcases initial with _ | e
  · cases hlist
  cases e with
  | list id elements =>
      simp only [initialValue, expression] at h ⊢
      rcases hvalues : expressions policy (call policy limit) elements machine with
        ⟨changes, reason | values⟩
      · simp only [bind, hvalues] at h
        cases h
      · simp only [bind, hvalues] at h ⊢
        exact ⟨changes, values, rfl, (Except.ok.inj h).symm⟩
  | _ => cases hlist

theorem global_declaresGlobals {g : Global} (hg : g ∈ globals) (machine : Machine σ) :
    machine.DeclaresGlobals globals (global policy limit g machine).1 := by
  have hinitial := (regular_declaresGlobals globals).initialValue policy limit
    (call_declaresGlobals globals policy limit) g.initial machine
  rcases global_changes policy limit g machine with
    hnone | hsame | ⟨value, ty, hvalue, hty, _, hmore⟩
  · rw [hnone]
    exact .nil
  · rw [hsame]
    exact hinitial
  rw [hmore]
  intro before change name slot id hbefore hslot horigin
  rcases List.prefix_concat_iff.mp hbefore with heq | hinside
  · obtain ⟨rfl, hdeclare⟩ := List.append_inj' heq rfl
    cases hdeclare
    cases hslot
    cases horigin
    exact ⟨g, hg, rfl, rfl, rfl, hty, fun hlist => exists_createList policy limit hlist hvalue⟩
  · exact hinitial before change name slot id hinside hslot horigin

end

end Traced

/-- Whatever is made in a run as the slot of a global is made by the declaration of one of the
program's globals. -/
theorem Program.Passes.declaresGlobals {p : Program} {builtins : List (Builtin σ)}
    {policy : Division} {start : Machine σ} {history : List (Change σ)}
    (h : p.Passes builtins policy start history) : start.DeclaresGlobals p.globals history := by
  obtain ⟨limit, hprefix⟩ := h.changes
  have hblocks := (Scopes.HostOnly.of_runScopes h.scopes).blocks
  have hall : start.DeclaresGlobals p.globals (Traced.program policy limit p start).1 := by
    apply (Traced.regular_declaresGlobals p.globals).program policy limit _ _
      (Traced.call_declaresGlobals p.globals policy limit) hblocks
    · intro g hg machine
      exact Traced.global_declaresGlobals p.globals policy limit hg machine
    · intro f machine _
      exact .singleton_of_none rfl
  intro before change name slot id hbefore
  exact hall before change name slot id (hbefore.trans hprefix)

end Scriptlet
