import Scriptlet.Proofs.Scope.Outline

/-! # What holds of all variables

A property of all variables in use, those of waiting activations included. It is kept by all that
happens to scopes as long as every declared and every changed variable has it.
-/

namespace Scriptlet

variable {V F : Type} {P P' : V → Prop}

namespace Table

variable {κ ν : Type} [DecidableEq κ]

theorem mem_of_value? {table : Table κ ν} {key : κ} {value : ν}
    (h : table.value? key = some value) : (key, value) ∈ table := by
  induction table with
  | nil => cases h
  | cons entry rest ih =>
      obtain ⟨k, v⟩ := entry
      by_cases hkey : k = key
      · simp only [value?, hkey, if_true, Option.some.injEq] at h
        simp [hkey, h]
      · simp only [value?, hkey, if_false] at h
        exact List.mem_cons_of_mem _ (ih h)

/-- An entry after a change is an old one or the changed one. -/
theorem mem_modify {table : Table κ ν} {key : κ} {change : ν → ν} {entry : κ × ν}
    (h : entry ∈ table.modify key change) :
    entry ∈ table ∨ ∃ value, table.value? key = some value ∧ entry.2 = change value := by
  induction table with
  | nil => cases h
  | cons first rest ih =>
      obtain ⟨k, v⟩ := first
      by_cases hkey : k = key
      · rw [modify, if_pos hkey] at h
        rcases List.mem_cons.mp h with rfl | hrest
        · exact .inr ⟨v, by simp [value?, hkey], rfl⟩
        · exact .inl (List.mem_cons_of_mem _ hrest)
      · rw [modify, if_neg hkey] at h
        rcases List.mem_cons.mp h with rfl | hrest
        · exact .inl List.mem_cons_self
        · rcases ih hrest with hold | ⟨value, hvalue, hchange⟩
          · exact .inl (List.mem_cons_of_mem _ hold)
          · exact .inr ⟨value, by simpa [value?, hkey] using hvalue, hchange⟩

end Table

/-- The property holds of all variables of a block. -/
def Frame.All (P : V → Prop) (frame : Frame V F) : Prop :=
  ∀ entry ∈ frame.vars, P entry.2

theorem Frame.All.empty : Frame.All P (.empty : Frame V F) := by
  intro entry hentry
  cases hentry

theorem Frame.All.modify {frame : Frame V F} {name : String} {change : V → V} (h : frame.All P)
    (hchange : ∀ value, frame.vars.value? name = some value → P (change value)) :
    Frame.All P { frame with vars := frame.vars.modify name change } := by
  intro entry hentry
  rcases Table.mem_modify hentry with hmem | ⟨value, hvalue, heq⟩
  · exact h entry hmem
  · exact heq ▸ hchange value hvalue

namespace Scopes

theorem all_of_modifyIn {name : String} {change : V → V} {frames frames' : List (Frame V F)}
    (hmodify : modifyIn name change frames = some frames') (h : ∀ frame ∈ frames, frame.All P)
    (hchange : ∀ value, (frames.findSome? fun frame => frame.vars.value? name) = some value →
      P (change value)) : ∀ frame ∈ frames', frame.All P := by
  induction frames generalizing frames' with
  | nil => cases hmodify
  | cons first rest ih =>
      obtain ⟨hfirst, hrest⟩ := List.forall_mem_cons.mp h
      cases hvalue : first.vars.value? name with
      | some value =>
          simp only [modifyIn, Table.binds, hvalue, Option.isSome_some, if_true,
            Option.some.injEq] at hmodify
          subst hmodify
          refine List.forall_mem_cons.mpr ⟨hfirst.modify fun found hfound => ?_, hrest⟩
          exact hchange found (by simp [hfound])
      | none =>
          simp only [modifyIn, Table.binds, hvalue, Option.isSome_none, Bool.false_eq_true,
            if_false, Option.map_eq_some_iff] at hmodify
          obtain ⟨rest', hrest', rfl⟩ := hmodify
          refine List.forall_mem_cons.mpr ⟨hfirst, ih hrest' hrest fun found hfound => ?_⟩
          exact hchange found (by simp [hvalue, hfound])

theorem findSome?_of_modifyIn_eq_none {name : String} {change : V → V}
    {frames : List (Frame V F)} (h : modifyIn name change frames = none) :
    (frames.findSome? fun frame => frame.vars.value? name) = none := by
  induction frames with
  | nil => rfl
  | cons first rest ih =>
      cases hvalue : first.vars.value? name with
      | some value => simp [modifyIn, Table.binds, hvalue] at h
      | none =>
          simp only [modifyIn, Table.binds, hvalue, Option.isSome_none, Bool.false_eq_true,
            if_false, Option.map_eq_none_iff] at h
          simp [hvalue, ih h]

/-- The property holds of all variables in use. -/
structure All (P : V → Prop) (scopes : Scopes V F) : Prop where
  blocks : ∀ frame ∈ scopes.blocks, frame.All P
  callers : ∀ blocks ∈ scopes.callers, ∀ frame ∈ blocks, Frame.All P frame
  globals : scopes.globals.All P

namespace All

variable {scopes scopes' : Scopes V F} {name : String}

theorem empty : All P (Scopes.empty : Scopes V F) where
  blocks _ hframe := absurd hframe List.not_mem_nil
  callers _ hblocks := absurd hblocks List.not_mem_nil
  globals := Frame.All.empty

theorem imp (h : All P scopes) (himp : ∀ value, P value → P' value) : All P' scopes where
  blocks frame hframe entry hentry := himp _ (h.blocks frame hframe entry hentry)
  callers blocks hblocks frame hframe entry hentry :=
    himp _ (h.callers blocks hblocks frame hframe entry hentry)
  globals entry hentry := himp _ (h.globals entry hentry)

theorem visible (h : All P scopes) {frame : Frame V F} (hframe : frame ∈ scopes.visible) :
    frame.All P := by
  rcases List.mem_append.mp hframe with hblock | hglobal
  · exact h.blocks frame hblock
  · rw [List.mem_singleton] at hglobal
    exact hglobal ▸ h.globals

theorem of_findVariable? (h : All P scopes) {value : V}
    (hfind : scopes.findVariable? name = some value) : P value := by
  obtain ⟨frame, hframe, hvalue⟩ := List.exists_of_findSome?_eq_some hfind
  exact h.visible hframe _ (Table.mem_of_value? hvalue)

theorem enter (h : All P scopes) : All P scopes.enter :=
  ⟨List.forall_mem_cons.mpr ⟨.empty, h.blocks⟩, h.callers, h.globals⟩

theorem enterFunction (h : All P scopes) : All P scopes.enterFunction :=
  ⟨List.forall_mem_cons.mpr ⟨.empty, by simp⟩, List.forall_mem_cons.mpr ⟨h.blocks, h.callers⟩,
    h.globals⟩

theorem leaveBlock (h : All P scopes) : All P scopes.leaveBlock :=
  ⟨fun frame hframe => h.blocks frame (List.mem_of_mem_tail hframe), h.callers, h.globals⟩

theorem leaveFunction (h : All P scopes) : All P scopes.leaveFunction := by
  obtain ⟨blocks, callers, globals⟩ := scopes
  cases callers with
  | nil => exact ⟨by simp [Scopes.leaveFunction], h.callers, h.globals⟩
  | cons caller callers =>
      obtain ⟨hcaller, hcallers⟩ := List.forall_mem_cons.mp h.callers
      exact ⟨hcaller, hcallers, h.globals⟩

theorem declareVariable (h : All P scopes) {value : V} (hvalue : P value)
    (hdeclare : scopes.declareVariable name value = .ok scopes') : All P scopes' := by
  obtain ⟨_, rfl⟩ := declareVariable_eq_ok.mp hdeclare
  obtain ⟨blocks, callers, globals⟩ := scopes
  cases blocks with
  | nil => exact ⟨h.blocks, h.callers, List.forall_mem_cons.mpr ⟨hvalue, h.globals⟩⟩
  | cons block blocks =>
      obtain ⟨hblock, hblocks⟩ := List.forall_mem_cons.mp h.blocks
      refine ⟨List.forall_mem_cons.mpr ⟨?_, hblocks⟩, h.callers, h.globals⟩
      exact List.forall_mem_cons.mpr ⟨hvalue, hblock⟩

theorem declareFunction (h : All P scopes) {signature : Signature} {value : F}
    (hdeclare : scopes.declareFunction signature value = .ok scopes') : All P scopes' := by
  obtain ⟨_, rfl⟩ := declareFunction_eq_ok.mp hdeclare
  obtain ⟨blocks, callers, globals⟩ := scopes
  cases blocks with
  | nil => exact ⟨h.blocks, h.callers, h.globals⟩
  | cons block blocks =>
      obtain ⟨hblock, hblocks⟩ := List.forall_mem_cons.mp h.blocks
      exact ⟨List.forall_mem_cons.mpr ⟨hblock, hblocks⟩, h.callers, h.globals⟩

/-- The changed variable is the one that the name refers to. -/
theorem modifyVariable (h : All P scopes) {change : V → V}
    (hchange : ∀ value, scopes.findVariable? name = some value → P (change value)) :
    All P (scopes.modifyVariable name change) := by
  unfold Scopes.modifyVariable
  split
  next blocks hmodify =>
    refine ⟨all_of_modifyIn hmodify h.blocks fun value hvalue => hchange value ?_, h.callers,
      h.globals⟩
    simp [findVariable?, Scopes.visible, List.findSome?_append, hvalue]
  next hmodify =>
    refine ⟨h.blocks, h.callers, h.globals.modify fun value hvalue => hchange value ?_⟩
    have hnone := findSome?_of_modifyIn_eq_none hmodify
    simp [findVariable?, Scopes.visible, List.findSome?_append, hnone, hvalue]

end All

end Scopes

end Scriptlet
