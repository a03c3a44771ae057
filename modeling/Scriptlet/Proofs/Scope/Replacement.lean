import Scriptlet.Proofs.Scope.Places

/-! # Replacing what one declaration says

Changing a variable replaces what its innermost visible declaration says. Everything else in use
stays as it is and where it is: all other entries of that frame, all other frames, and the
functions.
-/

namespace Scriptlet

variable {V F : Type}

namespace Table

variable {κ ν : Type} [DecidableEq κ]

theorem value?_eq_none_iff {table : Table κ ν} {key : κ} :
    table.value? key = none ↔ ∀ entry ∈ table, entry.1 ≠ key := by
  induction table with
  | nil => simp
  | cons entry rest ih =>
      by_cases hkey : entry.1 = key
      · simp [value?, hkey]
      · simp [value?, hkey, ih]

/-- The entry of a key that counts, between the entries before and after it. A change of the key's
value is a change of that entry. -/
theorem exists_split {table : Table κ ν} {key : κ} {value : ν} (h : table.value? key = some value) :
    ∃ before after, table = before ++ (key, value) :: after ∧ (∀ entry ∈ before, entry.1 ≠ key) ∧
      ∀ change, table.modify key change = before ++ (key, change value) :: after := by
  induction table with
  | nil => cases h
  | cons entry rest ih =>
      obtain ⟨k, v⟩ := entry
      by_cases hkey : k = key
      · subst hkey
        simp only [value?, if_true, Option.some.injEq] at h
        subst h
        exact ⟨[], rest, rfl, by simp, fun change => by simp [modify]⟩
      · simp only [value?, hkey, if_false] at h
        obtain ⟨before, after, hrest, hbefore, hmodify⟩ := ih h
        refine ⟨(k, v) :: before, after, by rw [hrest, List.cons_append], ?_, ?_⟩
        · exact List.forall_mem_cons.mpr ⟨hkey, hbefore⟩
        · intro change
          simp [modify, hkey, hmodify]

end Table

namespace Frame

/-- Of frames that stand innermost first, the entry that the name refers to says another thing, and
nothing else differs. -/
inductive Replaces (name : String) (old new : V) :
    List (Frame V F) → List (Frame V F) → Prop
  /-- The innermost frame has the entry, and no other one of that name stands before it. -/
  | here {before after : Table String V} {funs : Table Signature F} {rest : List (Frame V F)} :
      (∀ entry ∈ before, entry.1 ≠ name) →
        Replaces name old new (⟨before ++ (name, old) :: after, funs⟩ :: rest)
          (⟨before ++ (name, new) :: after, funs⟩ :: rest)
  /-- The innermost frame has no such entry. -/
  | outside {frame : Frame V F} {rest rest' : List (Frame V F)} :
      (∀ entry ∈ frame.vars, entry.1 ≠ name) → Replaces name old new rest rest' →
        Replaces name old new (frame :: rest) (frame :: rest')

/-- A change in a frame is one of the entry that the name refers to there. -/
theorem replaces_modify {frame : Frame V F} {name : String} {old : V}
    (h : frame.vars.value? name = some old) (change : V → V) (rest : List (Frame V F)) :
    Replaces name old (change old) (frame :: rest)
      ({ frame with vars := frame.vars.modify name change } :: rest) := by
  obtain ⟨vars, funs⟩ := frame
  obtain ⟨before, after, hvars, hbefore, hmodify⟩ := Table.exists_split h
  simp only at hvars
  rw [hmodify, hvars]
  exact .here hbefore

/-- Frames without the name stand in front of the entry. -/
theorem Replaces.append {name : String} {old new : V} {frames rest rest' : List (Frame V F)}
    (h : Replaces name old new rest rest')
    (hnone : ∀ frame ∈ frames, frame.vars.value? name = none) :
    Replaces name old new (frames ++ rest) (frames ++ rest') := by
  induction frames with
  | nil => exact h
  | cons frame frames ih =>
      obtain ⟨hframe, hframes⟩ := List.forall_mem_cons.mp hnone
      exact .outside (Table.value?_eq_none_iff.mp hframe) (ih hframes)

end Frame

namespace Scopes

/-- Scopes differ in what the innermost visible declaration of the name says, and in nothing
else. -/
structure Replaces (name : String) (old new : V) (before after : Scopes V F) : Prop where
  visible : Frame.Replaces name old new before.visible after.visible
  blocks : after.blocks.length = before.blocks.length
  callers : after.callers = before.callers

theorem replaces_of_modifyIn {name : String} {change : V → V} {frames frames' : List (Frame V F)}
    (h : modifyIn name change frames = some frames') :
    ∃ old, (frames.findSome? fun frame => frame.vars.value? name) = some old ∧
      ∀ rest, Frame.Replaces name old (change old) (frames ++ rest) (frames' ++ rest) := by
  induction frames generalizing frames' with
  | nil => cases h
  | cons frame frames ih =>
      cases hvalue : frame.vars.value? name with
      | some value =>
          simp only [modifyIn, Table.binds, hvalue, Option.isSome_some, if_true,
            Option.some.injEq] at h
          subst h
          exact ⟨value, by simp [hvalue], fun rest => Frame.replaces_modify hvalue change _⟩
      | none =>
          simp only [modifyIn, Table.binds, hvalue, Option.isSome_none, Bool.false_eq_true,
            if_false, Option.map_eq_some_iff] at h
          obtain ⟨others, hothers, rfl⟩ := h
          obtain ⟨old, hold, hreplaces⟩ := ih hothers
          refine ⟨old, by simp [hvalue, hold], fun rest => ?_⟩
          exact .outside (Table.value?_eq_none_iff.mp hvalue) (hreplaces rest)

/-- Changing a variable replaces what the name refers to. -/
theorem replaces_modifyVariable {scopes : Scopes V F} {name : String} {old : V}
    (h : scopes.findVariable? name = some old) (change : V → V) :
    scopes.Replaces name old (change old) (scopes.modifyVariable name change) := by
  have hlength := scopes.length_blocks_modifyVariable name change
  unfold findVariable? visible at h
  rw [List.findSome?_append] at h
  cases hmodify : modifyIn name change scopes.blocks with
  | some blocks =>
      obtain ⟨found, hfound, hreplaces⟩ := replaces_of_modifyIn hmodify
      have hsame : found = old := by simpa [hfound] using h
      refine ⟨?_, hlength, ?_⟩
      · simpa [visible, modifyVariable, hmodify, hsame] using hreplaces [scopes.globals]
      · simp [modifyVariable, hmodify]
  | none =>
      have hnone := findSome?_of_modifyIn_eq_none hmodify
      have hglobal : scopes.globals.vars.value? name = some old := by simpa [hnone] using h
      refine ⟨?_, hlength, ?_⟩
      · simpa [visible, modifyVariable, hmodify] using
          (Frame.replaces_modify hglobal change []).append (List.findSome?_eq_none_iff.mp hnone)
      · simp [modifyVariable, hmodify]

end Scopes

end Scriptlet
