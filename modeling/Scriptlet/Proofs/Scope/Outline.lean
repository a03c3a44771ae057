import Scriptlet.Scope.Basic

/-! # Outlines of scopes

Scopes seen through a function on what they say of variables. All operations on scopes work the same
on what is seen, so that a view which leaves out the values of variables stays as it is when only
values change.
-/

namespace Scriptlet

variable {V W F : Type}

/-- The same keys with changed values. -/
def Table.mapValues {κ ν ω : Type} (view : ν → ω) (table : Table κ ν) : Table κ ω :=
  table.map fun entry => (entry.1, view entry.2)

namespace Table

variable {κ ν ω : Type} [DecidableEq κ] (view : ν → ω)

theorem value?_mapValues (key : κ) (table : Table κ ν) :
    (table.mapValues view).value? key = (table.value? key).map view := by
  induction table with
  | nil => rfl
  | cons entry rest ih =>
      by_cases hkey : entry.1 = key
      · simp [mapValues, value?, hkey]
      · simpa [mapValues, value?, hkey] using ih

theorem binds_mapValues (key : κ) (table : Table κ ν) :
    (table.mapValues view).binds key = table.binds key := by
  simp [binds, value?_mapValues]

theorem mapValues_modify {change : ν → ν} (hchange : ∀ value, view (change value) = view value)
    (key : κ) (table : Table κ ν) :
    (table.modify key change).mapValues view = table.mapValues view := by
  induction table with
  | nil => rfl
  | cons entry rest ih =>
      by_cases hkey : entry.1 = key
      · simp [mapValues, modify, hkey, hchange]
      · simpa [mapValues, modify, hkey] using ih

end Table

def Frame.mapVars (view : V → W) (frame : Frame V F) : Frame W F :=
  ⟨frame.vars.mapValues view, frame.funs⟩

namespace Scopes

theorem current_setCurrent (scopes : Scopes V F) (frame : Frame V F) :
    (scopes.setCurrent frame).current = frame := by
  cases hblocks : scopes.blocks <;> simp [setCurrent, current, hblocks]

/-- When a variable can be declared, and what comes of it. -/
theorem declareVariable_eq_ok {scopes scopes' : Scopes V F} {name : String} {value : V} :
    scopes.declareVariable name value = .ok scopes' ↔
      scopes.current.vars.binds name = false ∧ scopes' = scopes.setCurrent
        { scopes.current with vars := scopes.current.vars.bind name value } := by
  simp only [declareVariable]
  cases hbinds : scopes.current.vars.binds name with
  | true => simp
  | false => exact ⟨fun h => ⟨rfl, (Except.ok.inj h).symm⟩, fun h => congrArg Except.ok h.2.symm⟩

/-- When a function can be declared, and what comes of it. -/
theorem declareFunction_eq_ok {scopes scopes' : Scopes V F} {signature : Signature} {value : F} :
    scopes.declareFunction signature value = .ok scopes' ↔
      scopes.current.funs.binds signature = false ∧ scopes' = scopes.setCurrent
        { scopes.current with funs := scopes.current.funs.bind signature value } := by
  simp only [declareFunction]
  cases hbinds : scopes.current.funs.binds signature with
  | true => simp
  | false => exact ⟨fun h => ⟨rfl, (Except.ok.inj h).symm⟩, fun h => congrArg Except.ok h.2.symm⟩

/-- The scopes with a view of what they say of variables. -/
def mapVars (view : V → W) (scopes : Scopes V F) : Scopes W F where
  blocks := scopes.blocks.map (Frame.mapVars view)
  callers := scopes.callers.map (List.map (Frame.mapVars view))
  globals := scopes.globals.mapVars view

variable (view : V → W)

@[simp] theorem mapVars_leaveBlock (scopes : Scopes V F) :
    scopes.leaveBlock.mapVars view = (scopes.mapVars view).leaveBlock := by
  simp [mapVars, leaveBlock]

@[simp] theorem mapVars_leaveFunction (scopes : Scopes V F) :
    scopes.leaveFunction.mapVars view = (scopes.mapVars view).leaveFunction := by
  cases hcallers : scopes.callers <;> simp [mapVars, leaveFunction, hcallers]

theorem findVariable?_mapVars (scopes : Scopes V F) (name : String) :
    (scopes.mapVars view).findVariable? name = (scopes.findVariable? name).map view := by
  have hframes (frames : List (Frame V F)) :
      (frames.map (Frame.mapVars view)).findSome? (fun frame => frame.vars.value? name) =
        (frames.findSome? fun frame => frame.vars.value? name).map view := by
    induction frames with
    | nil => rfl
    | cons frame rest ih =>
        simp only [List.map_cons, List.findSome?_cons, Frame.mapVars, Table.value?_mapValues]
        cases frame.vars.value? name <;> simp [ih]
  simpa [findVariable?, visible, mapVars] using hframes (scopes.blocks ++ [scopes.globals])

theorem findFunction?_mapVars (scopes : Scopes V F) (signature : Signature) :
    (scopes.mapVars view).findFunction? signature = scopes.findFunction? signature := by
  have hframes (frames : List (Frame V F)) :
      (frames.map (Frame.mapVars view)).findSome? (fun frame => frame.funs.value? signature) =
        frames.findSome? fun frame => frame.funs.value? signature := by
    simp [List.findSome?_map, Function.comp_def, Frame.mapVars]
  simpa [findFunction?, visible, mapVars] using hframes (scopes.blocks ++ [scopes.globals])

theorem current_mapVars (scopes : Scopes V F) :
    (scopes.mapVars view).current = scopes.current.mapVars view := by
  cases hblocks : scopes.blocks <;> simp [current, mapVars, hblocks]

theorem setCurrent_mapVars (scopes : Scopes V F) (frame : Frame V F) :
    (scopes.mapVars view).setCurrent (frame.mapVars view) =
      (scopes.setCurrent frame).mapVars view := by
  cases hblocks : scopes.blocks <;> simp [setCurrent, mapVars, hblocks]

/-- A declaration is seen as a declaration. -/
theorem declareVariable_mapVars {scopes scopes' : Scopes V F} {name : String} {value : V} :
    scopes.declareVariable name value = .ok scopes' →
      (scopes.mapVars view).declareVariable name (view value) = .ok (scopes'.mapVars view) := by
  rw [declareVariable_eq_ok, declareVariable_eq_ok, current_mapVars]
  rintro ⟨hfree, rfl⟩
  refine ⟨(Table.binds_mapValues view name _).trans hfree, ?_⟩
  rw [← setCurrent_mapVars]
  rfl

/-- A variable can be declared if it is seen that it can. -/
theorem exists_declareVariable {scopes : Scopes V F} {name : String} (value : V) {seen : W}
    {scopes' : Scopes W F}
    (h : (scopes.mapVars view).declareVariable name seen = .ok scopes') :
    ∃ declared, scopes.declareVariable name value = .ok declared := by
  rw [declareVariable_eq_ok, current_mapVars] at h
  exact ⟨_, declareVariable_eq_ok.mpr
    ⟨(Table.binds_mapValues view name _).symm.trans h.1, rfl⟩⟩

/-- A function is declared whether variables are seen or not. -/
theorem declareFunction_mapVars {scopes scopes' : Scopes V F} {signature : Signature} {value : F} :
    scopes.declareFunction signature value = .ok scopes' →
      (scopes.mapVars view).declareFunction signature value = .ok (scopes'.mapVars view) := by
  rw [declareFunction_eq_ok, declareFunction_eq_ok, current_mapVars]
  rintro ⟨hfree, rfl⟩
  refine ⟨hfree, ?_⟩
  rw [← setCurrent_mapVars]
  rfl

theorem exists_declareFunction {scopes : Scopes V F} {signature : Signature} {value : F}
    {scopes' : Scopes W F}
    (h : (scopes.mapVars view).declareFunction signature value = .ok scopes') :
    ∃ declared, scopes.declareFunction signature value = .ok declared := by
  rw [declareFunction_eq_ok, current_mapVars] at h
  exact ⟨_, declareFunction_eq_ok.mpr ⟨h.1, rfl⟩⟩

theorem mapVars_modifyIn {change : V → V} (hchange : ∀ value, view (change value) = view value)
    {name : String} {frames frames' : List (Frame V F)}
    (h : modifyIn name change frames = some frames') :
    frames'.map (Frame.mapVars view) = frames.map (Frame.mapVars view) := by
  induction frames generalizing frames' with
  | nil => cases h
  | cons frame rest ih =>
      unfold modifyIn at h
      split at h
      · cases h
        simp [Frame.mapVars, Table.mapValues_modify view hchange]
      · obtain ⟨rest', hrest, rfl⟩ := Option.map_eq_some_iff.mp h
        simp [ih hrest]

/-- What does not depend on the change of a variable does not see it. -/
theorem mapVars_modifyVariable {change : V → V}
    (hchange : ∀ value, view (change value) = view value) (scopes : Scopes V F) (name : String) :
    (scopes.modifyVariable name change).mapVars view = scopes.mapVars view := by
  unfold modifyVariable
  split
  next blocks hblocks => simp [mapVars, mapVars_modifyIn view hchange hblocks]
  · simp [mapVars, Frame.mapVars, Table.mapValues_modify view hchange]

/-- A declared variable is the one that is found from then on. -/
theorem findVariable?_declareVariable {scopes scopes' : Scopes V F} {name : String} {value : V}
    (h : scopes.declareVariable name value = .ok scopes') (other : String) :
    scopes'.findVariable? other =
      if name = other then some value else scopes.findVariable? other := by
  obtain ⟨_, rfl⟩ := declareVariable_eq_ok.mp h
  cases hblocks : scopes.blocks <;> by_cases hother : name = other <;>
    simp [findVariable?, visible, setCurrent, current, hblocks, List.findSome?_cons,
      Table.value?_bind, hother]

/-- A declared function is the one that is found from then on. -/
theorem findFunction?_declareFunction {scopes scopes' : Scopes V F} {signature : Signature}
    {value : F} (h : scopes.declareFunction signature value = .ok scopes') (other : Signature) :
    scopes'.findFunction? other =
      if signature = other then some value else scopes.findFunction? other := by
  obtain ⟨_, rfl⟩ := declareFunction_eq_ok.mp h
  cases hblocks : scopes.blocks <;> by_cases hother : signature = other <;>
    simp [findFunction?, visible, setCurrent, current, hblocks, List.findSome?_cons,
      Table.value?_bind, hother]

theorem findFunction?_enter (scopes : Scopes V F) (signature : Signature) :
    scopes.enter.findFunction? signature = scopes.findFunction? signature := by
  simp [findFunction?, visible, enter, Frame.empty, List.findSome?_cons]

/-- In a new activation only the functions of the global frame are found. -/
theorem findFunction?_enterFunction (scopes : Scopes V F) (signature : Signature) :
    scopes.enterFunction.findFunction? signature = scopes.globals.funs.value? signature := by
  cases hvalue : scopes.globals.funs.value? signature <;>
    simp [findFunction?, visible, enterFunction, Frame.empty, List.findSome?_cons, hvalue]

/-- A declared function changes nothing about variables. -/
theorem findVariable?_declareFunction {scopes scopes' : Scopes V F} {signature : Signature}
    {value : F} (h : scopes.declareFunction signature value = .ok scopes') (name : String) :
    scopes'.findVariable? name = scopes.findVariable? name := by
  obtain ⟨_, rfl⟩ := declareFunction_eq_ok.mp h
  cases hblocks : scopes.blocks <;>
    simp [findVariable?, visible, setCurrent, current, hblocks, List.findSome?_cons]

end Scopes

/-! ## Declarations in the current frame -/

/-- Any number of variables is declared in the current frame. -/
inductive Scopes.Grows (scopes : Scopes V F) : Scopes V F → Prop
  | refl : Scopes.Grows scopes scopes
  | declare {middle finish : Scopes V F} {name : String} {value : V} :
      Scopes.Grows scopes middle → middle.declareVariable name value = .ok finish →
        Scopes.Grows scopes finish

namespace Scopes.Grows

variable {scopes middle finish : Scopes V F}

theorem trans (hfirst : Grows scopes middle) (hsecond : Grows middle finish) :
    Grows scopes finish := by
  induction hsecond with
  | refl => exact hfirst
  | declare _ hdeclare ih => exact .declare ih hdeclare

/-- Above the global frame only the innermost block grows. -/
theorem blocks_eq (h : Grows scopes finish) {block : Frame V F} {blocks : List (Frame V F)}
    (hblocks : scopes.blocks = block :: blocks) :
    ∃ block', finish = { scopes with blocks := block' :: blocks } := by
  induction h with
  | refl => exact ⟨block, by rw [← hblocks]⟩
  | declare _ hdeclare ih =>
      obtain ⟨block', rfl⟩ := ih
      obtain ⟨_, rfl⟩ := declareVariable_eq_ok.mp hdeclare
      exact ⟨_, rfl⟩

theorem leaveBlock_eq (h : Grows scopes.enter finish) : finish.leaveBlock = scopes := by
  obtain ⟨block, rfl⟩ := h.blocks_eq rfl
  rfl

/-- Declared variables change nothing about functions. -/
theorem findFunction?_eq (h : Grows scopes finish) (signature : Signature) :
    finish.findFunction? signature = scopes.findFunction? signature := by
  induction h with
  | refl => rfl
  | @declare middle finish name value _ hdeclare ih =>
      rw [← ih]
      obtain ⟨_, rfl⟩ := declareVariable_eq_ok.mp hdeclare
      cases hblocks : middle.blocks <;>
        simp [findFunction?, visible, setCurrent, current, hblocks, List.findSome?_cons]

theorem globalFuns_eq (h : Grows scopes finish) : finish.globals.funs = scopes.globals.funs := by
  induction h with
  | refl => rfl
  | @declare middle finish name value _ hdeclare ih =>
      rw [← ih]
      obtain ⟨_, rfl⟩ := declareVariable_eq_ok.mp hdeclare
      cases hblocks : middle.blocks <;> simp [setCurrent, current, hblocks]

theorem leaveFunction_eq (h : Grows scopes.enterFunction finish) :
    finish.leaveFunction = scopes := by
  obtain ⟨block, rfl⟩ := h.blocks_eq rfl
  rfl

end Scopes.Grows

end Scriptlet
