import Scriptlet.Proofs.Scope.Outline

/-! # The layout of scopes

The frames in use as one sequence from the global frame up, in the order in which they were entered.
Every frame but the global one leads to another, in which names are looked for next. What the values
of variables are plays no part here.
-/

namespace Scriptlet

variable {V W F : Type}

/-- The names of a frame's variables, the latest first. -/
def Frame.names (frame : Frame V F) : List String :=
  frame.vars.map Prod.fst

theorem Frame.names_mapVars (view : V → W) (frame : Frame V F) :
    (frame.mapVars view).names = frame.names := by
  simp [Frame.names, Frame.mapVars, Table.mapValues]

namespace Scopes

/-- The blocks of all activations, those of the running one first. -/
def activations (scopes : Scopes V F) : List (List (Frame V F)) :=
  scopes.blocks :: scopes.callers

/-- All frames, the global one first. -/
def frames (scopes : Scopes V F) : List (Frame V F) :=
  (scopes.blocks ++ scopes.callers.flatten ++ [scopes.globals]).reverse

/-- Where the frames of activations lead to, from the number of their first frame and from how many
frames each activation has. The first frame of an activation leads to the global frame, every other
one to the frame before it. -/
def links : (start : Nat) → (sizes : List Nat) → List (Option Nat)
  | _, [] => []
  | start, size :: sizes =>
      (List.range size).map (fun i => some (if i = 0 then 0 else start + i - 1)) ++
        links (start + size) sizes

/-- For each frame the number of the frame that it leads to. -/
def parents (scopes : Scopes V F) : List (Option Nat) :=
  none :: links 1 ((scopes.blocks :: scopes.callers).reverse.map List.length)

/-! ## What a view of variables leaves of the layout -/

section

variable (view : V → W) (scopes : Scopes V F)

@[simp] theorem depth_mapVars : (scopes.mapVars view).depth = scopes.depth := by
  simp [depth_eq, mapVars, List.length_flatten, Function.comp_def]

@[simp] theorem currentIndex_mapVars :
    (scopes.mapVars view).currentIndex = scopes.currentIndex := by
  unfold currentIndex
  rw [depth_mapVars]
  simp [isGlobal, mapVars]

@[simp] theorem mark_mapVars : (scopes.mapVars view).mark = scopes.mark := by
  unfold mark
  rw [currentIndex_mapVars, depth_mapVars]

@[simp] theorem parents_mapVars : (scopes.mapVars view).parents = scopes.parents := by
  simp [parents, mapVars, Function.comp_def]

theorem frames_mapVars :
    (scopes.mapVars view).frames = scopes.frames.map (Frame.mapVars view) := by
  simp [frames, mapVars, List.map_flatten]

@[simp] theorem names_mapVars :
    (scopes.mapVars view).frames.map Frame.names = scopes.frames.map Frame.names := by
  rw [frames_mapVars, List.map_map]
  exact List.map_congr_left fun frame _ => Frame.names_mapVars view frame

@[simp] theorem functions_mapVars :
    (scopes.mapVars view).frames.map Frame.funs = scopes.frames.map Frame.funs := by
  rw [frames_mapVars, List.map_map]
  rfl

end

/-! ## Extension of the current frame -/

/-- The frames stand as before, with the functions they had, and the given names are all that has
come or gone: they are new in the current frame. -/
structure Extends (before : Scopes V F) (added : List String) (after : Scopes V F) : Prop where
  depth : after.depth = before.depth
  currentIndex : after.currentIndex = before.currentIndex
  parents : after.parents = before.parents
  functions : after.frames.map Frame.funs = before.frames.map Frame.funs
  names : after.frames.map Frame.names =
    (before.frames.map Frame.names).modify before.currentIndex (added ++ ·)

namespace Extends

variable {before middle after : Scopes V F} {added more : List String}

theorem refl (scopes : Scopes V F) : scopes.Extends [] scopes := by
  refine ⟨rfl, rfl, rfl, rfl, ?_⟩
  exact (List.modify_id _ _).symm

theorem trans (hfirst : before.Extends added middle) (hsecond : middle.Extends more after) :
    before.Extends (more ++ added) after where
  depth := hsecond.depth.trans hfirst.depth
  currentIndex := hsecond.currentIndex.trans hfirst.currentIndex
  parents := hsecond.parents.trans hfirst.parents
  functions := hsecond.functions.trans hfirst.functions
  names := by
    rw [hsecond.names, hfirst.names, hfirst.currentIndex, List.modify_modify_eq]
    simp [Function.comp_def]

/-- Whether scopes extend others does not depend on what they say of variables. -/
theorem of_mapVars {view : V → W} (h : (before.mapVars view).Extends added (after.mapVars view)) :
    before.Extends added after where
  depth := by simpa using h.depth
  currentIndex := by simpa using h.currentIndex
  parents := by simpa using h.parents
  functions := by simpa using h.functions
  names := by simpa using h.names

end Extends

/-- The current frame among the others, and what replacing it does to them. -/
theorem frames_split (scopes : Scopes V F) :
    ∃ below above, scopes.currentIndex = below.length ∧
      scopes.frames = below ++ scopes.current :: above ∧
      ∀ frame, (scopes.setCurrent frame).frames = below ++ frame :: above := by
  cases hblocks : scopes.blocks with
  | nil =>
      refine ⟨[], scopes.callers.flatten.reverse, ?_, ?_, ?_⟩
      · simp [currentIndex, isGlobal, hblocks]
      · simp [frames, current, hblocks]
      · intro frame
        simp [frames, setCurrent, hblocks]
  | cons block blocks =>
      refine ⟨(blocks ++ scopes.callers.flatten ++ [scopes.globals]).reverse, [], ?_, ?_, ?_⟩
      · rw [currentIndex, depth_eq]
        simp [isGlobal, hblocks]
        omega
      · simp [frames, current, hblocks]
      · intro frame
        simp [frames, setCurrent, hblocks]

/-- Replacing the current frame changes nothing about how the frames stand. -/
theorem extends_setCurrent (scopes : Scopes V F) {frame : Frame V F} {added : List String}
    (hfunctions : frame.funs = scopes.current.funs)
    (hnames : frame.names = added ++ scopes.current.names) :
    scopes.Extends added (scopes.setCurrent frame) := by
  obtain ⟨below, above, hindex, hframes, hset⟩ := scopes.frames_split
  refine ⟨?_, ?_, ?_, ?_, ?_⟩
  · cases hblocks : scopes.blocks <;> simp [depth_eq, setCurrent, hblocks]
  · cases hblocks : scopes.blocks <;>
      simp [currentIndex, isGlobal, depth_eq, setCurrent, hblocks]
  · cases hblocks : scopes.blocks <;> simp [parents, setCurrent, hblocks]
  · rw [hset, hframes]
    simp [hfunctions]
  · rw [hset, hframes, hindex, List.modify_eq_take_drop]
    simp [hnames]

theorem extends_of_declareVariable {scopes scopes' : Scopes V F} {name : String} {value : V}
    (h : scopes.declareVariable name value = .ok scopes') : scopes.Extends [name] scopes' := by
  obtain ⟨-, rfl⟩ := declareVariable_eq_ok.mp h
  exact extends_setCurrent scopes rfl rfl

theorem Grows.exists_extends {scopes scopes' : Scopes V F} (h : scopes.Grows scopes') :
    ∃ added, scopes.Extends added scopes' := by
  induction h with
  | refl => exact ⟨[], .refl scopes⟩
  | declare _ hdeclare ih =>
      obtain ⟨added, hadded⟩ := ih
      exact ⟨_, hadded.trans (extends_of_declareVariable hdeclare)⟩

end Scopes

end Scriptlet
