import Scriptlet.Proofs.Scope.Contents
import Scriptlet.Proofs.Scope.Layout

/-! # Places of variables

A variable stands in a frame under a name, and the number of the frame tells it from the variables
of the same name in other frames. What each operation on scopes does to one place is said here; all
other places stay as they are.
-/

namespace Scriptlet

variable {V F : Type}

namespace Frame

/-- The variable of the given name in the frame of the given number, where the outermost of the
frames, which stand innermost first, has number zero. -/
def variableAt? (frames : List (Frame V F)) (index : Nat) (name : String) : Option V :=
  frames.reverse[index]?.bind fun frame => frame.vars.value? name

theorem variableAt?_cons (frame : Frame V F) (rest : List (Frame V F)) (index : Nat)
    (name : String) :
    variableAt? (frame :: rest) index name =
      if index = rest.length then frame.vars.value? name else variableAt? rest index name := by
  unfold variableAt?
  rw [List.reverse_cons, List.getElem?_append, List.length_reverse]
  rcases Nat.lt_trichotomy index rest.length with hlt | heq | hgt
  · rw [if_pos hlt, if_neg (Nat.ne_of_lt hlt)]
  · subst heq
    simp
  · have hnone : rest.reverse[index]? = none := by
      rw [List.getElem?_eq_none_iff, List.length_reverse]
      omega
    rw [if_neg (Nat.not_lt.mpr (Nat.le_of_lt hgt)), if_neg (Nat.ne_of_gt hgt), hnone,
      List.getElem?_eq_none_iff.mpr (by simp; omega)]

theorem variableAt?_concat (frames : List (Frame V F)) (frame : Frame V F) (index : Nat)
    (name : String) :
    variableAt? (frames ++ [frame]) index name =
      if index = 0 then frame.vars.value? name else variableAt? frames (index - 1) name := by
  unfold variableAt?
  rw [List.reverse_append]
  cases index with
  | zero => rfl
  | succ index => rfl

theorem variableAt?_of_length_le {frames : List (Frame V F)} {index : Nat}
    (h : frames.length ≤ index) (name : String) : variableAt? frames index name = none := by
  unfold variableAt?
  rw [List.getElem?_eq_none_iff.mpr (by simpa using h)]
  rfl

theorem variableAt?_append_of_lt (dropped : List (Frame V F)) {kept : List (Frame V F)}
    {index : Nat} (h : index < kept.length) (name : String) :
    variableAt? (dropped ++ kept) index name = variableAt? kept index name := by
  unfold variableAt?
  rw [List.reverse_append, List.getElem?_append_left (by simpa using h)]

end Frame

namespace Scopes

/-- All frames, the innermost first and the global one last. -/
def inward (scopes : Scopes V F) : List (Frame V F) :=
  scopes.blocks ++ scopes.callers.flatten ++ [scopes.globals]

/-- The variable of the given name in the frame of the given number. -/
def variableAt? (scopes : Scopes V F) (index : Nat) (name : String) : Option V :=
  Frame.variableAt? scopes.inward index name

theorem inward_eq (scopes : Scopes V F) :
    scopes.inward = scopes.blocks ++ (scopes.callers.flatten ++ [scopes.globals]) :=
  List.append_assoc _ _ _

theorem length_inward (scopes : Scopes V F) : scopes.inward.length = scopes.depth := by
  simp [inward, depth_eq, Nat.add_assoc]

theorem depth_pos (scopes : Scopes V F) : 0 < scopes.depth := by
  rw [depth_eq]
  exact Nat.succ_pos _

theorem lt_depth_of_variableAt? {scopes : Scopes V F} {index : Nat} {name : String} {value : V}
    (h : scopes.variableAt? index name = some value) : index < scopes.depth := by
  rw [← length_inward]
  apply Nat.lt_of_not_le
  intro hle
  cases (Frame.variableAt?_of_length_le hle name).symm.trans h

/-! ## Entering and leaving -/

section

variable (scopes : Scopes V F) (index : Nat) (name : String)

theorem variableAt?_of_inward_cons {scopes scopes' : Scopes V F}
    (h : scopes'.inward = .empty :: scopes.inward) :
    scopes'.variableAt? index name = scopes.variableAt? index name := by
  unfold variableAt?
  rw [h, Frame.variableAt?_cons]
  split
  next hindex => rw [hindex, Frame.variableAt?_of_length_le (Nat.le_refl _)]; rfl
  next => rfl

@[simp] theorem variableAt?_enter :
    scopes.enter.variableAt? index name = scopes.variableAt? index name :=
  variableAt?_of_inward_cons index name rfl

@[simp] theorem variableAt?_enterFunction :
    scopes.enterFunction.variableAt? index name = scopes.variableAt? index name :=
  variableAt?_of_inward_cons index name (by simp [inward, enterFunction])

/-- Leaving frames leaves the variables of the others where they are. -/
theorem variableAt?_of_suffix {scopes scopes' : Scopes V F}
    (h : scopes'.inward <:+ scopes.inward) :
    scopes'.variableAt? index name =
      if index < scopes'.depth then scopes.variableAt? index name else none := by
  obtain ⟨dropped, hdropped⟩ := h
  unfold variableAt?
  rw [← hdropped, ← length_inward]
  split
  next hindex => rw [Frame.variableAt?_append_of_lt dropped hindex]
  next hindex => exact Frame.variableAt?_of_length_le (Nat.not_lt.mp hindex) name

/-- A variable that is there after frames are left was there before. -/
theorem variableAt?_eq_some_of_suffix {scopes scopes' : Scopes V F}
    (h : scopes'.inward <:+ scopes.inward) {value : V}
    (hvalue : scopes'.variableAt? index name = some value) :
    scopes.variableAt? index name = some value := by
  rw [variableAt?_of_suffix index name h] at hvalue
  split at hvalue
  next => exact hvalue
  next => cases hvalue

theorem inward_leaveBlock_suffix : scopes.leaveBlock.inward <:+ scopes.inward := by
  refine ⟨scopes.blocks.take 1, ?_⟩
  cases hblocks : scopes.blocks <;> simp [inward, leaveBlock, hblocks]

theorem inward_leaveFunction_suffix : scopes.leaveFunction.inward <:+ scopes.inward := by
  refine ⟨scopes.blocks, ?_⟩
  cases hcallers : scopes.callers <;> simp [inward, leaveFunction, hcallers]

end

/-! ## Declarations -/

section

variable (scopes : Scopes V F)

theorem length_blocks_setCurrent (frame : Frame V F) :
    (scopes.setCurrent frame).blocks.length = scopes.blocks.length := by
  cases hblocks : scopes.blocks <;> simp [setCurrent, hblocks]

theorem variableAt?_eq (index : Nat) (name : String) :
    scopes.variableAt? index name =
      scopes.frames[index]?.bind fun frame => frame.vars.value? name := rfl

theorem variableAt?_currentIndex (name : String) :
    scopes.variableAt? scopes.currentIndex name = scopes.current.vars.value? name := by
  obtain ⟨below, above, hindex, hframes, _⟩ := scopes.frames_split
  rw [variableAt?_eq, hindex, hframes]
  simp

theorem variableAt?_setCurrent (frame : Frame V F) (index : Nat) (name : String) :
    (scopes.setCurrent frame).variableAt? index name =
      if index = scopes.currentIndex then frame.vars.value? name
      else scopes.variableAt? index name := by
  obtain ⟨below, above, hindex, hframes, hset⟩ := scopes.frames_split
  rw [variableAt?_eq, variableAt?_eq, hset, hframes, hindex]
  split
  next heq => simp [heq]
  next hne =>
    congr 1
    rcases Nat.lt_or_gt_of_ne hne with hlt | hgt
    · rw [List.getElem?_append_left hlt, List.getElem?_append_left hlt]
    · have hle := Nat.le_of_lt hgt
      obtain ⟨offset, hoffset⟩ : ∃ offset, index - below.length = offset + 1 :=
        ⟨index - below.length - 1, by omega⟩
      rw [List.getElem?_append_right hle, List.getElem?_append_right hle, hoffset]
      rfl

end

/-! ## The place that a name refers to -/

/-- The number of the innermost of the given frames that declares the variable, where `below` frames
stand below them. -/
def homeIn (name : String) : (frames : List (Frame V F)) → (below : Nat) → Option Nat
  | [], _ => none
  | frame :: rest, below =>
      if frame.vars.binds name then some (rest.length + below) else homeIn name rest below

/-- The number of the frame in which a name is found as that of a variable. -/
def home? (scopes : Scopes V F) (name : String) : Option Nat :=
  match homeIn name scopes.blocks (scopes.callers.flatten.length + 1) with
  | some index => some index
  | none => if scopes.globals.vars.binds name then some 0 else none

theorem homeIn_lt {name : String} {frames : List (Frame V F)} {below index : Nat}
    (h : homeIn name frames below = some index) : index < frames.length + below := by
  induction frames with
  | nil => cases h
  | cons frame rest ih =>
      simp only [homeIn] at h
      split at h
      · cases h
        simp
      · have hlt := ih h
        simp only [List.length_cons]
        omega

theorem homeIn_eq_none_iff {name : String} {change : V → V} {frames : List (Frame V F)}
    {below : Nat} : homeIn name frames below = none ↔ modifyIn name change frames = none := by
  induction frames with
  | nil => simp [homeIn, modifyIn]
  | cons frame rest ih =>
      by_cases hbinds : frame.vars.binds name = true <;> simp [homeIn, modifyIn, hbinds, ih]

theorem length_of_modifyIn {name : String} {change : V → V} {frames frames' : List (Frame V F)}
    (h : modifyIn name change frames = some frames') : frames'.length = frames.length := by
  induction frames generalizing frames' with
  | nil => cases h
  | cons frame rest ih =>
      unfold modifyIn at h
      split at h
      · cases h
        rfl
      · obtain ⟨rest', hrest, rfl⟩ := Option.map_eq_some_iff.mp h
        simp [ih hrest]

theorem length_blocks_modifyVariable (scopes : Scopes V F) (name : String) (change : V → V) :
    (scopes.modifyVariable name change).blocks.length = scopes.blocks.length := by
  unfold modifyVariable
  split
  next hmodify => exact length_of_modifyIn hmodify
  next => rfl

theorem callers_modifyVariable (scopes : Scopes V F) (name : String) (change : V → V) :
    (scopes.modifyVariable name change).callers = scopes.callers := by
  unfold modifyVariable
  split <;> rfl

/-- Changing a variable changes the one place that the name refers to. -/
theorem variableAt?_of_modifyIn {name : String} {change : V → V} {frames frames' : List (Frame V F)}
    (h : modifyIn name change frames = some frames') (below : List (Frame V F)) (index : Nat)
    (other : String) :
    Frame.variableAt? (frames' ++ below) index other =
      if name = other ∧ homeIn name frames below.length = some index then
        (Frame.variableAt? (frames ++ below) index other).map change
      else Frame.variableAt? (frames ++ below) index other := by
  induction frames generalizing frames' with
  | nil => cases h
  | cons frame rest ih =>
      unfold modifyIn at h
      split at h
      next hbinds =>
        cases h
        simp only [List.cons_append, Frame.variableAt?_cons, homeIn, hbinds, if_true,
          Option.some.injEq, List.length_append]
        by_cases hindex : index = rest.length + below.length
        · simp only [hindex, if_true, and_true, Table.value?_modify]
        · simp only [hindex, if_false, Ne.symm hindex, and_false]
      next hbinds =>
        obtain ⟨rest', hrest, rfl⟩ := Option.map_eq_some_iff.mp h
        have hlength := length_of_modifyIn hrest
        simp only [List.cons_append, Frame.variableAt?_cons, homeIn, hbinds, List.length_append,
          hlength, ih hrest]
        by_cases hindex : index = rest.length + below.length
        · have hhome : homeIn name rest below.length ≠ some index :=
            fun hhome => Nat.ne_of_lt (homeIn_lt hhome) hindex
          simp [hindex ▸ hhome, hindex]
        · simp [hindex]

theorem variableAt?_modifyVariable (scopes : Scopes V F) (name : String) (change : V → V)
    (index : Nat) (other : String) :
    (scopes.modifyVariable name change).variableAt? index other =
      if name = other ∧ scopes.home? name = some index then
        (scopes.variableAt? index other).map change
      else scopes.variableAt? index other := by
  unfold modifyVariable variableAt? home?
  cases hmodify : modifyIn name change scopes.blocks with
  | some blocks =>
      have hplace := variableAt?_of_modifyIn hmodify (scopes.callers.flatten ++ [scopes.globals])
        index other
      have hhome : homeIn name scopes.blocks (scopes.callers.flatten.length + 1) ≠ none := by
        rw [Ne, homeIn_eq_none_iff, hmodify]
        nofun
      obtain ⟨home, hhome⟩ := Option.ne_none_iff_exists'.mp hhome
      simp only [List.length_append, List.length_singleton, hhome] at hplace ⊢
      simpa only [inward_eq] using hplace
  | none =>
      have hhome : homeIn name scopes.blocks (scopes.callers.flatten.length + 1) = none :=
        homeIn_eq_none_iff.mpr hmodify
      simp only [hhome, inward, Frame.variableAt?_concat, Table.value?_modify]
      by_cases hindex : index = 0
      · by_cases hbinds : scopes.globals.vars.binds name = true
        · simp [hindex, hbinds]
        · have hnone : scopes.globals.vars.value? name = none := by
            simpa [Table.binds] using hbinds
          by_cases hname : name = other
          · simp [hindex, ← hname, hnone]
          · simp [hindex, hname]
      · by_cases hbinds : scopes.globals.vars.binds name = true <;>
          simp [hindex, hbinds, Ne.symm hindex]

theorem exists_of_homeIn {name : String} {frames : List (Frame V F)} {below : List (Frame V F)}
    {index : Nat} (h : homeIn name frames below.length = some index) :
    ∃ value, Frame.variableAt? (frames ++ below) index name = some value ∧
      (frames.findSome? fun frame => frame.vars.value? name) = some value := by
  induction frames with
  | nil => cases h
  | cons frame rest ih =>
      simp only [List.cons_append, Frame.variableAt?_cons, List.length_append]
      unfold homeIn at h
      cases hvalue : frame.vars.value? name with
      | some value =>
          simp only [Table.binds, hvalue, Option.isSome_some, if_true, Option.some.injEq] at h
          exact ⟨value, if_pos h.symm, by simp [hvalue]⟩
      | none =>
          simp only [Table.binds, hvalue, Option.isSome_none, Bool.false_eq_true, if_false] at h
          obtain ⟨value, hat, hfind⟩ := ih h
          exact ⟨value, (if_neg (Nat.ne_of_lt (homeIn_lt h))).trans hat, by simp [hvalue, hfind]⟩

/-- What a name refers to is the variable at its place. -/
theorem variableAt?_of_home? {scopes : Scopes V F} {name : String} {index : Nat}
    (h : scopes.home? name = some index) :
    scopes.variableAt? index name = scopes.findVariable? name := by
  unfold home? at h
  unfold variableAt? findVariable? visible
  rw [List.findSome?_append]
  cases hhome : homeIn name scopes.blocks (scopes.callers.flatten.length + 1) with
  | some home =>
      simp only [hhome, Option.some.injEq] at h
      have hbelow : (scopes.callers.flatten ++ [scopes.globals]).length =
          scopes.callers.flatten.length + 1 := List.length_append
      obtain ⟨value, hat, hfind⟩ := exists_of_homeIn (hbelow ▸ hhome)
      rw [inward_eq, ← h, hat, hfind]
      rfl
  | none =>
      have hnone := findSome?_of_modifyIn_eq_none
        (homeIn_eq_none_iff.mp hhome : modifyIn name id scopes.blocks = none)
      simp only [hhome] at h
      split at h
      · cases h
        rw [hnone, inward, Frame.variableAt?_concat]
        cases hvalue : scopes.globals.vars.value? name <;> simp [hvalue]
      · cases h

end Scopes

end Scriptlet
