import Mathlib.Data.List.Forall2
import Scriptlet.Proofs.Scope.Outline

/-! # Alignment of scopes

Two scopes that are used for the same program, such as those of its typing and those of its run,
have the same names in the same order. The second may have blocks without a counterpart, as long as
they declare nothing. A name then refers to corresponding declarations in both.
-/

namespace Scriptlet

variable {V W F G : Type}

/-- Two tables have the same keys in the same order, with related values. -/
abbrev Table.Aligned {κ ν ω : Type} (R : κ → ν → ω → Prop) : Table κ ν → Table κ ω → Prop :=
  List.Forall₂ fun left right => left.1 = right.1 ∧ R left.1 left.2 right.2

namespace Table.Aligned

variable {κ ν ω : Type} [DecidableEq κ] {R : κ → ν → ω → Prop} {left : Table κ ν}
  {right : Table κ ω}

theorem value?_rel (h : Table.Aligned R left right) (key : κ) :
    Option.Rel (R key) (left.value? key) (right.value? key) := by
  induction h with
  | nil => exact .none
  | @cons first second _ _ hentry _ ih =>
      obtain ⟨k, v⟩ := first
      obtain ⟨k', w⟩ := second
      obtain ⟨rfl, hrelated⟩ := hentry
      by_cases hkey : k = key
      · subst hkey
        simpa [Table.value?] using Option.Rel.some hrelated
      · simpa [Table.value?, hkey] using ih

theorem binds_eq (h : Table.Aligned R left right) (key : κ) : left.binds key = right.binds key := by
  have hvalue := h.value?_rel key
  unfold Table.binds
  generalize left.value? key = first at hvalue ⊢
  generalize right.value? key = second at hvalue ⊢
  cases hvalue <;> rfl

end Table.Aligned

namespace Scopes

/-- Two blocks have related variables, and neither has functions. -/
structure FrameAligned (R : String → V → W → Prop) (left : Frame V F) (right : Frame W G) :
    Prop where
  vars : Table.Aligned R left.vars right.vars
  left_funs : left.funs = []
  right_funs : right.funs = []

/-- Two stacks of blocks are aligned, where the second may have blocks that declare nothing. -/
inductive BlocksAligned (R : String → V → W → Prop) : List (Frame V F) → List (Frame W G) → Prop
  | nil : BlocksAligned R [] []
  | blank {lefts : List (Frame V F)} {rights : List (Frame W G)} :
      BlocksAligned R lefts rights → BlocksAligned R lefts (.empty :: rights)
  | frame {left : Frame V F} {right : Frame W G} {lefts : List (Frame V F)}
      {rights : List (Frame W G)} :
      FrameAligned R left right → BlocksAligned R lefts rights →
        BlocksAligned R (left :: lefts) (right :: rights)

/-- Aligned stacks of blocks whose innermost blocks correspond. -/
inductive BlocksInStep (R : String → V → W → Prop) : List (Frame V F) → List (Frame W G) → Prop
  | nil : BlocksInStep R [] []
  | frame {left : Frame V F} {right : Frame W G} {lefts : List (Frame V F)}
      {rights : List (Frame W G)} :
      FrameAligned R left right → BlocksAligned R lefts rights →
        BlocksInStep R (left :: lefts) (right :: rights)

theorem BlocksInStep.aligned {R : String → V → W → Prop} {lefts : List (Frame V F)}
    {rights : List (Frame W G)} (h : BlocksInStep R lefts rights) :
    BlocksAligned R lefts rights := by
  cases h with
  | nil => exact .nil
  | frame htop hrest => exact .frame htop hrest

/-- The blocks in use and the global frames are aligned. -/
structure Aligned (R : String → V → W → Prop) (Q : Signature → F → G → Prop)
    (left : Scopes V F) (right : Scopes W G) : Prop where
  blocks : BlocksAligned R left.blocks right.blocks
  vars : Table.Aligned R left.globals.vars right.globals.vars
  funs : Table.Aligned Q left.globals.funs right.globals.funs

/-- The scopes are aligned and their current frames correspond. -/
structure InStep (R : String → V → W → Prop) (Q : Signature → F → G → Prop)
    (left : Scopes V F) (right : Scopes W G) : Prop where
  blocks : BlocksInStep R left.blocks right.blocks
  vars : Table.Aligned R left.globals.vars right.globals.vars
  funs : Table.Aligned Q left.globals.funs right.globals.funs

variable {R : String → V → W → Prop} {Q : Signature → F → G → Prop}
variable {left left' : Scopes V F} {right : Scopes W G}

theorem InStep.aligned (h : InStep R Q left right) : Aligned R Q left right :=
  ⟨h.blocks.aligned, h.vars, h.funs⟩

/-! ## Names -/

theorem BlocksAligned.findSome?_rel {lefts : List (Frame V F)} {rights : List (Frame W G)}
    (h : BlocksAligned R lefts rights) (name : String) :
    Option.Rel (R name) (lefts.findSome? fun frame => frame.vars.value? name)
      (rights.findSome? fun frame => frame.vars.value? name) := by
  induction h with
  | nil => exact .none
  | blank _ ih => exact ih
  | @frame left right _ _ htop _ ih =>
      simp only [List.findSome?_cons]
      have hvalue := htop.vars.value?_rel name
      generalize left.vars.value? name = first at hvalue ⊢
      generalize right.vars.value? name = second at hvalue ⊢
      cases hvalue with
      | some hrelated => exact .some hrelated
      | none => exact ih

/-- A variable's name refers to related declarations. -/
theorem Aligned.findVariable?_rel (h : Aligned R Q left right) (name : String) :
    Option.Rel (R name) (left.findVariable? name) (right.findVariable? name) := by
  have hblocks := h.blocks.findSome?_rel name
  have hglobals := h.vars.value?_rel name
  simp only [findVariable?, visible, List.findSome?_append, List.findSome?_cons,
    List.findSome?_nil]
  generalize left.blocks.findSome? _ = first at hblocks ⊢
  generalize right.blocks.findSome? _ = second at hblocks ⊢
  generalize left.globals.vars.value? name = third at hglobals ⊢
  generalize right.globals.vars.value? name = fourth at hglobals ⊢
  cases hblocks with
  | some hrelated => exact .some hrelated
  | none =>
      cases hglobals with
      | some hrelated => exact .some hrelated
      | none => exact .none

theorem BlocksAligned.left_funs {lefts : List (Frame V F)} {rights : List (Frame W G)}
    (h : BlocksAligned R lefts rights) (signature : Signature) :
    (lefts.findSome? fun frame => frame.funs.value? signature) = none := by
  induction h with
  | nil => rfl
  | blank _ ih => exact ih
  | frame htop _ ih => simp [htop.left_funs, ih]

theorem BlocksAligned.right_funs {lefts : List (Frame V F)} {rights : List (Frame W G)}
    (h : BlocksAligned R lefts rights) (signature : Signature) :
    (rights.findSome? fun frame => frame.funs.value? signature) = none := by
  induction h with
  | nil => rfl
  | blank _ ih => exact ih
  | frame htop _ ih => simp [htop.right_funs, ih]

/-- All functions are those of the global frame. -/
theorem findFunction?_of_blocks {scopes : Scopes V F} {signature : Signature}
    (h : (scopes.blocks.findSome? fun frame => frame.funs.value? signature) = none) :
    scopes.findFunction? signature = scopes.globals.funs.value? signature := by
  rw [findFunction?, visible, List.findSome?_append, h]
  cases hvalue : scopes.globals.funs.value? signature <;> simp [hvalue]

theorem Aligned.left_findFunction? (h : Aligned R Q left right) (signature : Signature) :
    left.findFunction? signature = left.globals.funs.value? signature :=
  findFunction?_of_blocks (h.blocks.left_funs signature)

theorem Aligned.right_findFunction? (h : Aligned R Q left right) (signature : Signature) :
    right.findFunction? signature = right.globals.funs.value? signature :=
  findFunction?_of_blocks (h.blocks.right_funs signature)

/-- A function's name refers to related declarations. -/
theorem Aligned.findFunction?_rel (h : Aligned R Q left right) (signature : Signature) :
    Option.Rel (Q signature) (left.findFunction? signature) (right.findFunction? signature) := by
  rw [h.left_findFunction?, h.right_findFunction?]
  exact h.funs.value?_rel signature

/-! ## Blocks and activations -/

theorem FrameAligned.empty : FrameAligned R (.empty : Frame V F) (.empty : Frame W G) :=
  ⟨.nil, rfl, rfl⟩

theorem Aligned.enter (h : Aligned R Q left right) : InStep R Q left.enter right.enter :=
  ⟨.frame .empty h.blocks, h.vars, h.funs⟩

/-- A block that declares nothing needs no counterpart. -/
theorem Aligned.blank (h : Aligned R Q left right) : Aligned R Q left right.enter :=
  ⟨.blank h.blocks, h.vars, h.funs⟩

theorem Aligned.enterFunction (h : Aligned R Q left right) :
    InStep R Q (enterFunction ⟨[], [], left.globals⟩) right.enterFunction :=
  ⟨.frame .empty .nil, h.vars, h.funs⟩

/-! ## Declarations -/

/-- A variable can be declared in both, and they stay in step. -/
theorem InStep.declareVariable (h : InStep R Q left right) {name : String} {value : V} {other : W}
    (hdeclare : left.declareVariable name value = .ok left') (hrelated : R name value other) :
    ∃ right', right.declareVariable name other = .ok right' ∧ InStep R Q left' right' := by
  obtain ⟨lefts, callers, globals⟩ := left
  obtain ⟨rights, callers', globals'⟩ := right
  obtain ⟨hfree, rfl⟩ := declareVariable_eq_ok.mp hdeclare
  obtain ⟨hblocks, hvars, hfuns⟩ := h
  simp only [declareVariable_eq_ok]
  cases hblocks with
  | nil =>
      refine ⟨_, ⟨(hvars.binds_eq name).symm.trans hfree, rfl⟩, .nil, ?_, hfuns⟩
      exact .cons ⟨rfl, hrelated⟩ hvars
  | frame htop hrest =>
      refine ⟨_, ⟨(htop.vars.binds_eq name).symm.trans hfree, rfl⟩, .frame ⟨?_, ?_, ?_⟩ hrest,
        hvars, hfuns⟩
      · exact .cons ⟨rfl, hrelated⟩ htop.vars
      · exact htop.left_funs
      · exact htop.right_funs

/-- At the top a function can be declared in both, and they stay in step. -/
theorem InStep.declareFunction (h : InStep R Q left right) (htop : left.blocks = [])
    {signature : Signature} {value : F} {other : G}
    (hdeclare : left.declareFunction signature value = .ok left')
    (hrelated : Q signature value other) :
    ∃ right', right.declareFunction signature other = .ok right' ∧ InStep R Q left' right' := by
  obtain ⟨lefts, callers, globals⟩ := left
  obtain ⟨rights, callers', globals'⟩ := right
  obtain ⟨hfree, rfl⟩ := declareFunction_eq_ok.mp hdeclare
  obtain ⟨hblocks, hvars, hfuns⟩ := h
  simp only at htop
  subst htop
  cases hblocks
  simp only [declareFunction_eq_ok]
  refine ⟨_, ⟨(hfuns.binds_eq signature).symm.trans hfree, rfl⟩, .nil, hvars, ?_⟩
  exact .cons ⟨rfl, hrelated⟩ hfuns

end Scopes

end Scriptlet
