import Scriptlet.Proofs.Scope.Outline

/-! # Scopes with more functions

Scopes are widened by functions in the global frame. What can be looked up or declared in the
narrower scopes can be looked up or declared in the wider ones, with the same outcome, as long as it
is no function that only the wider ones have. Scopes that are both wider than the other differ in
the order of functions at most.
-/

namespace Scriptlet

variable {V F : Type}

theorem Table.value?_append {κ ν : Type} [DecidableEq κ] (key : κ) (first second : Table κ ν) :
    Table.value? key (first ++ second) = (first.value? key).or (second.value? key) := by
  induction first with
  | nil => rfl
  | cons entry rest ih =>
      by_cases hkey : entry.1 = key
      · simp [Table.value?, hkey]
      · simpa [Table.value?, hkey] using ih

namespace Scopes

/-- The scopes with one more function in the global frame. -/
def withFunction (scopes : Scopes V F) (signature : Signature) (value : F) : Scopes V F :=
  { scopes with globals :=
      { scopes.globals with funs := scopes.globals.funs.bind signature value } }

theorem binds_withFunction (scopes : Scopes V F) (signature : Signature) (value : F)
    (other : Signature) : (scopes.withFunction signature value).globals.funs.binds other =
      (decide (signature = other) || scopes.globals.funs.binds other) := by
  simp only [withFunction, Table.binds, Table.value?_bind]
  by_cases hother : signature = other
  · simp [hother]
  · simp [hother]

/-- The second scopes differ from the first at most in the functions of the global frame, and have
all the functions that these have. -/
structure Widened (narrow wide : Scopes V F) : Prop where
  blocks : wide.blocks = narrow.blocks
  callers : wide.callers = narrow.callers
  vars : wide.globals.vars = narrow.globals.vars
  funs : ∀ signature value, narrow.globals.funs.value? signature = some value →
    wide.globals.funs.value? signature = some value

namespace Widened

variable {narrow middle wide : Scopes V F}

theorem refl (scopes : Scopes V F) : Widened scopes scopes :=
  ⟨rfl, rfl, rfl, fun _ _ h => h⟩

theorem trans (hfirst : Widened narrow middle) (hsecond : Widened middle wide) :
    Widened narrow wide where
  blocks := hsecond.blocks.trans hfirst.blocks
  callers := hsecond.callers.trans hfirst.callers
  vars := hsecond.vars.trans hfirst.vars
  funs signature value h := hsecond.funs signature value (hfirst.funs signature value h)

/-! ## Names -/

theorem findVariable?_eq (h : Widened narrow wide) (name : String) :
    wide.findVariable? name = narrow.findVariable? name := by
  simp only [findVariable?, visible, List.findSome?_append, List.findSome?_cons, h.blocks, h.vars]

theorem findFunction?_eq_some (h : Widened narrow wide) {signature : Signature} {value : F}
    (hfind : narrow.findFunction? signature = some value) :
    wide.findFunction? signature = some value := by
  simp only [findFunction?, visible, List.findSome?_append, List.findSome?_singleton,
    Option.or_eq_some_iff] at hfind ⊢
  rw [h.blocks]
  exact hfind.imp_right fun hglobal => ⟨hglobal.1, h.funs signature value hglobal.2⟩

theorem current_vars (h : Widened narrow wide) : wide.current.vars = narrow.current.vars := by
  unfold current
  rw [h.blocks]
  cases narrow.blocks with
  | nil => exact h.vars
  | cons block blocks => rfl

/-! ## Frames -/

theorem enter (h : Widened narrow wide) : Widened narrow.enter wide.enter where
  blocks := congrArg (Frame.empty :: ·) h.blocks
  callers := h.callers
  vars := h.vars
  funs := h.funs

theorem leaveBlock (h : Widened narrow wide) : Widened narrow.leaveBlock wide.leaveBlock where
  blocks := congrArg List.tail h.blocks
  callers := h.callers
  vars := h.vars
  funs := h.funs

theorem enterFunction (h : Widened narrow wide) :
    Widened narrow.enterFunction wide.enterFunction where
  blocks := rfl
  callers := by
    simp only [Scopes.enterFunction, h.blocks, h.callers]
  vars := h.vars
  funs := h.funs

theorem leaveFunction (h : Widened narrow wide) :
    Widened narrow.leaveFunction wide.leaveFunction := by
  obtain ⟨blocks, callers, globals⟩ := narrow
  obtain ⟨blocks', callers', globals'⟩ := wide
  obtain ⟨rfl, rfl, hvars, hfuns⟩ := h
  cases callers' with
  | nil => exact ⟨rfl, rfl, hvars, hfuns⟩
  | cons caller callers => exact ⟨rfl, rfl, hvars, hfuns⟩

/-! ## Declarations -/

theorem bindVariable (h : Widened narrow wide) (name : String) (value : V) :
    Widened
      (narrow.setCurrent { narrow.current with vars := narrow.current.vars.bind name value })
      (wide.setCurrent { wide.current with vars := wide.current.vars.bind name value }) := by
  obtain ⟨blocks, callers, globals⟩ := narrow
  obtain ⟨blocks', callers', globals'⟩ := wide
  obtain ⟨rfl, rfl, hvars, hfuns⟩ := h
  cases blocks' with
  | nil => exact ⟨rfl, rfl, congrArg (Table.bind name value) hvars, hfuns⟩
  | cons block blocks => exact ⟨rfl, rfl, hvars, hfuns⟩

theorem declareVariable (h : Widened narrow wide) {narrow' : Scopes V F} {name : String} {value : V}
    (hdeclare : narrow.declareVariable name value = .ok narrow') :
    ∃ wide', wide.declareVariable name value = .ok wide' ∧ Widened narrow' wide' := by
  obtain ⟨hfree, rfl⟩ := declareVariable_eq_ok.mp hdeclare
  rw [← h.current_vars] at hfree
  exact ⟨_, declareVariable_eq_ok.mpr ⟨hfree, rfl⟩, h.bindVariable name value⟩

theorem modifyVariable (h : Widened narrow wide) (name : String) (change : V → V) :
    Widened (narrow.modifyVariable name change) (wide.modifyVariable name change) := by
  unfold Scopes.modifyVariable
  rw [h.blocks]
  cases modifyIn name change narrow.blocks with
  | some blocks => exact ⟨rfl, h.callers, h.vars, h.funs⟩
  | none => exact ⟨rfl, h.callers, congrArg (Table.modify name change) h.vars, h.funs⟩

/-- A function that both declare at the top is in both of them from then on. -/
theorem withFunction (h : Widened narrow wide) (signature : Signature) (value : F) :
    Widened (narrow.withFunction signature value) (wide.withFunction signature value) where
  blocks := h.blocks
  callers := h.callers
  vars := h.vars
  funs other found hfound := by
    simp only [Scopes.withFunction, Table.value?_bind] at hfound ⊢
    by_cases hother : signature = other
    · rwa [if_pos hother] at hfound ⊢
    · rw [if_neg hother] at hfound ⊢
      exact h.funs other found hfound

end Widened

/-! ## Functions at the top -/

variable {scopes scopes' : Scopes V F} {signature : Signature} {value : F}

/-- Variables that are declared where only the global frame is in use. -/
theorem Grows.globals_eq {finish : Scopes V F} (h : Grows scopes finish)
    (htop : scopes.blocks = []) :
    ∃ vars, finish = { scopes with globals := { scopes.globals with vars } } := by
  induction h with
  | refl => exact ⟨scopes.globals.vars, rfl⟩
  | declare _ hdeclare ih =>
      obtain ⟨vars, rfl⟩ := ih
      obtain ⟨_, rfl⟩ := declareVariable_eq_ok.mp hdeclare
      simp only [setCurrent, current, htop]
      exact ⟨_, rfl⟩

/-- A function that is declared where only the global frame is in use. -/
theorem declareFunction_eq_ok_of_top (htop : scopes.blocks = []) :
    scopes.declareFunction signature value = .ok scopes' ↔
      scopes.globals.funs.binds signature = false ∧
        scopes' = scopes.withFunction signature value := by
  obtain ⟨blocks, callers, globals⟩ := scopes
  cases (htop : blocks = [])
  exact declareFunction_eq_ok

theorem declareFunction_eq_error_of_top (htop : scopes.blocks = [])
    (hbinds : scopes.globals.funs.binds signature = true) :
    scopes.declareFunction signature value =
      .error (.functionAlreadyDeclared signature.name signature.arity) := by
  obtain ⟨blocks, callers, globals⟩ := scopes
  cases (htop : blocks = [])
  exact if_pos hbinds

/-- Both scopes have the same functions, and all else is the same as well. -/
def Reordered (first second : Scopes V F) : Prop :=
  Widened first second ∧ Widened second first

namespace Reordered

variable {first second third : Scopes V F}

theorem refl (scopes : Scopes V F) : Reordered scopes scopes :=
  ⟨.refl scopes, .refl scopes⟩

theorem symm (h : Reordered first second) : Reordered second first :=
  ⟨h.2, h.1⟩

theorem trans (hfirst : Reordered first second) (hsecond : Reordered second third) :
    Reordered first third :=
  ⟨hfirst.1.trans hsecond.1, hsecond.2.trans hfirst.2⟩

theorem value?_eq (h : Reordered first second) (signature : Signature) :
    second.globals.funs.value? signature = first.globals.funs.value? signature := by
  ext value
  constructor
  · exact h.2.funs signature value
  · exact h.1.funs signature value

theorem binds_eq (h : Reordered first second) (signature : Signature) :
    second.globals.funs.binds signature = first.globals.funs.binds signature := by
  unfold Table.binds
  rw [h.value?_eq]

theorem withFunction (h : Reordered first second) (signature : Signature) (value : F) :
    Reordered (first.withFunction signature value) (second.withFunction signature value) :=
  ⟨h.1.withFunction signature value, h.2.withFunction signature value⟩

end Reordered

/-- If a signature is free and another one after it, they are different, and the first is free after
the other. -/
theorem binds_swap {other : Signature} {otherValue : F}
    (hfree : scopes.globals.funs.binds signature = false)
    (hother : (scopes.withFunction signature value).globals.funs.binds other = false) :
    signature ≠ other ∧ scopes.globals.funs.binds other = false ∧
      (scopes.withFunction other otherValue).globals.funs.binds signature = false := by
  rw [binds_withFunction, Bool.or_eq_false_iff, decide_eq_false_iff_not] at hother
  obtain ⟨hne, hother⟩ := hother
  refine ⟨hne, hother, ?_⟩
  rw [binds_withFunction, hfree, decide_eq_false (Ne.symm hne)]
  rfl

/-- Functions of different signatures can be declared in both orders. -/
theorem withFunction_comm (scopes : Scopes V F) {other : Signature} (hne : signature ≠ other)
    (value otherValue : F) :
    Reordered ((scopes.withFunction signature value).withFunction other otherValue)
      ((scopes.withFunction other otherValue).withFunction signature value) := by
  have hsame (key : Signature) :
      ((scopes.globals.funs.bind signature value).bind other otherValue).value? key =
        ((scopes.globals.funs.bind other otherValue).bind signature value).value? key := by
    simp only [Table.value?_bind]
    by_cases hkey : signature = key
    · have hne' : other ≠ key := fun heq => hne (hkey.trans heq.symm)
      rw [if_pos hkey, if_neg hne', if_pos hkey]
    · rw [if_neg hkey, if_neg hkey]
  constructor
  · exact ⟨rfl, rfl, rfl, fun key found hfound => (hsame key).symm.trans hfound⟩
  · exact ⟨rfl, rfl, rfl, fun key found hfound => (hsame key).trans hfound⟩

end Scopes

end Scriptlet
