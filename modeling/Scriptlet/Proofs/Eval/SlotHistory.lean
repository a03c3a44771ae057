import Mathlib.Data.List.Induction
import Scriptlet.Proofs.Eval.History
import Scriptlet.Proofs.Scope.Places

/-! # What happens to a slot

A slot is made by a declaration, stays in its place as long as its frame is in use, and changes only
by a value that is stored in it. So it keeps its type and whether it can be assigned, and holds
values that fit it.
-/

namespace Scriptlet

variable {σ : Type}

namespace Machine

/-- The slot of the given name in the frame of the given number. -/
def slotAt? (machine : Machine σ) (index : Nat) (name : String) : Option Slot :=
  machine.scopes.variableAt? index name

/-- The frame of the given number is in use before, between and after the changes. -/
def KeepsFrame (machine : Machine σ) (index : Nat) (changes : List (Change σ)) : Prop :=
  ∀ part, part <+: changes → index < (machine.after part).scopes.depth

/-- One of the changes stores a value in the slot of the given name in the frame of the given
number. -/
def Assigns (machine : Machine σ) (index : Nat) (name : String) (changes : List (Change σ)) :
    Prop :=
  ∃ part value, part ++ [.store name value] <+: changes ∧
    (machine.after part).scopes.home? name = some index

section

variable {machine : Machine σ} {index : Nat} {name : String} {changes : List (Change σ)}
variable {change : Change σ}

theorem keepsFrame_nil : machine.KeepsFrame index [] ↔ index < machine.scopes.depth := by
  simp [KeepsFrame]

theorem keepsFrame_concat : machine.KeepsFrame index (changes ++ [change]) ↔
    machine.KeepsFrame index changes ∧
      index < (change.apply (machine.after changes)).scopes.depth := by
  simp only [KeepsFrame, List.prefix_concat_iff, forall_eq_or_imp, after_append, after_cons,
    after_nil]
  exact and_comm

theorem assigns_concat : machine.Assigns index name (changes ++ [change]) ↔
    machine.Assigns index name changes ∨
      ∃ value, change = .store name value ∧
        (machine.after changes).scopes.home? name = some index := by
  constructor
  · rintro ⟨part, value, hpart, hhome⟩
    rcases List.prefix_concat_iff.mp hpart with heq | hpart
    · obtain ⟨rfl, hchange⟩ := List.append_inj' heq rfl
      exact .inr ⟨value, (List.singleton_inj.mp hchange).symm, hhome⟩
    · exact .inl ⟨part, value, hpart, hhome⟩
  · rintro (⟨part, value, hpart, hhome⟩ | ⟨value, rfl, hhome⟩)
    · exact ⟨part, value, hpart.trans (List.prefix_append _ _), hhome⟩
    · exact ⟨changes, value, List.prefix_rfl, hhome⟩

end

end Machine

/-! ## One change -/

namespace Scopes

variable {V F : Type} (scopes : Scopes V F)

theorem variableAt?_addVariable (name other : String) (value : V) (index : Nat) :
    (scopes.addVariable name value).variableAt? index other =
      if index = scopes.currentIndex ∧ name = other then some value
      else scopes.variableAt? index other := by
  unfold addVariable
  rw [variableAt?_setCurrent]
  by_cases hindex : index = scopes.currentIndex
  · subst hindex
    simp [Table.value?_bind, variableAt?_currentIndex]
  · simp [hindex]

theorem variableAt?_addFunction (signature : Signature) (value : F) (index : Nat) (name : String) :
    (scopes.addFunction signature value).variableAt? index name =
      scopes.variableAt? index name := by
  unfold addFunction
  rw [variableAt?_setCurrent]
  split
  next hindex => rw [hindex, variableAt?_currentIndex]
  next => rfl

end Scopes

namespace Machine

variable {machine : Machine σ} {change : Change σ} {index : Nat} {name : String} {slot : Slot}

/-- Where a slot comes from: the change has made it, or has stored a value in it, or it was there
and has been left alone. -/
theorem slotAt?_apply_cases (h : (change.apply machine).slotAt? index name = some slot) :
    (∃ given, change = .declare name slot given ∧ machine.scopes.currentIndex = index) ∨
    (∃ old value, change = .store name value ∧ machine.scopes.home? name = some index ∧
      machine.slotAt? index name = some old ∧ slot = { old with value }) ∨
    machine.slotAt? index name = some slot ∧
      ¬ ∃ value, change = .store name value ∧ machine.scopes.home? name = some index := by
  unfold slotAt? at h ⊢
  cases change with
  | enterBlock => exact .inr (.inr ⟨(Scopes.variableAt?_enter _ _ _).symm.trans h, by simp⟩)
  | enterFunction =>
      exact .inr (.inr ⟨(Scopes.variableAt?_enterFunction _ _ _).symm.trans h, by simp⟩)
  | leaveBlock =>
      have hsuffix := Scopes.inward_leaveBlock_suffix machine.scopes
      exact .inr (.inr ⟨Scopes.variableAt?_eq_some_of_suffix _ _ hsuffix h, by simp⟩)
  | leaveFunction =>
      have hsuffix := Scopes.inward_leaveFunction_suffix machine.scopes
      exact .inr (.inr ⟨Scopes.variableAt?_eq_some_of_suffix _ _ hsuffix h, by simp⟩)
  | declare other slot' given =>
      change (machine.scopes.addVariable other slot').variableAt? index name = some slot at h
      rw [Scopes.variableAt?_addVariable] at h
      split at h
      next hplace =>
        obtain ⟨hindex, rfl⟩ := hplace
        cases h
        exact .inl ⟨given, rfl, hindex.symm⟩
      next => exact .inr (.inr ⟨h, by simp⟩)
  | declareFunction f =>
      exact .inr (.inr ⟨(Scopes.variableAt?_addFunction _ _ _ _ _).symm.trans h, by simp⟩)
  | store other value =>
      change (machine.scopes.modifyVariable other _).variableAt? index name = some slot at h
      rw [Scopes.variableAt?_modifyVariable] at h
      split at h
      next hplace =>
        obtain ⟨rfl, hhome⟩ := hplace
        obtain ⟨old, hold, rfl⟩ := Option.map_eq_some_iff.mp h
        exact .inr (.inl ⟨old, value, rfl, hhome, hold, rfl⟩)
      next hplace =>
        refine .inr (.inr ⟨h, ?_⟩)
        rintro ⟨_, ⟨⟩, hhome⟩
        exact hplace ⟨rfl, hhome⟩
  | createList elements => exact .inr (.inr ⟨h, by simp⟩)
  | storeElement other address position value => exact .inr (.inr ⟨h, by simp⟩)
  | native other run arguments => exact .inr (.inr ⟨h, by simp⟩)

/-- A slot stays in its place as long as its frame is in use. -/
theorem exists_slotAt?_apply (h : machine.slotAt? index name = some slot)
    (hframe : index < (change.apply machine).scopes.depth) :
    ∃ slot', (change.apply machine).slotAt? index name = some slot' := by
  unfold slotAt? at h ⊢
  cases change with
  | enterBlock => exact ⟨slot, (Scopes.variableAt?_enter _ _ _).trans h⟩
  | enterFunction => exact ⟨slot, (Scopes.variableAt?_enterFunction _ _ _).trans h⟩
  | leaveBlock =>
      have hsuffix := Scopes.inward_leaveBlock_suffix machine.scopes
      exact ⟨slot, (Scopes.variableAt?_of_suffix _ _ hsuffix).trans ((if_pos hframe).trans h)⟩
  | leaveFunction =>
      have hsuffix := Scopes.inward_leaveFunction_suffix machine.scopes
      exact ⟨slot, (Scopes.variableAt?_of_suffix _ _ hsuffix).trans ((if_pos hframe).trans h)⟩
  | declare other slot' given =>
      change ∃ found, (machine.scopes.addVariable other slot').variableAt? index name = some found
      rw [Scopes.variableAt?_addVariable]
      split
      · exact ⟨slot', rfl⟩
      · exact ⟨slot, h⟩
  | declareFunction f => exact ⟨slot, (Scopes.variableAt?_addFunction _ _ _ _ _).trans h⟩
  | store other value =>
      change ∃ found, (machine.scopes.modifyVariable other _).variableAt? index name = some found
      rw [Scopes.variableAt?_modifyVariable, h]
      split
      · exact ⟨_, rfl⟩
      · exact ⟨slot, rfl⟩
  | createList elements => exact ⟨slot, h⟩
  | storeElement other address position value => exact ⟨slot, h⟩
  | native other run arguments => exact ⟨slot, h⟩

end Machine

/-! ## A run of changes -/

/-- What a slot has in common with itself at a later moment. -/
structure Slot.Becomes (slot slot' : Slot) : Prop where
  ty : slot'.ty = slot.ty
  mutable : slot'.mutable = slot.mutable
  isList : slot'.isList = slot.isList
  value : slot.mutable = false → slot'.value = slot.value

theorem Slot.Becomes.trans {first second third : Slot} (h : first.Becomes second)
    (h' : second.Becomes third) : first.Becomes third where
  ty := h'.ty.trans h.ty
  mutable := h'.mutable.trans h.mutable
  isList := h'.isList.trans h.isList
  value himmutable := (h'.value (h.mutable.trans himmutable)).trans (h.value himmutable)

namespace Machine

variable {machine : Machine σ} {change : Change σ} {changes : List (Change σ)}
variable {index : Nat} {name : String} {slot : Slot}

/-- The slot that a value is stored in is the one that was looked at. -/
theorem of_store_permitted {value : Value}
    (hpermitted : (Change.store name value).Permitted machine)
    (hhome : machine.scopes.home? name = some index)
    (hslot : machine.slotAt? index name = some slot) :
    slot.mutable = true ∧ (slot.accepted false).accepts value.ty = true := by
  obtain ⟨found, hfind, hmutable, haccepts⟩ := hpermitted.of_store
  rw [slotAt?, Scopes.variableAt?_of_home? hhome, hfind] at hslot
  cases hslot
  exact ⟨hmutable, haccepts⟩

/-- No slot is declared where one is. -/
theorem slotAt?_of_declare_permitted {given : Bool}
    (hpermitted : (Change.declare name slot given).Permitted machine) :
    machine.slotAt? machine.scopes.currentIndex name = none := by
  obtain ⟨hfree, _⟩ := hpermitted.of_declare
  rw [slotAt?, Scopes.variableAt?_currentIndex]
  simpa [Table.binds] using hfree

theorem exists_becomes_apply (h : machine.slotAt? index name = some slot)
    (hpermitted : change.Permitted machine)
    (hframe : index < (change.apply machine).scopes.depth) :
    ∃ slot', (change.apply machine).slotAt? index name = some slot' ∧ slot.Becomes slot' := by
  obtain ⟨slot', hslot'⟩ := exists_slotAt?_apply h hframe
  refine ⟨slot', hslot', ?_⟩
  rcases slotAt?_apply_cases hslot' with ⟨given, rfl, rfl⟩ | ⟨old, value, rfl, hhome, hold, rfl⟩ |
    ⟨hsame, _⟩
  · -- Where the slot is, none of its name can be declared.
    cases h.symm.trans (slotAt?_of_declare_permitted hpermitted)
  · cases h.symm.trans hold
    obtain ⟨hmutable, _⟩ := of_store_permitted hpermitted hhome hold
    refine ⟨rfl, rfl, rfl, fun himmutable => ?_⟩
    cases hmutable.symm.trans himmutable
  · cases h.symm.trans hsame
    exact ⟨rfl, rfl, rfl, fun _ => rfl⟩

theorem exists_becomes_after (h : machine.slotAt? index name = some slot)
    (hpermits : machine.Permits changes) (hkeeps : machine.KeepsFrame index changes) :
    ∃ slot', (machine.after changes).slotAt? index name = some slot' ∧ slot.Becomes slot' := by
  induction changes using List.reverseRecOn with
  | nil => exact ⟨slot, h, rfl, rfl, rfl, fun _ => rfl⟩
  | append_singleton changes change ih =>
      obtain ⟨hpermits, hpermitted⟩ := (permits_concat _ _ _).mp hpermits
      obtain ⟨hkeeps, hframe⟩ := keepsFrame_concat.mp hkeeps
      obtain ⟨middle, hmiddle, hbecomes⟩ := ih hpermits hkeeps
      obtain ⟨slot', hslot', hbecomes'⟩ :=
        exists_becomes_apply hmiddle hpermitted hframe
      rw [after_append]
      exact ⟨slot', hslot', hbecomes.trans hbecomes'⟩

/-- Among the changes, the slot of the given name in the frame of the given number was declared
without a value, and since then its frame has been in use and no value has been stored in it. -/
def Unset (machine : Machine σ) (changes : List (Change σ)) (index : Nat) (name : String) : Prop :=
  ∃ before slot after, changes = before ++ .declare name slot false :: after ∧
    (machine.after before).scopes.currentIndex = index ∧
    (machine.after (before ++ [.declare name slot false])).KeepsFrame index after ∧
    ¬ (machine.after (before ++ [.declare name slot false])).Assigns index name after

theorem Unset.concat (h : machine.Unset changes index name)
    (hframe : index < (change.apply (machine.after changes)).scopes.depth)
    (hstore : ¬ ∃ value, change = .store name value ∧
      (machine.after changes).scopes.home? name = some index) :
    machine.Unset (changes ++ [change]) index name := by
  obtain ⟨before, slot, after, rfl, hindex, hkeeps, hassigns⟩ := h
  have hafter : (machine.after (before ++ [.declare name slot false])).after after =
      machine.after (before ++ .declare name slot false :: after) := by
    simp
  refine ⟨before, slot, after ++ [change], by simp, hindex, ?_, ?_⟩
  · rw [keepsFrame_concat, hafter]
    exact ⟨hkeeps, hframe⟩
  · rw [assigns_concat, hafter]
    exact not_or.mpr ⟨hassigns, hstore⟩

/-- A slot that is not a list's holds a value that fits it, or it has never got one. -/
theorem accepts_or_unset (hstart : ∀ index name, machine.slotAt? index name = none)
    (hpermits : machine.Permits changes)
    (h : (machine.after changes).slotAt? index name = some slot) (hlist : slot.isList = false) :
    slot.ty.accepts slot.value.ty = true ∨
      slot.value = .nil ∧ machine.Unset changes index name := by
  induction changes using List.reverseRecOn generalizing slot with
  | nil => cases (hstart index name).symm.trans h
  | append_singleton changes change ih =>
      obtain ⟨hpermits, hpermitted⟩ := (permits_concat _ _ _).mp hpermits
      rw [after_append] at h
      have hframe := Scopes.lt_depth_of_variableAt? h
      -- The last change made the slot, stored a value in it, or left it as it was.
      rcases slotAt?_apply_cases h with ⟨given, rfl, hindex⟩ | ⟨old, value, rfl, hhome, hold, rfl⟩ |
        ⟨hsame, hstore⟩
      · rcases hpermitted.of_declare.2.1 hlist with haccepts | ⟨rfl, hnil⟩
        · exact .inl haccepts
        · refine .inr ⟨hnil, changes, slot, [], rfl, hindex, ?_, ?_⟩
          · rw [keepsFrame_nil, after_append]
            exact hframe
          · rintro ⟨part, value, hpart, _⟩
            simp at hpart
      · obtain ⟨_, haccepts⟩ := of_store_permitted hpermitted hhome hold
        rw [Slot.accepted, if_pos hlist] at haccepts
        exact .inl haccepts
      · rcases ih hpermits hsame hlist with haccepts | ⟨hnil, hunset⟩
        · exact .inl haccepts
        · exact .inr ⟨hnil, hunset.concat hframe hstore⟩

end Machine

/-! ## Slots of a run -/

/-- A run begins without variables. -/
theorem Program.Passes.slotAt?_start {p : Program} {builtins : List (Builtin σ)}
    {policy : Division} {start : Machine σ} {history : List (Change σ)}
    (h : p.Passes builtins policy start history) {index : Nat} {name : String} :
    start.slotAt? index name = none := by
  have hstart := Scopes.HostOnly.of_runScopes h.scopes
  rw [Machine.slotAt?, Scopes.variableAt?, Scopes.inward, hstart.blocks, hstart.callers]
  simp only [List.flatten_nil, List.append_nil]
  rw [Frame.variableAt?_concat, hstart.vars]
  split
  · rfl
  · rfl

/-- At every moment of a run, a slot that is not a list's holds a value that fits it, or else nil,
but nil that does not fit only if it was declared without a value and has not been assigned. From a
moment at which it exists, and as long as its frame is in use, a slot keeps its type and whether it
can be assigned and is a list's, and if it cannot be assigned also its value. -/
theorem slots_fit_and_stay {p : Program} {builtins : List (Builtin σ)} {policy : Division}
    {start : Machine σ} {history : List (Change σ)} (h : p.Passes builtins policy start history)
    (index : Nat) (name : String) :
    (∀ slot, (start.after history).slotAt? index name = some slot → slot.isList = false →
      slot.ty.accepts slot.value.ty = true ∨
        slot.value = .nil ∧ start.Unset history index name) ∧
    ∀ before after slot, history = before ++ after →
      (start.after before).slotAt? index name = some slot →
      (start.after before).KeepsFrame index after →
      ∃ slot', (start.after history).slotAt? index name = some slot' ∧
        slot'.ty = slot.ty ∧ slot'.mutable = slot.mutable ∧ slot'.isList = slot.isList ∧
        (slot.mutable = false → slot'.value = slot.value) := by
  constructor
  · intro slot hslot hlist
    exact Machine.accepts_or_unset (fun _ _ => h.slotAt?_start) h.permits hslot hlist
  · rintro before after slot rfl hslot hkeeps
    obtain ⟨_, hpermits⟩ := (Machine.permits_append _ _ _).mp h.permits
    obtain ⟨slot', hslot', hbecomes⟩ := Machine.exists_becomes_after hslot hpermits hkeeps
    rw [Machine.after_append]
    exact ⟨slot', hslot', hbecomes.ty, hbecomes.mutable, hbecomes.isList, hbecomes.value⟩

/-- A local variable without a first value, and a global that cannot be assigned, some changes after
it is made. -/
theorem slots_fit_and_stay_local :
    ∃ (p : Program) (start : Machine Unit) (before after : List (Change Unit)),
      p.Passes [] .unscaled start (before ++ after) ∧ after.length = 3 ∧
      (start.after (before ++ after)).slotAt? 1 "x" =
        some ⟨.nil, .integer, true, false, some (.declaration 2)⟩ ∧
      start.Unset (before ++ after) 1 "x" ∧
      (start.after before).slotAt? 0 "c" =
        some ⟨.integer 3, .integer, false, false, some (.global 1)⟩ ∧
      ∃ slot, (start.after (before ++ after)).slotAt? 0 "c" = some slot ∧
        slot.value = .integer 3 ∧ slot.mutable = false := by
  let p : Program :=
    ⟨[⟨1, "c", "Integer", false, some (.literal 0 (.integer 3))⟩],
      [⟨3, "main", [], [], none, [.declaration 2 "x" (some "Integer") none]⟩]⟩
  let start : Machine Unit := ⟨.empty, .empty, ()⟩
  let changes := (Traced.program .unscaled 2 p start).1
  have hpasses : p.Passes [] .unscaled start (changes.take 1 ++ (changes.drop 1).take 3) := by
    refine ⟨rfl, rfl, 2, ?_⟩
    rw [← List.take_add]
    exact List.take_prefix _ _
  have hlocal : (start.after (changes.take 1 ++ (changes.drop 1).take 3)).slotAt? 1 "x" =
      some ⟨.nil, .integer, true, false, some (.declaration 2)⟩ := by
    decide +kernel
  have hglobal : (start.after (changes.take 1)).slotAt? 0 "c" =
      some ⟨.integer 3, .integer, false, false, some (.global 1)⟩ := by
    decide +kernel
  obtain ⟨slot, hslot, _, hmutable, _, hvalue⟩ := (slots_fit_and_stay hpasses 0 "c").2 _ _ _ rfl
    hglobal fun _ _ => Scopes.depth_pos _
  rcases (slots_fit_and_stay hpasses 1 "x").1 _ hlocal rfl with haccepts | ⟨_, hunset⟩
  · cases haccepts
  · exact ⟨p, start, _, _, hpasses, by decide +kernel, hlocal, hunset, hglobal, slot, hslot,
      hvalue rfl, hmutable⟩

end Scriptlet
