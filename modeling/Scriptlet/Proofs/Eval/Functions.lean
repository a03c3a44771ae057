import Scriptlet.Proofs.Eval.History
import Scriptlet.Proofs.Scope.Contents

/-! # Where functions are declared

Throughout a run, the functions of the host and of the program stand in the global frame, and no
other frame has any.
-/

namespace Scriptlet

variable {σ : Type}

/-- Functions are declared in the global frame only, and those that are not the program's are the
host's. -/
structure Scopes.Plain (builtins : List (Builtin σ)) (scopes : RunScopes σ) : Prop where
  blocks : ∀ frame ∈ scopes.blocks, frame.funs = []
  callers : ∀ blocks ∈ scopes.callers, ∀ frame ∈ blocks, Frame.funs frame = []
  natives : ∀ entry ∈ scopes.globals.funs, ∀ run, entry.2 = .native run →
    ∃ builtin ∈ builtins, builtin.run = run

namespace Scopes

theorem funs_of_modifyIn {V F : Type} {name : String} {change : V → V}
    {frames frames' : List (Frame V F)} (h : modifyIn name change frames = some frames')
    (hfuns : ∀ frame ∈ frames, frame.funs = []) : ∀ frame ∈ frames', frame.funs = [] := by
  induction frames generalizing frames' with
  | nil => cases h
  | cons first rest ih =>
      obtain ⟨hfirst, hrest⟩ := List.forall_mem_cons.mp hfuns
      unfold modifyIn at h
      split at h
      · cases h
        exact List.forall_mem_cons.mpr ⟨hfirst, hrest⟩
      · obtain ⟨rest', hrest', rfl⟩ := Option.map_eq_some_iff.mp h
        exact List.forall_mem_cons.mpr ⟨hfirst, ih hrest' hrest⟩

namespace Plain

variable {builtins : List (Builtin σ)} {scopes : RunScopes σ}

theorem of_hostOnly (h : HostOnly builtins scopes) : Plain builtins scopes := by
  refine ⟨by simp [h.blocks], by simp [h.callers], ?_⟩
  intro entry hentry run hrun
  obtain ⟨builtin, hmem, hnative⟩ := h.funs entry hentry
  exact ⟨builtin, hmem, Callable.native.inj (hnative.symm.trans hrun)⟩

theorem enter (h : Plain builtins scopes) : Plain builtins scopes.enter :=
  ⟨List.forall_mem_cons.mpr ⟨rfl, h.blocks⟩, h.callers, h.natives⟩

theorem leaveBlock (h : Plain builtins scopes) : Plain builtins scopes.leaveBlock :=
  ⟨fun frame hframe => h.blocks frame (List.mem_of_mem_tail hframe), h.callers, h.natives⟩

theorem enterFunction (h : Plain builtins scopes) : Plain builtins scopes.enterFunction :=
  ⟨List.forall_mem_cons.mpr ⟨rfl, by simp⟩, List.forall_mem_cons.mpr ⟨h.blocks, h.callers⟩,
    h.natives⟩

theorem leaveFunction (h : Plain builtins scopes) : Plain builtins scopes.leaveFunction := by
  obtain ⟨blocks, callers, globals⟩ := scopes
  cases callers with
  | nil => exact ⟨by simp [Scopes.leaveFunction], h.callers, h.natives⟩
  | cons caller callers =>
      obtain ⟨hcaller, hcallers⟩ := List.forall_mem_cons.mp h.callers
      exact ⟨hcaller, hcallers, h.natives⟩

theorem addVariable (h : Plain builtins scopes) (name : String) (slot : Slot) :
    Plain builtins (scopes.addVariable name slot) := by
  obtain ⟨blocks, callers, globals⟩ := scopes
  cases blocks with
  | nil => exact ⟨h.blocks, h.callers, h.natives⟩
  | cons block blocks =>
      obtain ⟨hblock, hblocks⟩ := List.forall_mem_cons.mp h.blocks
      exact ⟨List.forall_mem_cons.mpr ⟨hblock, hblocks⟩, h.callers, h.natives⟩

theorem addFunction (h : Plain builtins scopes) (hblocks : scopes.blocks = []) (f : Function) :
    Plain builtins (scopes.addFunction ⟨f.name, f.arity⟩ (.user f)) := by
  obtain ⟨blocks, callers, globals⟩ := scopes
  subst hblocks
  exact ⟨h.blocks, h.callers, List.forall_mem_cons.mpr ⟨nofun, h.natives⟩⟩

theorem modifyVariable (h : Plain builtins scopes) (name : String) (change : Slot → Slot) :
    Plain builtins (scopes.modifyVariable name change) := by
  unfold Scopes.modifyVariable
  split
  next blocks hmodify => exact ⟨funs_of_modifyIn hmodify h.blocks, h.callers, h.natives⟩
  next => exact ⟨h.blocks, h.callers, h.natives⟩

/-- A function is found in the global frame or not at all. -/
theorem findFunction? (h : Plain builtins scopes) (signature : Signature) :
    scopes.findFunction? signature = scopes.globals.funs.value? signature := by
  have hblocks : (scopes.blocks.findSome? fun frame => frame.funs.value? signature) = none := by
    rw [List.findSome?_eq_none_iff]
    intro frame hframe
    rw [h.blocks frame hframe]
    rfl
  simp [Scopes.findFunction?, visible, List.findSome?_append, hblocks]

/-- A function of the host that is found is one that it provides. -/
theorem exists_builtin (h : Plain builtins scopes) {signature : Signature} {run : Native σ}
    (hfind : scopes.findFunction? signature = some (.native run)) :
    ∃ builtin ∈ builtins, builtin.run = run := by
  rw [h.findFunction?] at hfind
  exact h.natives _ (Table.mem_of_value? hfind) run rfl

/-- Only where a block is in use could a function be declared out of place. -/
theorem apply {machine : Machine σ} (h : Plain builtins machine.scopes) {change : Change σ}
    (hplace : ∀ f, change = .declareFunction f → machine.scopes.blocks = []) :
    Plain builtins (change.apply machine).scopes := by
  cases change with
  | enterBlock => exact h.enter
  | leaveBlock => exact h.leaveBlock
  | enterFunction => exact h.enterFunction
  | leaveFunction => exact h.leaveFunction
  | declare name slot given => exact h.addVariable name slot
  | declareFunction f => exact h.addFunction (hplace f rfl) f
  | store name value => exact h.modifyVariable name _
  | createList elements => exact h
  | storeElement name address position value => exact h
  | native name run arguments => exact h

end Plain

end Scopes

/-- Throughout a run, functions are declared in the global frame only. -/
theorem Program.Passes.plain {p : Program} {builtins : List (Builtin σ)} {policy : Division}
    {start : Machine σ} {history : List (Change σ)} (h : p.Passes builtins policy start history) :
    Scopes.Plain builtins (start.after history).scopes := by
  have hstart := Scopes.Plain.of_hostOnly (.of_runScopes h.scopes)
  have hstep (machine : Machine σ) (change : Change σ)
      (hplain : Scopes.Plain builtins machine.scopes) (hpermitted : change.Permitted machine) :
      Scopes.Plain builtins (change.apply machine).scopes := by
    apply hplain.apply
    rintro f rfl
    exact hpermitted.of_declareFunction
  exact h.permits.keeps hstep hstart

end Scriptlet
