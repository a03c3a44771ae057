import Scriptlet.Proofs.Eval.Checked
import Scriptlet.Proofs.Typing.Widening

/-! # The order of functions does not matter to a check

The types of all functions are found before the first body is looked at, and what one body records
does not matter to the others. So a program can be checked with its functions in any order, and the
annotations say the same of every node.
-/

namespace Scriptlet

/-! ## Records of different nodes -/

namespace Annotations

variable {batch first second rest : Annotations} {nodes more : List Node} {id : NodeId}

theorem entry_append_congr (h : first.entry id = second.entry id) :
    (batch ++ first).entry id = (batch ++ second).entry id := by
  simp only [entry, typeOf?_append, declaredTypeOf?_append, variableOf?_append, functionOf?_append,
    typeOf?_eq h, declaredTypeOf?_eq h, variableOf?_eq h, functionOf?_eq h]

/-- Records of some nodes say nothing of others. -/
theorem RecordsOf.entry_append (h : batch.RecordsOf nodes) (hid : ∀ node ∈ nodes, node.id ≠ id) :
    (batch ++ rest).entry id = rest.entry id := by
  have hnone (note : Note) : ¬batch.has id note = true := by
    intro hhas
    obtain ⟨node, hnode, hsame, _⟩ := h id note hhas
    exact hid node hnode hsame
  have htype := Option.not_isSome_iff_eq_none.mp (hnone .type)
  have hdeclared := Option.not_isSome_iff_eq_none.mp (hnone .declaredType)
  have hvariable := Option.not_isSome_iff_eq_none.mp (hnone .variableOrigin)
  have hfunction := Option.not_isSome_iff_eq_none.mp (hnone .functionOrigin)
  simp only [entry, typeOf?_append, declaredTypeOf?_append, variableOf?_append, functionOf?_append,
    htype, hdeclared, hvariable, hfunction, Option.none_or]

/-- Records of different nodes can be made in both orders. -/
theorem RecordsOf.entry_append_swap (hfirst : first.RecordsOf nodes)
    (hsecond : second.RecordsOf more)
    (hapart : ∀ node ∈ nodes, ∀ other ∈ more, node.id ≠ other.id) (id : NodeId) :
    (first ++ (second ++ rest)).entry id = (second ++ (first ++ rest)).entry id := by
  by_cases hid : ∃ node ∈ nodes, node.id = id
  · obtain ⟨node, hnode, rfl⟩ := hid
    have hother : ∀ other ∈ more, other.id ≠ node.id :=
      fun other hmore => (hapart node hnode other hmore).symm
    rw [hsecond.entry_append hother]
    exact entry_append_congr (hsecond.entry_append hother)
  · have hother : ∀ node ∈ nodes, node.id ≠ id := fun node hnode hsame => hid ⟨node, hnode, hsame⟩
    rw [hfirst.entry_append hother]
    exact entry_append_congr (hfirst.entry_append hother).symm

end Annotations

/-! ## Functions in another order -/

/-- No node of one of the functions is one of the other. -/
def Function.Apart (f g : Function) : Prop :=
  ∀ node ∈ f.nodes, ∀ other ∈ g.nodes, node.id ≠ other.id

theorem Function.Apart.symm {f g : Function} (h : f.Apart g) : g.Apart f :=
  fun node hnode other hother => (h other hother node hnode).symm

theorem Program.functions_apart {p : Program} (h : Node.Distinct p.nodes) :
    p.functions.Pairwise Function.Apart := by
  have h : Node.Distinct (p.functions.flatMap Function.nodes) := h.right
  generalize p.functions = functions at h
  induction functions with
  | nil => exact .nil
  | cons f rest ih =>
      rw [List.flatMap_cons] at h
      apply List.pairwise_cons.mpr ⟨_, ih h.right⟩
      intro g hg node hnode other hother hsame
      apply h.disjoint hnode
      rw [hsame]
      exact List.mem_map_of_mem (List.mem_flatMap_of_mem hg hother)

/-- Two states of a check at the top that know the same names and have recorded the same. -/
structure Typing.Reordered (first second : Typing) : Prop where
  top : first.scopes.blocks = []
  scopes : first.scopes.Reordered second.scopes
  entries : ∀ id, first.annotations.entry id = second.annotations.entry id

namespace Typing.Reordered

variable {first second third : Typing}

theorem top' (h : Reordered first second) : second.scopes.blocks = [] :=
  h.scopes.1.blocks.trans h.top

theorem refl {typing : Typing} (htop : typing.scopes.blocks = []) : Reordered typing typing :=
  ⟨htop, .refl _, fun _ => rfl⟩

theorem symm (h : Reordered first second) : Reordered second first :=
  ⟨h.top', h.scopes.symm, fun id => (h.entries id).symm⟩

theorem trans (hfirst : Reordered first second) (hsecond : Reordered second third) :
    Reordered first third :=
  ⟨hfirst.top, hfirst.scopes.trans hsecond.scopes,
    fun id => (hfirst.entries id).trans (hsecond.entries id)⟩

end Typing.Reordered

namespace Check

theorem each_eq_ok {α : Type} {check : α → Check Unit} {items : List α} {typing finish : Typing} :
    each check items typing = .ok () finish ↔
      Chain (fun typing item next => check item typing = .ok () next) typing items finish := by
  induction items generalizing typing with
  | nil =>
      constructor
      · intro h
        cases h
        exact .nil
      · intro h
        cases h
        rfl
  | cons first rest ih =>
      rw [each, bind_eq_ok]
      constructor
      · intro h
        obtain ⟨_, middle, hfirst, hrest⟩ := h
        exact .cons hfirst (ih.mp hrest)
      · intro h
        cases h with
        | cons hfirst hrest => exact ⟨(), _, hfirst, ih.mpr hrest⟩

/-- The types of two functions can be found in both orders. -/
theorem signature_commuting :
    Chain.Commuting (fun typing f next => signature f typing = .ok () next) Typing.Reordered
      Function.Apart where
  symm := Typing.Reordered.symm
  trans := Typing.Reordered.trans
  respect {first second f next} h hok := by
    obtain ⟨info, hdescribed, hfree, rfl⟩ := (signature_eq_ok h.top).mp hok
    rw [← h.scopes.binds_eq] at hfree
    exact ⟨_, (signature_eq_ok h.top').mpr ⟨info, hdescribed, hfree, rfl⟩, h.top,
      h.scopes.withFunction _ _, fun id => Annotations.entry_append_congr (h.entries id)⟩
  swap {start f middle g finish} h hapart hfirst hsecond := by
    obtain ⟨info, hdescribed, hfree, rfl⟩ := (signature_eq_ok h.top).mp hfirst
    have htop (f : Function) (info : FunctionInfo) :
        (start.withFunction f info).scopes.blocks = [] := h.top
    obtain ⟨info', hdescribed', hfree', rfl⟩ := (signature_eq_ok (htop f info)).mp hsecond
    obtain ⟨hne, hfree', hstill⟩ := Scopes.binds_swap hfree hfree'
    refine ⟨_, _, (signature_eq_ok h.top).mpr ⟨info', hdescribed', hfree', rfl⟩,
      (signature_eq_ok (htop g info')).mpr ⟨info, hdescribed, hstill, rfl⟩, h.top,
      start.scopes.withFunction_comm hne info info', ?_⟩
    have hrecord (f : Function) (info : FunctionInfo) :
        (f.record info.returnType).RecordsOf f.nodes :=
      .ofDeclaredType (List.mem_append_right _ List.mem_cons_self) rfl info.returnType
    exact (hrecord g info').entry_append_swap (hrecord f info) hapart.symm

/-- A body is checked from a state with the same names: it makes the same records there, and leaves
the names as they are. -/
theorem body_records {f : Function} {first second next : Typing}
    (h : first.scopes.Reordered second.scopes) (hok : body f first = .ok () next) :
    ∃ next' batch, body f second = .ok () next' ∧ next.scopes = first.scopes ∧
      next'.scopes = second.scopes ∧ batch.RecordsOf f.nodes ∧
      next.annotations = batch ++ first.annotations ∧
      next'.annotations = batch ++ second.annotations := by
  have hwide : first.Widened false second := ⟨h.1, fun hfalse => by cases hfalse⟩
  have hfollows : Follows f.nodes false (body f) first second :=
    body_follows (List.subset_append_left _ _) hwide
  obtain ⟨next', hok', _, batch, hbatch, hfirst, hsecond⟩ := hfollows.of_ok hok
  exact ⟨next', batch, hok', (body_steady f first).of_ok hok, (body_steady f second).of_ok hok',
    hbatch, hfirst, hsecond⟩

/-- Two bodies can be checked in both orders. -/
theorem body_commuting :
    Chain.Commuting (fun typing f next => body f typing = .ok () next) Typing.Reordered
      Function.Apart where
  symm := Typing.Reordered.symm
  trans := Typing.Reordered.trans
  respect {first second f next} h hok := by
    obtain ⟨next', batch, hok', hfirst, hsecond, _, hnotes, hnotes'⟩ := body_records h.scopes hok
    refine ⟨next', hok', ?_, ?_, ?_⟩
    · rw [hfirst]
      exact h.top
    · rw [hfirst, hsecond]
      exact h.scopes
    · intro id
      rw [hnotes, hnotes']
      exact Annotations.entry_append_congr (h.entries id)
  swap {start f middle g finish} h hapart hfirst hsecond := by
    have hmiddle : middle.scopes = start.scopes := (body_steady f start).of_ok hfirst
    have hback : middle.scopes.Reordered start.scopes := hmiddle ▸ .refl _
    obtain ⟨middle', batch', hsecond', hfinish, hmiddle', hbatch', hnotes2, hnotes1'⟩ :=
      body_records hback hsecond
    have hforth : start.scopes.Reordered middle'.scopes := hmiddle' ▸ .refl _
    obtain ⟨finish', batch, hfirst', _, hfinish', hbatch, hnotes1, hnotes2'⟩ :=
      body_records hforth hfirst
    refine ⟨middle', finish', hsecond', hfirst', ?_, ?_, ?_⟩
    · rw [hfinish, hmiddle]
      exact h.top
    · rw [hfinish, hmiddle, hfinish', hmiddle']
      exact .refl _
    · intro id
      rw [hnotes2, hnotes1, hnotes2', hnotes1']
      exact hbatch'.entry_append_swap hbatch hapart.symm id

/-- A program goes through with its functions in any order, and the same is recorded. -/
theorem program_reorder {p : Program} {functions : List Function} {typing finish : Typing}
    (hperm : p.functions.Perm functions) (hapart : p.functions.Pairwise Function.Apart)
    (htop : typing.scopes.blocks = []) (hok : program p typing = .ok () finish) :
    ∃ finish', program { p with functions } typing = .ok () finish' ∧
      Typing.Reordered finish finish' := by
  obtain ⟨_, m1, hglobals, hok⟩ := bind_eq_ok.mp hok
  obtain ⟨_, m2, hsignatures, hok⟩ := bind_eq_ok.mp hok
  obtain ⟨_, m3, hmain, hbodies⟩ := bind_eq_ok.mp hok
  have hcomposed : Composed p.nodes false (each global p.globals) :=
    .globals p.globals fun g hg _ hnode => Program.mem_nodes_of_global hg hnode
  have htop1 := (top_of_growing hcomposed.growing htop hglobals).1
  obtain ⟨m2', hsignatures', hreordered⟩ := signature_commuting.perm Function.Apart.symm hperm
    hapart (.refl htop1) (each_eq_ok.mp hsignatures)
  obtain ⟨rfl, info, id, hfind, horigin, hreturn⟩ := (hasMain_gives m2).of_ok hmain
  have hmain' : hasMain m2' = .ok () m2' :=
    hasMain_of_find (hreordered.scopes.1.findFunction?_eq_some hfind) horigin hreturn
  obtain ⟨finish', hbodies', hfinish⟩ := body_commuting.perm Function.Apart.symm hperm hapart
    hreordered (each_eq_ok.mp hbodies)
  refine ⟨finish', ?_, hfinish⟩
  exact bind_eq_ok.mpr ⟨(), m1, hglobals, bind_eq_ok.mpr ⟨(), m2', each_eq_ok.mpr hsignatures',
    bind_eq_ok.mpr ⟨(), m2', hmain', each_eq_ok.mpr hbodies'⟩⟩⟩

end Check

theorem Program.check_reorder {σ : Type} {p : Program} {functions : List Function}
    {builtins : List (Builtin σ)} {notes : Annotations} (hperm : p.functions.Perm functions)
    (hapart : p.functions.Pairwise Function.Apart) (h : p.check builtins = .ok notes) :
    ∃ notes', Program.check { p with functions } builtins = .ok notes' ∧
      ∀ id, notes.entry id = notes'.entry id := by
  obtain ⟨start, finish, hstart, hok, rfl⟩ := Program.check_eq_ok.mp h
  have htop : (Typing.start start).scopes.blocks = [] :=
    (Builtin.atTop_of_staticScopes hstart).blocks
  obtain ⟨finish', hok', hreordered⟩ := Check.program_reorder hperm hapart htop hok
  exact ⟨_, Program.check_eq_ok.mpr ⟨start, finish', hstart, hok', rfl⟩, hreordered.entries⟩

end Scriptlet
