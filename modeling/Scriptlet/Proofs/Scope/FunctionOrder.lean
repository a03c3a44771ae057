import Scriptlet.Proofs.Chain
import Scriptlet.Proofs.Scope.Widening

/-! # Functions declared one after the other

Functions are declared in the global frame as long as their signatures are different. So they can be
declared in any order, one more function can be declared among them if its signature is new, and
what goes wrong otherwise names a signature that two of them have.
-/

namespace Scriptlet.Scopes

variable {V F α : Type} (signature : α → Signature) (value : α → F)

/-- The item declares its function. -/
def Declares (scopes : Scopes V F) (item : α) (next : Scopes V F) : Prop :=
  scopes.declareFunction (signature item) (value item) = .ok next

variable {signature value} {scopes scopes' : Scopes V F} {items : List α}

theorem declares_iff_of_top (htop : scopes.blocks = []) {item : α} :
    Declares signature value scopes item scopes' ↔
      scopes.globals.funs.binds (signature item) = false ∧
        scopes' = scopes.withFunction (signature item) (value item) :=
  declareFunction_eq_ok_of_top htop

/-- Only the global frame is in use, and the functions are the same. -/
def TopReordered (first second : Scopes V F) : Prop :=
  first.blocks = [] ∧ Reordered first second

theorem declares_commuting :
    Chain.Commuting (Declares signature value : Scopes V F → α → Scopes V F → Prop) TopReordered
      fun _ _ => True where
  symm h := ⟨h.2.1.blocks.trans h.1, h.2.symm⟩
  trans hfirst hsecond := ⟨hfirst.1, hfirst.2.trans hsecond.2⟩
  respect {first second item next} h hdeclares := by
    obtain ⟨hfree, rfl⟩ := (declares_iff_of_top h.1).mp hdeclares
    rw [← h.2.binds_eq] at hfree
    have htop : second.blocks = [] := h.2.1.blocks.trans h.1
    exact ⟨_, (declares_iff_of_top htop).mpr ⟨hfree, rfl⟩, h.1, h.2.withFunction _ _⟩
  swap {start item middle other finish} h _ hfirst hsecond := by
    obtain ⟨hfree, rfl⟩ := (declares_iff_of_top h.1).mp hfirst
    have htop (item : α) : (start.withFunction (signature item) (value item)).blocks = [] := h.1
    obtain ⟨hother, rfl⟩ := (declares_iff_of_top (htop item)).mp hsecond
    obtain ⟨hne, hother, hitem⟩ := binds_swap hfree hother
    exact ⟨_, _, (declares_iff_of_top h.1).mpr ⟨hother, rfl⟩,
      (declares_iff_of_top (htop other)).mpr ⟨hitem, rfl⟩, h.1, start.withFunction_comm hne _ _⟩

/-! ## What declarations leave -/

theorem top_of_chain (htop : scopes.blocks = [])
    (h : Chain (Declares signature value) scopes items scopes') : scopes'.blocks = [] := by
  apply (h.preserves htop _).1
  intro before after item _ hbefore hdeclares
  obtain ⟨_, rfl⟩ := (declares_iff_of_top hbefore).mp hdeclares
  exact hbefore

/-- The functions of the global frame after declarations. -/
theorem binds_of_chain (htop : scopes.blocks = [])
    (h : Chain (Declares signature value) scopes items scopes') (other : Signature) :
    scopes'.globals.funs.binds other = true ↔
      scopes.globals.funs.binds other = true ∨ ∃ item ∈ items, signature item = other := by
  induction h with
  | nil => simp
  | cons hfirst _ ih =>
      obtain ⟨_, rfl⟩ := (declares_iff_of_top htop).mp hfirst
      rw [ih htop, binds_withFunction]
      simp [or_assoc, or_left_comm]

/-- Functions that can be declared one after the other have new and different signatures. -/
theorem nodup_of_chain (htop : scopes.blocks = [])
    (h : Chain (Declares signature value) scopes items scopes') :
    (items.map signature).Nodup ∧
      ∀ item ∈ items, scopes.globals.funs.binds (signature item) = false := by
  induction h with
  | nil => exact ⟨List.nodup_nil, by simp⟩
  | cons hfirst _ ih =>
      obtain ⟨hfree, rfl⟩ := (declares_iff_of_top htop).mp hfirst
      obtain ⟨hnodup, hlater⟩ := ih htop
      simp only [binds_withFunction, Bool.or_eq_false_iff, decide_eq_false_iff_not] at hlater
      rw [List.map_cons, List.nodup_cons, List.forall_mem_cons]
      refine ⟨⟨?_, hnodup⟩, hfree, fun item hitem => (hlater item hitem).2⟩
      intro hmem
      obtain ⟨item, hitem, hsame⟩ := List.mem_map.mp hmem
      exact (hlater item hitem).1 hsame.symm

/-! ## One more function -/

/-- The scopes that have the functions of the items, which are declared one after the other. -/
abbrev declareAll (signature : α → Signature) (value : α → F) (items : List α) :
    Except Cause (Scopes V F) :=
  items.foldlM (fun scopes item => scopes.declareFunction (signature item) (value item)) .empty

theorem declareAll_eq_ok : declareAll signature value items = .ok scopes ↔
    Chain (Declares signature value) .empty items scopes :=
  foldlM_eq_ok

theorem binds_of_declareAll (h : declareAll signature value items = .ok scopes)
    (other : Signature) :
    scopes.globals.funs.binds other = true ↔ ∃ item ∈ items, signature item = other := by
  rw [binds_of_chain rfl (declareAll_eq_ok.mp h)]
  simp [Scopes.empty, Frame.empty, Table.binds]

/-- What goes wrong with declarations names a signature that two of the items have. -/
theorem exists_clash {cause : Cause}
    (h : (declareAll signature value items : Except Cause (Scopes V F)) = .error cause) :
    ∃ before item after, items = before ++ item :: after ∧
      cause = .functionAlreadyDeclared (signature item).name (signature item).arity ∧
      ∃ other ∈ before, signature other = signature item := by
  obtain ⟨before, item, after, middle, hitems, hchain, herror⟩ := exists_chain_of_foldlM_error h
  have htop := top_of_chain rfl hchain
  refine ⟨before, item, after, hitems, ?_⟩
  cases hbinds : middle.globals.funs.binds (signature item) with
  | true =>
      rw [declareFunction_eq_error_of_top htop hbinds] at herror
      exact ⟨(Except.error.inj herror).symm,
        (binds_of_declareAll (declareAll_eq_ok.mpr hchain) _).mp hbinds⟩
  | false =>
      rw [(declareFunction_eq_ok_of_top htop).mpr ⟨hbinds, rfl⟩] at herror
      cases herror

theorem Widened.withNew (scopes : Scopes V F) {signature : Signature} (value : F)
    (hnew : scopes.globals.funs.binds signature = false) :
    Widened scopes (scopes.withFunction signature value) where
  blocks := rfl
  callers := rfl
  vars := rfl
  funs other found hfound := by
    have hne : signature ≠ other := by
      intro hsame
      rw [hsame, Table.binds, hfound] at hnew
      cases hnew
    rw [Scopes.withFunction, Table.value?_bind, if_neg hne]
    exact hfound

variable {extra : α} {items' : List α} (hperm : (extra :: items).Perm items')
include hperm

/-- A function with a new signature can be declared anywhere among others, and the scopes are the
wider by it. -/
theorem exists_declareAll_of_new (h : declareAll signature value items = .ok scopes)
    (hnew : ¬∃ item ∈ items, signature item = signature extra) :
    ∃ wide, declareAll signature value items' = .ok wide ∧ Widened scopes wide ∧
      ∀ other, wide.globals.funs.binds other =
        (decide (signature extra = other) || scopes.globals.funs.binds other) := by
  rw [← binds_of_declareAll h, Bool.not_eq_true] at hnew
  have hchain := declareAll_eq_ok.mp h
  have hlast : Declares signature value scopes extra _ :=
    (declares_iff_of_top (top_of_chain rfl hchain)).mpr ⟨hnew, rfl⟩
  have hperm : (items ++ [extra]).Perm items' :=
    (List.perm_append_singleton extra items).trans hperm
  obtain ⟨wide, hchain', hreordered⟩ := declares_commuting.perm (fun _ => trivial) hperm
    (List.pairwise_of_forall fun _ _ => trivial) ⟨rfl, .refl .empty⟩ (hchain.concat hlast)
  refine ⟨wide, declareAll_eq_ok.mpr hchain', ?_, ?_⟩
  · exact (Widened.withNew scopes _ hnew).trans hreordered.2.1
  · intro other
    rw [hreordered.2.binds_eq, binds_withFunction]

/-- Of items with different signatures and one more, only that one has a signature twice. -/
theorem signature_eq_of_twice {before after : List α} {item : α}
    (hnodup : (items.map signature).Nodup) (hitems : items' = before ++ item :: after)
    (hbefore : ∃ other ∈ before, signature other = signature item) :
    signature item = signature extra := by
  have hcount := (hperm.map signature).count_eq (signature item)
  have hfirst : 0 < (before.map signature).count (signature item) :=
    List.count_pos_iff.mpr (List.mem_map.mpr hbefore)
  have honce := List.nodup_iff_count.mp hnodup (signature item)
  by_cases hsame : signature extra = signature item
  · exact hsame.symm
  · rw [hitems, List.map_cons, List.count_cons_of_ne hsame, List.map_append, List.count_append,
      List.map_cons, List.count_cons_self] at hcount
    omega

/-- A function whose signature is taken cannot be declared anywhere among others. -/
theorem declareAll_eq_error_of_clash (h : declareAll signature value items = .ok scopes)
    (hclash : ∃ item ∈ items, signature item = signature extra) :
    (declareAll signature value items' : Except Cause (Scopes V F)) =
      .error (.functionAlreadyDeclared (signature extra).name (signature extra).arity) := by
  have hnodup := (nodup_of_chain rfl (declareAll_eq_ok.mp h)).1
  cases hfold : (declareAll signature value items' : Except Cause (Scopes V F)) with
  | ok wide =>
      have hnodup' := (nodup_of_chain rfl (declareAll_eq_ok.mp hfold)).1
      rw [← (hperm.map signature).nodup_iff, List.map_cons, List.nodup_cons] at hnodup'
      exact absurd (List.mem_map.mpr hclash) hnodup'.1
  | error cause =>
      obtain ⟨before, item, after, hitems, rfl, htwice⟩ := exists_clash hfold
      rw [signature_eq_of_twice hperm hnodup hitems htwice]

end Scriptlet.Scopes
