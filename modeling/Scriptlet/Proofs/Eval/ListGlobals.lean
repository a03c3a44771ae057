import Mathlib.Data.List.Nodup
import Scriptlet.Proofs.Eval.Checked
import Scriptlet.Proofs.Eval.Functions
import Scriptlet.Proofs.Eval.GlobalDeclarations
import Scriptlet.Proofs.Eval.SlotHistory

/-! # Lists of globals

A global that is declared with a list takes elements of its type only. But other variables can come
to hold the same list, and those take what fits them: the list of a global holds elements of the
type of the global except for those that were put into it by other variables.
-/

namespace Scriptlet

variable {σ : Type}

/-- The function changes no lists but those that its host has made, and the lists that its host has
made are new when they become so: `made` says which they are. -/
structure Builtin.Spares (made : σ → Address → Prop) (builtin : Builtin σ) : Prop where
  grows : ∀ arguments heap host, heap.size ≤ (builtin.run arguments heap host).2.1.size
  untouched : ∀ arguments heap host, ∀ address < heap.size, ¬ made host address →
    (builtin.run arguments heap host).2.1.elements address = heap.elements address
  made : ∀ arguments heap host address, made (builtin.run arguments heap host).2.2 address →
    made host address ∨
      heap.size ≤ address ∧ address < (builtin.run arguments heap host).2.1.size

theorem Builtin.spares_print (sink : String → σ → σ) : (print sink).Spares fun _ _ => False := by
  refine ⟨?_, ?_, ?_⟩
  · intro arguments heap host
    cases arguments <;> exact Nat.le_refl _
  · intro arguments heap host address _ _
    cases arguments <;> rfl
  · intro arguments heap host address hmade
    exact hmade.elim

namespace Machine

/-- Every value that the changes store in the global of the given name is a list. -/
def AssignsLists (machine : Machine σ) (name : String) (changes : List (Change σ)) : Prop :=
  ∀ part value, part ++ [.store name value] <+: changes →
    (machine.after part).scopes.home? name = some 0 → ∃ address, value = .list address

/-- The element was the last to be put at its position of the list, and this was done by a variable
that held the list and was not the global of the given name. -/
def PutByOther (machine : Machine σ) (changes : List (Change σ)) (name : String)
    (address : Address) (position : Nat) (element : Value) : Prop :=
  ∃ part via rest slot, changes = part ++ .storeElement via address position element :: rest ∧
    (machine.after part).scopes.findVariable? via = some slot ∧ slot.value = .list address ∧
    ¬ (via = name ∧ (machine.after part).scopes.home? via = some 0) ∧
    ∀ other value, .storeElement other address position value ∉ rest

end Machine

/-! ## One change -/

/-- Most changes leave the lists and the host alone. -/
theorem Change.heap_apply_cases (machine : Machine σ) (change : Change σ) :
    ((change.apply machine).heap = machine.heap ∧ (change.apply machine).host = machine.host ∧
      ∀ name address position value, change ≠ .storeElement name address position value) ∨
    (∃ elements, change = .createList elements) ∨
    (∃ name address position value, change = .storeElement name address position value) ∨
    ∃ name run arguments, change = .native name run arguments := by
  cases change with
  | createList elements => exact .inr (.inl ⟨elements, rfl⟩)
  | storeElement name address position value =>
      exact .inr (.inr (.inl ⟨name, address, position, value, rfl⟩))
  | native name run arguments => exact .inr (.inr (.inr ⟨name, run, arguments, rfl⟩))
  | _ => exact .inl ⟨rfl, rfl, by simp⟩

section

variable {made : σ → Address → Prop} {builtins : List (Builtin σ)}
variable {machine : Machine σ} {change : Change σ} {address : Address}

/-- The lists that the host has made are there. -/
theorem lt_size_of_made_apply (hspares : ∀ builtin ∈ builtins, builtin.Spares made)
    (hplain : Scopes.Plain builtins machine.scopes) (hpermitted : change.Permitted machine)
    (h : ∀ address, made machine.host address → address < machine.heap.size)
    (hmade : made (change.apply machine).host address) :
    address < (change.apply machine).heap.size := by
  rcases change.heap_apply_cases machine with ⟨hheap, hhost, _⟩ | ⟨elements, rfl⟩ |
    ⟨name, other, position, value, rfl⟩ | ⟨name, run, arguments, rfl⟩
  · rw [hheap]
    rw [hhost] at hmade
    exact h address hmade
  · have hsize := Heap.size_create machine.heap elements.toArray
    exact Nat.lt_of_lt_of_eq (Nat.lt_succ_of_lt (h address hmade)) hsize.symm
  · exact Nat.lt_of_lt_of_eq (h address hmade) (Heap.size_modify _ _ _).symm
  · obtain ⟨builtin, hmem, rfl⟩ := hplain.exists_builtin hpermitted.of_native
    have hspare := hspares builtin hmem
    rcases hspare.made arguments machine.heap machine.host address hmade with hold | ⟨_, hnew⟩
    · exact Nat.lt_of_lt_of_le (h address hold)
        (hspare.grows arguments machine.heap machine.host)
    · exact hnew

/-- What can happen to a list that the host has not made: one of its elements is replaced. -/
theorem elements_apply_cases (hspares : ∀ builtin ∈ builtins, builtin.Spares made)
    (hplain : Scopes.Plain builtins machine.scopes) (hpermitted : change.Permitted machine)
    (hpresent : address < machine.heap.size) (hown : ¬ made machine.host address) :
    address < (change.apply machine).heap.size ∧ ¬ made (change.apply machine).host address ∧
    ((∀ name position value, change ≠ .storeElement name address position value) ∧
        (change.apply machine).heap.elements address = machine.heap.elements address ∨
      ∃ name position value, change = .storeElement name address position value ∧
        (change.apply machine).heap.elements address =
          (machine.heap.elements address).setIfInBounds position value) := by
  rcases change.heap_apply_cases machine with ⟨hheap, hhost, hchange⟩ | ⟨elements, rfl⟩ |
    ⟨name, other, position, value, rfl⟩ | ⟨name, run, arguments, rfl⟩
  · rw [hheap, hhost]
    exact ⟨hpresent, hown, .inl ⟨fun name => hchange name address, rfl⟩⟩
  · have hsize := Heap.size_create machine.heap elements.toArray
    exact ⟨Nat.lt_of_lt_of_eq (Nat.lt_succ_of_lt hpresent) hsize.symm, hown,
      .inl ⟨by simp, Heap.elements_create_of_lt _ _ hpresent⟩⟩
  · obtain ⟨_, _, _, _, hposition⟩ := hpermitted.of_storeElement
    have helements := Heap.elements_modify machine.heap other address
      (fun elements => elements.setIfInBounds position value) (Heap.lt_size_of_lt hposition)
    refine ⟨Nat.lt_of_lt_of_eq hpresent (Heap.size_modify _ _ _).symm, hown, ?_⟩
    by_cases hother : other = address
    · subst hother
      exact .inr ⟨name, position, value, rfl, helements.trans (if_pos rfl)⟩
    · refine .inl ⟨?_, helements.trans (if_neg hother)⟩
      rintro _ _ _ ⟨⟩
      exact hother rfl
  · obtain ⟨builtin, hmem, rfl⟩ := hplain.exists_builtin hpermitted.of_native
    have hspare := hspares builtin hmem
    have hgrows := hspare.grows arguments machine.heap machine.host
    refine ⟨Nat.lt_of_lt_of_le hpresent hgrows, ?_,
      .inl ⟨by simp, hspare.untouched arguments machine.heap machine.host address hpresent hown⟩⟩
    intro hmade
    rcases hspare.made arguments machine.heap machine.host address hmade with hold | ⟨hnew, _⟩
    · exact hown hold
    · -- What the host makes in this call was not there before.
      exact absurd hpresent (Nat.not_lt.mpr hnew)

end

/-! ## A run of changes -/

namespace Machine

variable {made : σ → Address → Prop} {builtins : List (Builtin σ)} {start : Machine σ}
variable {history : List (Change σ)} {change : Change σ} {name : String}
variable {slot : Slot} {address : Address} {position : Nat} {element : Value}

theorem PutByOther.concat (h : start.PutByOther history name address position element)
    (hchange : ∀ other value, change ≠ .storeElement other address position value) :
    start.PutByOther (history ++ [change]) name address position element := by
  obtain ⟨part, via, rest, slot, rfl, hfind, hvalue, hother, hlast⟩ := h
  refine ⟨part, via, rest ++ [change], slot, by simp, hfind, hvalue, hother, ?_⟩
  intro other value hmem
  rcases List.mem_append.mp hmem with hmem | hmem
  · exact hlast other value hmem
  · exact hchange other value (List.mem_singleton.mp hmem).symm

/-- The slot of a global holds a list that the host has not made, with elements that fit it or that
were put there by other variables. -/
structure OwnsList (made : σ → Address → Prop) (start : Machine σ) (history : List (Change σ))
    (name : String) (slot : Slot) (address : Address) : Prop where
  isList : slot.isList = true
  value : slot.value = .list address
  present : address < (start.after history).heap.size
  own : ¬ made (start.after history).host address
  elements : ∀ position element,
    ((start.after history).heap.elements address)[position]? = some element →
      slot.ty.accepts element.ty = true ∨
        start.PutByOther history name address position element

/-- What is put into the list by the name of the global fits the slot, and all else that is put into
it is put there by another variable. -/
theorem OwnsList.storeElement (h : start.OwnsList made history name slot address)
    (hslot : (start.after history).slotAt? 0 name = some slot) {via : String}
    (hpermitted : (Change.storeElement via address position element).Permitted
      (start.after history)) :
    slot.ty.accepts element.ty = true ∨
      start.PutByOther (history ++ [.storeElement via address position element]) name address
        position element := by
  obtain ⟨found, hfind, hvalue, haccepts, _⟩ := hpermitted.of_storeElement
  -- A local variable of the same name is another variable, hence the frame.
  by_cases hvia : via = name ∧ (start.after history).scopes.home? via = some 0
  · obtain ⟨rfl, hhome⟩ := hvia
    rw [slotAt?, Scopes.variableAt?_of_home? hhome, hfind] at hslot
    cases hslot
    rw [Slot.accepted, if_pos h.isList] at haccepts
    exact .inl haccepts
  · exact .inr ⟨history, via, [], found, rfl, hfind, hvalue, hvia, by simp⟩

theorem OwnsList.concat (hspares : ∀ builtin ∈ builtins, builtin.Spares made)
    (hplain : Scopes.Plain builtins (start.after history).scopes)
    (hpermitted : change.Permitted (start.after history))
    (hslot : (start.after history).slotAt? 0 name = some slot)
    (h : start.OwnsList made history name slot address) :
    start.OwnsList made (history ++ [change]) name slot address := by
  obtain ⟨hpresent, hown, hcases⟩ :=
    elements_apply_cases hspares hplain hpermitted h.present h.own
  have hafter : start.after (history ++ [change]) = change.apply (start.after history) := by
    simp
  refine ⟨h.isList, h.value, hafter ▸ hpresent, hafter ▸ hown, ?_⟩
  intro position element helement
  rw [hafter] at helement
  rcases hcases with ⟨hchange, hsame⟩ | ⟨via, place, value, rfl, hset⟩
  · rw [hsame] at helement
    rcases h.elements position element helement with haccepts | hput
    · exact .inl haccepts
    · exact .inr (hput.concat fun other value => hchange other position value)
  rw [hset, Array.getElem?_setIfInBounds] at helement
  split at helement
  next hplace =>
    subst hplace
    split at helement
    · cases helement
      exact h.storeElement hslot hpermitted
    · cases helement
  next hplace =>
    rcases h.elements position element helement with haccepts | hput
    · exact .inl haccepts
    · refine .inr (hput.concat ?_)
      rintro other value ⟨⟩
      exact hplace rfl

end Machine

/-! ## Names of globals -/

/-- The global frame is the current one only where no block is in use. -/
theorem Scopes.blocks_of_currentIndex {V F : Type} {scopes : Scopes V F}
    (h : scopes.currentIndex = 0) : scopes.blocks = [] := by
  cases hblocks : scopes.blocks with
  | nil => rfl
  | cons block blocks =>
      rw [currentIndex, depth_eq] at h
      simp [isGlobal, hblocks] at h

/-- Globals that are declared one after the other have different names. -/
theorem Global.nodup_of_chain {notes : Annotations} {scopes scopes' : StaticScopes}
    {globals : List Global} (h : Chain (Global.Typed notes) scopes globals scopes') :
    (∀ g ∈ globals, scopes.current.vars.binds g.name = false) ∧
      (globals.map Global.name).Nodup := by
  induction h with
  | nil => exact ⟨nofun, .nil⟩
  | cons hfirst _ ih =>
      obtain ⟨_, _, _, hdeclare⟩ := hfirst
      obtain ⟨hfree, rfl⟩ := Scopes.declareVariable_eq_ok.mp hdeclare
      rw [Scopes.current_setCurrent] at ih
      obtain ⟨hrest, hnodup⟩ := ih
      simp only [Table.binds, Table.value?_bind] at hrest
      refine ⟨List.forall_mem_cons.mpr ⟨hfree, ?_⟩, List.nodup_cons.mpr ⟨?_, hnodup⟩⟩
      · intro g hg
        have hbinds := hrest g hg
        split at hbinds
        · cases hbinds
        · exact hbinds
      · intro hmem
        obtain ⟨g, hg, hname⟩ := List.mem_map.mp hmem
        have hbinds := hrest g hg
        rw [if_pos hname.symm] at hbinds
        cases hbinds

theorem Checked.nodup_globals {builtins : List (Builtin σ)} {p : Program} {notes : Annotations}
    (h : Checked builtins p notes) : (p.globals.map Global.name).Nodup := by
  obtain ⟨_, _, _, _, htyped⟩ := Program.typed_of_check h.checked h.distinct h.parameters
  exact (Global.nodup_of_chain htyped.globals).2

/-! ## Lists of a run -/

namespace Program

variable {p : Program} {builtins : List (Builtin σ)} {policy : Division} {start : Machine σ}
variable {history : List (Change σ)} {made : σ → Address → Prop}

theorem Passes.of_append {later : List (Change σ)}
    (h : p.Passes builtins policy start (history ++ later)) :
    p.Passes builtins policy start history := by
  obtain ⟨limit, hprefix⟩ := h.changes
  exact ⟨h.scopes, h.heap, limit, (List.prefix_append history later).trans hprefix⟩

theorem Passes.lt_size_of_made (h : p.Passes builtins policy start history)
    (hspares : ∀ builtin ∈ builtins, builtin.Spares made)
    (hstart : ∀ address, ¬ made start.host address) {address : Address}
    (hmade : made (start.after history).host address) :
    address < (start.after history).heap.size := by
  induction history using List.reverseRecOn generalizing address with
  | nil => exact absurd hmade (hstart address)
  | append_singleton history change ih =>
      obtain ⟨_, hpermitted⟩ := (Machine.permits_concat _ _ _).mp h.permits
      rw [Machine.after_append] at hmade ⊢
      exact lt_size_of_made_apply hspares h.of_append.plain hpermitted
        (fun _ hmade => ih h.of_append hmade) hmade

/-- The slot of a global is made with a list that is its own. -/
theorem Passes.ownsList_of_declare (hnames : (p.globals.map Global.name).Nodup)
    (hspares : ∀ builtin ∈ builtins, builtin.Spares made)
    (hstart : ∀ address, ¬ made start.host address) {g : Global} (hg : g ∈ p.globals)
    (hlist : g.isList = true) {slot : Slot} {given : Bool}
    (h : p.Passes builtins policy start (history ++ [.declare g.name slot given]))
    (hindex : (start.after history).scopes.currentIndex = 0) :
    Ty.ofName g.typeName = .ok slot.ty ∧
      ∃ address, start.OwnsList made (history ++ [.declare g.name slot given]) g.name slot
        address := by
  obtain ⟨_, hpermitted⟩ := (Machine.permits_concat _ _ _).mp h.permits
  obtain ⟨_, _, helements⟩ := hpermitted.of_declare
  obtain ⟨id, horigin⟩ :=
    hpermitted.exists_global_of_declare (Scopes.blocks_of_currentIndex hindex)
  obtain ⟨g', hg', _, hname, hislist, hty, hfresh⟩ :=
    h.declaresGlobals history _ g.name slot id List.prefix_rfl rfl horigin
  cases List.inj_on_of_nodup_map hnames hg' hg hname
  obtain ⟨earlier, elements, rfl, hvalue⟩ := hfresh hlist
  have hslot : slot.isList = true := hislist.trans hlist
  refine ⟨hty, _, hslot, hvalue, ?_, ?_, ?_⟩
  · rw [Machine.after_append, Machine.after_append]
    exact Nat.lt_of_lt_of_eq (Nat.lt_succ_self _) (Heap.size_create _ _).symm
  · -- The list is made after all that the host has made so far.
    rw [Machine.after_append, Machine.after_append]
    intro hmade
    exact Nat.lt_irrefl _ (h.of_append.of_append.lt_size_of_made hspares hstart hmade)
  · intro position element helement
    rw [Machine.after_append] at helement
    exact .inl (helements _ hslot hvalue element (Array.mem_of_getElem? helement))

/-- Until a list is assigned to it, a global owns the list that it was made with. -/
theorem Passes.assigns_or_ownsList (hnames : (p.globals.map Global.name).Nodup)
    (h : p.Passes builtins policy start history)
    (hspares : ∀ builtin ∈ builtins, builtin.Spares made)
    (hstart : ∀ address, ¬ made start.host address) {g : Global} (hg : g ∈ p.globals)
    (hlist : g.isList = true) {slot : Slot}
    (hslot : (start.after history).slotAt? 0 g.name = some slot)
    (hassigned : start.AssignsLists g.name history) :
    Ty.ofName g.typeName = .ok slot.ty ∧ ∃ address, slot.value = .list address ∧
      (start.Assigns 0 g.name history ∨ start.OwnsList made history g.name slot address) := by
  induction history using List.reverseRecOn generalizing slot with
  | nil => cases h.slotAt?_start.symm.trans hslot
  | append_singleton history change ih =>
      obtain ⟨_, hpermitted⟩ := (Machine.permits_concat _ _ _).mp h.permits
      have hbefore : start.AssignsLists g.name history := fun part value hpart =>
        hassigned part value (hpart.trans (List.prefix_append _ _))
      rw [Machine.after_append] at hslot
      rcases Machine.slotAt?_apply_cases hslot with ⟨given, rfl, hindex⟩ |
        ⟨old, value, rfl, hhome, hold, rfl⟩ | ⟨hsame, _⟩
      · obtain ⟨hty, address, howns⟩ :=
          Passes.ownsList_of_declare hnames hspares hstart hg hlist h hindex
        exact ⟨hty, address, howns.value, .inr howns⟩
      · -- The new list may have any elements, so nothing is left to say of them.
        obtain ⟨hty, _⟩ := ih h.of_append hold hbefore
        obtain ⟨address, rfl⟩ := hassigned history value List.prefix_rfl hhome
        exact ⟨hty, address, rfl, .inl (Machine.assigns_concat.mpr (.inr ⟨_, rfl, hhome⟩))⟩
      · obtain ⟨hty, address, hvalue, hcases⟩ := ih h.of_append hsame hbefore
        refine ⟨hty, address, hvalue, ?_⟩
        rcases hcases with hassigns | howns
        · exact .inl (Machine.assigns_concat.mpr (.inl hassigns))
        · exact .inr (howns.concat hspares h.of_append.plain hpermitted hsame)

end Program

/-- In a run of a checked program whose host changes no lists but its own, a global that is declared
with a list, and that nothing but lists has been assigned to, holds a list. Unless one has been
assigned to it, every element of the list is of the type of the global, or was put there by another
variable that held the list. -/
theorem list_global_holds {text : String} {builtins : List (Builtin σ)} {p : Program}
    {notes : Annotations} (hcheck : check text builtins = .ok (p, notes)) {policy : Division}
    {start : Machine σ} {history : List (Change σ)} (h : p.Passes builtins policy start history)
    {made : σ → Address → Prop} (hspares : ∀ builtin ∈ builtins, builtin.Spares made)
    (hstart : ∀ address, ¬ made start.host address)
    {g : Global} (hg : g ∈ p.globals) (hlist : g.isList = true) {slot : Slot}
    (hslot : (start.after history).slotAt? 0 g.name = some slot)
    (hassigned : start.AssignsLists g.name history) :
    Ty.ofName g.typeName = .ok slot.ty ∧
    ∃ address, slot.value = .list address ∧
      (start.Assigns 0 g.name history ∨
        ∀ position element,
          ((start.after history).heap.elements address)[position]? = some element →
          slot.ty.accepts element.ty = true ∨
            start.PutByOther history g.name address position element) := by
  obtain ⟨hty, address, hvalue, hcases⟩ := Program.Passes.assigns_or_ownsList
    (checked_of_check hcheck).nodup_globals h hspares hstart hg hlist hslot hassigned
  exact ⟨hty, address, hvalue, hcases.imp_right fun howns => howns.elements⟩

/-- A list of integers that a string is put into by a local variable that holds the same list, and
another integer by its own name. -/
theorem list_global_holds_shared :
    ∃ (text : String) (p : Program) (notes : Annotations) (start : Machine (List String))
      (history : List (Change (List String))) (slot : Slot),
      let builtins := [Builtin.print fun line lines => lines ++ [line]]
      check text builtins = .ok (p, notes) ∧ p.Passes builtins .unscaled start history ∧
      (start.after history).slotAt? 0 "xs" = some slot ∧ slot.value = .list 0 ∧
      (start.after history).heap.elements 0 = #[.string "s", .integer 3] ∧
      start.PutByOther history "xs" 0 0 (.string "s") := by
  let main : Function :=
    ⟨16, "main", [], [], some "Integer",
      [.declaration 5 "l" (some "Any") (some (.access 4 "xs")),
        .assignment (.element 7 "l" (.literal 6 (.integer 0))) (.literal 8 (.string "s")),
        .assignment (.element 10 "xs" (.literal 9 (.integer 1))) (.literal 11 (.integer 3)),
        .expression (.call 14 "print" [.element 13 "xs" (.literal 12 (.integer 0))]),
        .ret (.literal 15 (.integer 0))]⟩
  let xs : Global :=
    ⟨3, "xs", "Integer", true, some (.list 2 [.literal 0 (.integer 1), .literal 1 (.integer 2)])⟩
  let notes : Annotations :=
    ⟨[(15, .integer), (14, .nil), (13, .integer), (12, .integer), (11, .integer), (10, .integer),
        (9, .integer), (8, .string), (7, .any), (6, .integer), (4, .any), (2, .any), (1, .integer),
        (0, .integer)],
      [(5, .any), (16, .integer), (3, .integer)],
      [(13, .global 3), (10, .global 3), (7, .declaration 5), (4, .global 3)],
      [(14, .builtin ⟨"print", 1⟩)]⟩
  let print : Builtin (List String) := .print fun line lines => lines ++ [line]
  have hcheck : check "LIST xs: Integer = [1, 2];
      FUN main(): Integer DO LET l: Any = xs; l[0] = \"s\"; xs[1] = 3; print(xs[0]); RETURN 0;
      END" [print] = .ok (⟨[xs], [main]⟩, notes) := by
    decide +kernel
  let start : Machine (List String) :=
    ⟨⟨[], [], [], [(⟨"print", 1⟩, .native print.run)]⟩, .empty, []⟩
  let slot : Slot := ⟨.list 0, .integer, true, true, some (.global 3)⟩
  -- The last two of these changes put a string and an integer into the list.
  let history := (Traced.program .unscaled 2 ⟨[xs], [main]⟩ start).1.take 7
  have hpasses : Program.Passes ⟨[xs], [main]⟩ [print] .unscaled start history :=
    ⟨rfl, rfl, 2, List.take_prefix _ _⟩
  have hspares (builtin : Builtin (List String)) (hmem : builtin ∈ [print]) :
      builtin.Spares fun _ _ => False :=
    List.mem_singleton.mp hmem ▸ Builtin.spares_print _
  have hstored (part : List (Change (List String))) (value : Value)
      (hpart : part ++ [.store "xs" value] <+: history) : False := by
    have hmem : .store "xs" value ∈ history := hpart.subset (List.mem_append_right _ (by simp))
    have hnone : (history.all fun
        | .store name _ => name != "xs"
        | _ => true) = true := by
      decide +kernel
    exact absurd (List.all_eq_true.mp hnone _ hmem) (by simp)
  have hslot : (start.after history).slotAt? 0 "xs" = some slot := by
    decide +kernel
  have helements : (start.after history).heap.elements 0 = #[.string "s", .integer 3] := by
    decide +kernel
  obtain ⟨_, address, hvalue, hassigns | hall⟩ := list_global_holds hcheck hpasses hspares
    (fun _ => id) List.mem_cons_self rfl hslot
    fun part value hpart => (hstored part value hpart).elim
  · obtain ⟨part, value, hpart, _⟩ := hassigns
    exact (hstored part value hpart).elim
  cases hvalue
  rcases hall 0 (.string "s") (by rw [helements]; rfl) with haccepts | hput
  · cases haccepts
  · exact ⟨_, _, notes, start, history, slot, hcheck, hpasses, hslot, rfl, helements, hput⟩

/-- Lists of integers that hold strings: one that a string is put into by a parameter that holds the
same list, and one in whose place a list of strings is assigned. -/
theorem list_globals_hold_others :
    ∃ (p : Program) (notes : Annotations) (start : Machine (List String))
      (history : List (Change (List String))),
      let builtins := [Builtin.print fun line lines => lines ++ [line]]
      check "LIST xs: Integer = [1]; LIST ys: Integer = [2]; LIST zs: String = [\"a\"];
        FUN put(l: Any) DO l[0] = \"s\"; END
        FUN main(): Integer DO put(xs); ys = zs; print(xs[0]); print(ys[0]); RETURN 0; END"
        builtins = .ok (p, notes) ∧
      (∀ builtin ∈ builtins, builtin.Spares fun _ _ => False) ∧
      p.Passes builtins .unscaled start history ∧
      p.globals.map (fun g => (g.id, g.name, g.isList, Ty.ofName g.typeName)) =
        [(2, "xs", true, .ok .integer), (5, "ys", true, .ok .integer),
          (8, "zs", true, .ok .string)] ∧
      (start.after history).slotAt? 0 "xs" =
        some ⟨.list 0, .integer, true, true, some (.global 2)⟩ ∧
      (start.after history).heap.elements 0 = #[.string "s"] ∧
      (start.after history).slotAt? 0 "ys" =
        some ⟨.list 2, .integer, true, true, some (.global 5)⟩ ∧
      (start.after history).heap.elements 2 = #[.string "a"] ∧
      Ty.integer.accepts .string = false := by
  let print : Builtin (List String) := .print fun line lines => lines ++ [line]
  let start : Machine (List String) :=
    ⟨⟨[], [], [], [(⟨"print", 1⟩, .native print.run)]⟩, .empty, []⟩
  let finish (p : Program) := start.after (Traced.program .unscaled 3 p start).1
  have hmatch : (match check
        "LIST xs: Integer = [1]; LIST ys: Integer = [2]; LIST zs: String = [\"a\"];
        FUN put(l: Any) DO l[0] = \"s\"; END
        FUN main(): Integer DO put(xs); ys = zs; print(xs[0]); print(ys[0]); RETURN 0; END"
        [print] with
    | .ok (p, _) => decide <|
        p.globals.map (fun g => (g.id, g.name, g.isList, Ty.ofName g.typeName)) =
          [(2, "xs", true, .ok .integer), (5, "ys", true, .ok .integer),
            (8, "zs", true, .ok .string)] ∧
        (finish p).slotAt? 0 "xs" = some ⟨.list 0, .integer, true, true, some (.global 2)⟩ ∧
        (finish p).heap.elements 0 = #[.string "s"] ∧
        (finish p).slotAt? 0 "ys" = some ⟨.list 2, .integer, true, true, some (.global 5)⟩ ∧
        (finish p).heap.elements 2 = #[.string "a"]
    | .error _ => false) = true := by
    decide +kernel
  split at hmatch
  next p notes hcheck =>
    obtain ⟨hglobals, hxs, hshared, hys, hassigned⟩ := of_decide_eq_true hmatch
    refine ⟨p, notes, start, _, hcheck, ?_, ⟨rfl, rfl, 3, List.prefix_rfl⟩, hglobals, hxs, hshared,
      hys, hassigned, rfl⟩
    intro builtin hmem
    exact List.mem_singleton.mp hmem ▸ Builtin.spares_print _
  next => cases hmatch

end Scriptlet
