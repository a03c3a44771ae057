import Scriptlet.Proofs.Eval.Moments
import Scriptlet.Proofs.Eval.StoreTyping

/-! # Type safety

A checked program can still meet a value that its types do not speak of: the nil of a variable
without a first value, the type that a variable takes from a value, the nil of a function that ends
without a return, or the list of a global behind the back of the global. A program without these
computes values of the types that its annotations say, on a host that keeps to its own types and to
the lists that it is given.
-/

namespace Scriptlet

variable {σ : Type}

/-! ## Strict programs -/

/-- A program that leaves no value to chance. -/
structure Program.Strict (p : Program) (notes : Annotations) : Prop where
  /-- A local variable without a first value is of a type that has nil. -/
  locals : ∀ {id name typeName ty}, .declaration id name (some typeName) none ∈ p.nodes →
    Ty.ofName typeName = .ok ty → ty = .any ∨ ty = .nil
  /-- A global without a first value is of a type that has nil. -/
  globals : ∀ {g ty}, g ∈ p.globals → g.initial = none → Ty.ofName g.typeName = .ok ty →
    ty = .any ∨ ty = .nil
  /-- A variable that takes its type from its first value can take only one. -/
  inferred : ∀ {id name initial ty}, .declaration id name none (some initial) ∈ p.nodes →
    notes.typeOf? initial.id = some ty → ty ≠ .any ∧ ty ≠ .comparable
  /-- A function that is to return a value ends with a return. -/
  returns : ∀ {f ty}, f ∈ p.functions → Ty.ofReturn f.returnType = .ok ty → ty ≠ .nil →
    ty ≠ .any → Stmt.endsWithReturn f.body = true
  /-- A list with elements of one type is used only through its elements. -/
  lists : ∀ {id name g ty}, .expression (.access id name) ∈ p.nodes → g ∈ p.globals →
    notes.variableOf? id = some (.global g.id) → g.isList = true →
    Ty.ofName g.typeName = .ok ty → ty = .any

/-! ## Confined hosts -/

/-- The lists of the region hold no list outside it. -/
def Heap.Closed (heap : Heap) (region : Address → Prop) : Prop :=
  ∀ address, region address → ∀ inner, .list inner ∈ heap.elements address → region inner

/-- The region, and the lists that only the second heap has. -/
def Heap.Grown (heap heap' : Heap) (region : Address → Prop) (address : Address) : Prop :=
  region address ∨ heap.size ≤ address ∧ address < heap'.size

/-- A step of the host that keeps to a region: it leaves other lists alone, and what it returns,
keeps and puts into lists is from the region or new. -/
structure Builtin.KeepsTo (kept : σ → Address → Prop) (region : Address → Prop) (heap : Heap)
    (value : Value) (heap' : Heap) (host' : σ) : Prop where
  grows : heap.size ≤ heap'.size
  untouched : ∀ address < heap.size, ¬ region address →
    heap'.elements address = heap.elements address
  closed : heap'.Closed (heap.Grown heap' region)
  returned : ∀ address, value = .list address → heap.Grown heap' region address
  kept : ∀ address, kept host' address → heap.Grown heap' region address

/-- The function sees no lists but those that it can reach from its arguments and from what its
host has kept: it keeps to every region that has these. -/
def Builtin.Confined (kept : σ → Address → Prop) (builtin : Builtin σ) : Prop :=
  ∀ (region : Address → Prop) (arguments : List Value) (heap : Heap) (host : σ),
    heap.Closed region → (∀ address, .list address ∈ arguments → region address) →
    (∀ address, kept host address → region address) →
    KeepsTo kept region heap (builtin.run arguments heap host).1
      (builtin.run arguments heap host).2.1 (builtin.run arguments heap host).2.2

/-- What the function returns is of its type. -/
def Builtin.Truthful (builtin : Builtin σ) : Prop :=
  ∀ arguments heap host,
    builtin.returnType.accepts (builtin.run arguments heap host).1.ty = true

theorem Builtin.truthful_print (sink : String → σ → σ) : (print sink).Truthful := by
  intro arguments heap host
  cases arguments <;> rfl

/-- Nothing is kept of what is printed but its text. -/
theorem Builtin.confined_print (sink : String → σ → σ) :
    (print sink).Confined fun _ _ => False := by
  intro region arguments heap host hclosed _ _
  have hgrown (address : Address) : heap.Grown heap region address ↔ region address :=
    or_iff_left fun h => absurd h.2 (Nat.not_lt.mpr h.1)
  have hkeeps (host' : σ) : KeepsTo (fun _ _ => False) region heap .nil heap host' := by
    refine ⟨Nat.le_refl _, fun _ _ _ => rfl, fun address h inner hmem => ?_, nofun, nofun⟩
    exact (hgrown inner).mpr (hclosed address ((hgrown address).mp h) inner hmem)
  cases arguments with
  | nil => exact hkeeps host
  | cons value _ => exact hkeeps (sink (heap.display value) host)

namespace StoreTyping

variable {w : StoreTyping} {heap heap' : Heap} {kept : σ → Address → Prop} {host' : σ}
variable {value : Value}

/-- The shared lists hold only shared lists. -/
theorem Describes.closed (h : w.Describes heap) : heap.Closed w.Shares :=
  fun _ hshares inner hmem => (h.elements hshares _ hmem).shared inner rfl

/-- A step that keeps to the shared lists makes more of them and leaves the lists of globals. -/
theorem Describes.grow (h : w.Describes heap)
    (hkeeps : Builtin.KeepsTo kept w.Shares heap value heap' host') :
    ∃ w' : StoreTyping, w <+: w' ∧ w'.Describes heap' ∧ ∀ address, w'.Shares address ↔
      heap.Grown heap' w.Shares address := by
  have hsize : w.length + (heap'.size - heap.size) = heap'.size := by
    rw [h.size]
    exact Nat.add_sub_cancel' hkeeps.grows
  have hshares (address : Address) :
      (w ++ List.replicate (heap'.size - heap.size) none).Shares address ↔
        heap.Grown heap' w.Shares address := by
    rw [shares_append_replicate, hsize, h.size]
    rfl
  refine ⟨_, List.prefix_append _ _, ⟨by simpa using hsize, ?_⟩, hshares⟩
  intro address entry hentry value hmem
  cases entry with
  | none =>
      refine ⟨rfl, ?_⟩
      rintro inner rfl
      exact (hshares inner).mpr (hkeeps.closed address ((hshares address).mp hentry) inner hmem)
  | some ty =>
      -- Only old lists belong to globals, and they are outside the region.
      have hold : address < w.length := by
        by_contra hnew
        rw [List.getElem?_append_right (Nat.le_of_not_lt hnew), List.getElem?_replicate] at hentry
        split at hentry <;> cases hentry
      rw [List.getElem?_append_left hold] at hentry
      have houtside : ¬ w.Shares address := fun hshared => by
        rw [Shares, hentry] at hshared
        cases hshared
      rw [hkeeps.untouched address (h.size ▸ hold) houtside] at hmem
      exact (h.elements hentry value hmem).later (List.prefix_append _ _)

end StoreTyping

/-! ## The discipline of types -/

/-- The slot is of the type that is known of the variable, and a list is one of a global. -/
structure Slot.Shows (p : Program) (info : VariableInfo) (slot : Slot) : Prop where
  ty : slot.ty = info.ty
  isList : slot.isList = info.isList
  global : info.isList = true → ∃ g ∈ p.globals, info.origin = .global g.id ∧ g.isList = true ∧
    Ty.ofName g.typeName = .ok info.ty

namespace Slot.Shows

variable {p : Program} {notes : Annotations} {w : StoreTyping} {info : VariableInfo} {slot : Slot}

/-- In a strict program, a list that is used without an index has elements of any type. -/
theorem eq_any (h : slot.outline.Shows p info) (hstrict : p.Strict notes) {id : NodeId}
    {name : String} (hnode : .expression (.access id name) ∈ p.nodes)
    (hvariable : notes.variableOf? id = some info.origin) (hlist : slot.isList = true) :
    slot.ty = .any := by
  have hinfo : info.isList = true := h.isList.symm.trans hlist
  obtain ⟨g, hg, horigin, hisList, hname⟩ := h.global hinfo
  exact h.ty.trans (hstrict.lists hnode hg (horigin ▸ hvariable) hisList hname)

theorem accepted_bare (h : slot.outline.Shows p info) : slot.accepted false = info.bareType := by
  have hty : slot.ty = info.ty := h.ty
  have hlist : slot.isList = info.isList := h.isList
  unfold Slot.accepted VariableInfo.bareType
  rw [hty, hlist]
  cases info.isList <;> rfl

theorem indexed (h : slot.outline.Shows p info) (hlist : info.isList = true ∨ info.ty = .any) :
    slot.isList = true ∨ slot.ty = .any :=
  hlist.imp h.isList.trans h.ty.trans

end Slot.Shows

section

variable {p : Program} {notes : Annotations} {builtins : List (Builtin σ)}
variable {kept : σ → Address → Prop}

/-- Nil is a value of the types that have it. -/
theorem StoreTyping.fits_nil {w : StoreTyping} {ty : Ty} (h : ty = .any ∨ ty = .nil) :
    w.Fits ty .nil := by
  refine ⟨?_, nofun⟩
  obtain rfl | rfl := h <;> rfl

/-- The arguments of a call are shared if they are lists. -/
theorem StoreTyping.shares_of_forall₂ {w : StoreTyping} {types : List Ty} {arguments : List Value}
    (h : List.Forall₂ w.Fits types arguments) {address : Address}
    (hmem : .list address ∈ arguments) : w.Shares address := by
  induction h with
  | nil => cases hmem
  | cons hfirst _ ih =>
      cases hmem with
      | head => exact hfirst.shared address rfl
      | tail _ hmem => exact ih hmem

/-- The typing describes the lists, and the host has kept only shared ones. -/
structure StoreTyping.DescribesAll (kept : σ → Address → Prop) (w : StoreTyping) (heap : Heap)
    (host : σ) : Prop where
  describes : w.Describes heap
  shares : ∀ address, kept host address → w.Shares address

/-- The store stays in order when a list is created. -/
theorem StoreTyping.DescribesAll.create {w : StoreTyping} {heap : Heap} {host : σ}
    {values : List Value} {entry : Option Ty} (h : w.DescribesAll kept heap host)
    (hvalues : ∀ value ∈ values, w.Fits (entry.getD .any) value) :
    StoreTyping.DescribesAll kept (w ++ [entry]) (heap.create values.toArray) host :=
  ⟨h.describes.create hvalues, fun address hkept =>
    getElem?_of_later (List.prefix_append _ _) (h.shares address hkept)⟩

/-- The discipline of types. -/
def Discipline.types (policy : Division) (hstrict : p.Strict notes)
    (htruthful : ∀ builtin ∈ builtins, builtin.Truthful)
    (hconfined : ∀ builtin ∈ builtins, builtin.Confined kept) :
    Discipline σ notes policy builtins where
  World := StoreTyping
  later w w' := w <+: w'
  fits := StoreTyping.Fits
  keeps := StoreTyping.Keeps
  store := StoreTyping.DescribesAll kept
  shows info slot := slot.Shows p info
  allows cause := cause.isData = true
  admits node := node ∈ p.nodes
  later_refl := List.prefix_refl
  later_trans := List.IsPrefix.trans
  fits_later hlater h := h.later hlater
  keeps_later hlater h := h.later hlater
  allows_data h := h
  fits_of_accepts haccepts h := h.of_accepts haccepts
  fits_literal := StoreTyping.fits_literal
  fits_boolean _ := StoreTyping.fits_of_ty rfl (by decide)
  require h := Value.ends_requireFor h.accepts
  truth h := Value.ends_truth h.accepts
  position length h := Value.ends_position length h.accepts
  operation heap hty hfirst hsecond :=
    (Operator.ends_apply heap hty hfirst.accepts hsecond.accepts).mono fun _ _ h =>
      StoreTyping.fits_of_ty h.1 h.2
  shows_scalar hlist _ := ⟨rfl, hlist.symm, fun h => nomatch hlist.symm.trans h⟩
  keeps_scalar _ _ h := h.keeps
  keeps_unset hnode hname := (StoreTyping.fits_nil (hstrict.locals hnode hname)).keeps
  inferred {_ id name initial ty value} hnode htype _ h := by
    obtain ⟨hany, hcomparable⟩ := hstrict.inferred hnode htype
    have hty := h.ty_eq hany hcomparable
    exact ⟨(StoreTyping.Fits.mk (Ty.accepts_self _) h.shared).keeps, hty, rfl, nofun⟩
  keeps_unset_global hnode hinitial hname := (StoreTyping.fits_nil
    (hstrict.globals (Program.mem_globals_of_mem_nodes hnode) hinitial hname)).keeps
  shows_list hnode hlist hname :=
    ⟨rfl, hlist.symm, fun _ => ⟨_, Program.mem_globals_of_mem_nodes hnode, rfl, hlist, hname⟩⟩
  access {_ id name info slot} hnode hvariable hshows hkeeps := by
    cases hkeeps with
    | owned hlist hany _ _ => exact absurd (hshows.eq_any hstrict hnode hvariable hlist) hany
    | plain _ hfits => exact hshows.accepted_bare ▸ hfits
  assign {_ id name info slot value} hnode hvariable hshows _ hfits := by
    have hfits := hshows.accepted_bare ▸ hfits
    exact (Value.ends_requireFor hfits.accepts).mono fun _ _ _ =>
      .plain (hshows.eq_any hstrict hnode hvariable) hfits
  element {_ info slot heap host address value} hlist hshows hkeeps hstore hvalue hmem := by
    obtain ⟨entry, hentry, hty⟩ := hkeeps.exists_entry (hshows.indexed hlist) hvalue
    have hfits := hstore.describes.elements hentry value hmem
    exact hshows.ty ▸ hty ▸ hfits
  accepted_indexed {_ info slot value} _ hshows hfits := by
    have hty : slot.ty = info.ty := hshows.ty
    unfold Slot.accepted
    split
    · exact hty ▸ hfits
    · exact hfits.any
  assign_element {_ info slot heap host address value} position hlist hshows hkeeps hstore hvalue
      hfits := by
    obtain ⟨entry, hentry, hty⟩ := hkeeps.exists_entry (hshows.indexed hlist) hvalue
    have hty : entry.getD .any = info.ty := hty.trans hshows.ty
    exact ⟨hstore.describes.setElement hentry position (hty ▸ hfits), hstore.shares⟩
  create {w heap host values} hstore hvalues := by
    have hshared : (w ++ [none]).Shares heap.fresh := hstore.describes.getElem?_fresh none
    exact ⟨w ++ [none], List.prefix_append _ _, hstore.create hvalues, hshared.fits⟩
  create_global {w heap host values ty} mutable origin hstore hvalues := by
    by_cases hany : ty = .any
    · subst hany
      have hshared : (w ++ [none]).Shares heap.fresh := hstore.describes.getElem?_fresh none
      exact ⟨w ++ [none], List.prefix_append _ _, hstore.create hvalues,
        .plain (fun _ => rfl) hshared.fits⟩
    · have howned : (w ++ [some ty]).Owns ty heap.fresh :=
        hstore.describes.getElem?_fresh (some ty)
      exact ⟨w ++ [some ty], List.prefix_append _ _, hstore.create hvalues,
        .owned rfl hany rfl howned⟩
  native {w builtin heap host arguments} hbuiltin hstore harguments := by
    have hkeeps := hconfined builtin hbuiltin w.Shares arguments heap host hstore.describes.closed
      (fun _ => StoreTyping.shares_of_forall₂ harguments) hstore.shares
    obtain ⟨w', hlater, hdescribes, hshares⟩ := hstore.describes.grow hkeeps
    refine ⟨w', hlater, ⟨hdescribes, fun address h => ?_⟩, ?_, fun address h => ?_⟩
    · exact (hshares address).mpr (hkeeps.kept address h)
    · exact htruthful builtin hbuiltin arguments heap host
    · exact (hshares address).mpr (hkeeps.returned address h)
  unreturned {_ f result} hnode hresult hends := by
    refine StoreTyping.fits_nil ?_
    by_contra hother
    rw [not_or] at hother
    have hreturns := hstrict.returns (Program.mem_functions_of_mem_nodes hnode) hresult hother.2
      hother.1
    rw [hends] at hreturns
    cases hreturns

/-- If a checked program is strict, and its host returns what its functions say and keeps to the
lists that it is given, then each expression has values of the type that the annotations say, and a
run ends with an integer, or because of a division by zero, an index outside a list, a value that
is no list or an assignment to a variable that cannot be changed. -/
theorem strict_run_typed (text : String) (builtins : List (Builtin σ)) (policy : Division)
    (limit : Nat) (host : σ) (p : Program) (notes : Annotations)
    (hcheck : check text builtins = .ok (p, notes)) (hstrict : p.Strict notes)
    (htruthful : ∀ builtin ∈ builtins, builtin.Truthful) (kept : σ → Address → Prop)
    (hkept : ∀ address, ¬ kept host address)
    (hconfined : ∀ builtin ∈ builtins, builtin.Confined kept) :
    (∀ depth e machine value finish,
      p.Reaches policy builtins limit host ⟨depth, .expression e, machine⟩ →
      Eval.value policy depth e machine = .ok value finish →
      ∃ ty, notes.typeOf? e.id = some ty ∧ ty.accepts value.ty = true) ∧
    match (p.run builtins policy limit host).outcome with
    | .value value => ∃ n, value = .integer n
    | .error error => error.stage = .runtime ∧ error.cause.isData = true
    | .outOfFuel => True := by
  have hchecked := checked_of_check hcheck
  have hadmits : ∀ node ∈ p.nodes,
      (Discipline.types policy hstrict htruthful hconfined).admits node := fun _ hnode => hnode
  have hstore : (Discipline.types policy hstrict htruthful hconfined).store
      ([] : StoreTyping) .empty host :=
    ⟨⟨rfl, nofun⟩, fun address h => absurd h (hkept address)⟩
  refine ⟨fun depth e machine value finish hreaches hvalue => ?_, ?_⟩
  · have hinOrder := Discipline.inOrder_of_reaches hchecked hadmits hstore hreaches
    cases hinOrder with
    | expression htyped hadmits hready hholds =>
        obtain ⟨w, _, _, _, hfits⟩ := hready.after_value htyped hadmits hholds hvalue
        exact ⟨_, htyped.typeOf?, hfits.accepts⟩
  · have hrun := (Discipline.types policy hstrict htruthful hconfined).run_ensured hchecked hadmits
      hstore limit
    cases houtcome : (p.run builtins policy limit host).outcome with
    | value value =>
        rw [houtcome] at hrun
        obtain ⟨w, hfits⟩ := hrun
        exact Value.exists_integer hfits.accepts
    | error error =>
        rw [houtcome] at hrun
        exact hrun
    | outOfFuel => trivial

/-- A program with a list of integers that it prints from and returns from. -/
theorem strict_run_typed_list :
    ∃ (text : String) (p : Program) (notes : Annotations),
      let builtins := [Builtin.print fun line lines => lines ++ [line]]
      check text builtins = .ok (p, notes) ∧ p.Strict notes ∧
      (p.run builtins .unscaled 2 []).outcome = .value (.integer 1) ∧
      ∀ depth e machine value finish,
        p.Reaches .unscaled builtins 2 [] ⟨depth, .expression e, machine⟩ →
        Eval.value .unscaled depth e machine = .ok value finish →
        ∃ ty, notes.typeOf? e.id = some ty ∧ ty.accepts value.ty = true := by
  let p : Program :=
    ⟨[⟨2, "xs", "Integer", true, some (.list 1 [.literal 0 (.integer 1)])⟩],
      [⟨8, "main", [], [], some "Integer",
        [.expression (.call 5 "print" [.element 4 "xs" (.literal 3 (.integer 0))]),
          .ret (.element 7 "xs" (.literal 6 (.integer 0)))]⟩]⟩
  let notes : Annotations :=
    ⟨[(7, .integer), (6, .integer), (5, .nil), (4, .integer), (3, .integer), (1, .any),
        (0, .integer)],
      [(8, .integer), (2, .integer)], [(7, .global 2), (4, .global 2)],
      [(5, .builtin ⟨"print", 1⟩)]⟩
  have hcheck : check "LIST xs: Integer = [1];
      FUN main(): Integer DO print(xs[0]); RETURN xs[0]; END"
      [Builtin.print fun line lines => lines ++ [line]] = .ok (p, notes) := by
    decide +kernel
  -- No local variable is declared, and the list is used through its elements only.
  have hplain : ∀ node ∈ p.nodes,
      (∀ id name typeName initial, node ≠ .declaration id name typeName initial) ∧
        ∀ id name, node ≠ .expression (.access id name) := by
    simp [p, Program.nodes, Global.nodes, Function.nodes, Expr.optionNodes, Expr.nodes,
      Expr.listNodes, Stmt.blockNodes, Stmt.nodes]
  have hstrict : p.Strict notes := by
    refine ⟨fun hnode => ?_, fun hg hinitial => ?_, fun hnode => ?_, fun hf _ _ _ => ?_,
      fun hnode => ?_⟩
    · exact absurd rfl ((hplain _ hnode).1 _ _ _ _)
    · obtain rfl := List.mem_singleton.mp hg
      cases hinitial
    · exact absurd rfl ((hplain _ hnode).1 _ _ _ _)
    · obtain rfl := List.mem_singleton.mp hf
      rfl
    · exact absurd rfl ((hplain _ hnode).2 _ _)
  have houtcome : (p.run [Builtin.print fun line lines => lines ++ [line]] .unscaled 2
      []).outcome = .value (.integer 1) := by
    decide +kernel
  exact ⟨_, p, notes, hcheck, hstrict, houtcome, (strict_run_typed _ _ .unscaled 2 [] p notes
    hcheck hstrict
    (fun builtin hbuiltin => List.mem_singleton.mp hbuiltin ▸ Builtin.truthful_print _)
    (fun _ _ => False) (fun _ => id)
    (fun builtin hbuiltin => List.mem_singleton.mp hbuiltin ▸ Builtin.confined_print _)).1⟩

end

end Scriptlet
