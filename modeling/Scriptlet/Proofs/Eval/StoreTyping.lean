import Scriptlet.Proofs.Eval.TypedValues

/-! # Store typings

A list has no type of its own: whatever refers to it may put anything into it. Only the list of a
global can be counted on to hold elements of one type, and only if nothing but the global refers to
it. A store typing says of which lists this is so.
-/

namespace Scriptlet

variable {σ : Type}

/-- For each list, by its address, the type of its elements if it belongs to a global. The other
lists are shared. -/
abbrev StoreTyping := List (Option Ty)

namespace StoreTyping

/-- The list can be referred to from anywhere. -/
def Shares (w : StoreTyping) (address : Address) : Prop :=
  w[address]? = some none

/-- The list belongs to a global with elements of the type. -/
def Owns (w : StoreTyping) (ty : Ty) (address : Address) : Prop :=
  w[address]? = some (some ty)

/-- The value is of the type, and if it is a list, a shared one. -/
structure Fits (w : StoreTyping) (ty : Ty) (value : Value) : Prop where
  accepts : ty.accepts value.ty = true
  shared : ∀ address, value = .list address → w.Shares address

/-- The typing speaks of all lists, and elements are of the types that it says. -/
structure Describes (w : StoreTyping) (heap : Heap) : Prop where
  size : w.length = heap.size
  elements : ∀ {address : Address} {entry : Option Ty}, w[address]? = some entry →
    ∀ value ∈ heap.elements address, w.Fits (entry.getD .any) value

variable {w w' : StoreTyping} {heap : Heap} {ty : Ty} {value : Value} {address : Address}

theorem getElem?_of_later {entry : Option Ty} (hlater : w <+: w')
    (h : w[address]? = some entry) : w'[address]? = some entry := by
  obtain ⟨more, rfl⟩ := hlater
  rw [List.getElem?_append_left (List.getElem?_eq_some_iff.mp h).1, h]

/-! ## Values -/

theorem Fits.later (h : w.Fits ty value) (hlater : w <+: w') : w'.Fits ty value :=
  ⟨h.accepts, fun address hlist => getElem?_of_later hlater (h.shared address hlist)⟩

/-- A shared list can be anything. -/
theorem Shares.fits (h : w.Shares address) : w.Fits .any (.list address) :=
  ⟨rfl, fun _ heq => Value.list.inj heq ▸ h⟩

/-- What is of a type can stand for anything. -/
theorem Fits.any (h : w.Fits ty value) : w.Fits .any value :=
  ⟨rfl, h.shared⟩

theorem Fits.of_accepts {target source : Ty} (haccepts : target.accepts source = true)
    (h : w.Fits source value) : w.Fits target value :=
  ⟨Ty.accepts_trans haccepts h.accepts, h.shared⟩

/-- But for `Any` and `Comparable`, a type says what its values are. -/
theorem Fits.ty_eq (h : w.Fits ty value) (hany : ty ≠ .any) (hcomparable : ty ≠ .comparable) :
    value.ty = ty :=
  Ty.eq_of_accepts h.accepts hany hcomparable

/-- A value of a type that is not `Any` is no list. -/
theorem fits_of_ty (h : value.ty = ty) (hany : ty ≠ .any) : w.Fits ty value := by
  refine ⟨by simp [h], ?_⟩
  rintro address rfl
  exact absurd h.symm hany

theorem fits_literal {literal : Literal} (h : literal.type = .ok ty) :
    w.Fits ty (.ofLiteral literal) :=
  fits_of_ty (Literal.ty_ofLiteral h).1 (Literal.ty_ofLiteral h).2

/-! ## Lists -/

/-- A new list is described by what is said of its elements. -/
theorem Describes.create {entry : Option Ty} {values : List Value} (h : w.Describes heap)
    (hvalues : ∀ value ∈ values, w.Fits (entry.getD .any) value) :
    (w ++ [entry]).Describes (heap.create values.toArray) := by
  have hlater : w <+: w ++ [entry] := List.prefix_append w [entry]
  refine ⟨by simp [Heap.size_create, h.size], ?_⟩
  intro address entry' hentry value hmem
  by_cases hold : address < w.length
  · rw [List.getElem?_append_left hold] at hentry
    rw [Heap.elements_create_of_lt heap _ (h.size ▸ hold)] at hmem
    exact (h.elements hentry value hmem).later hlater
  · obtain ⟨hlt, rfl⟩ := List.getElem?_eq_some_iff.mp hentry
    have hlast : address < w.length + 1 := by simpa using hlt
    obtain rfl : address = heap.fresh :=
      (Nat.le_antisymm (Nat.le_of_lt_succ hlast) (Nat.le_of_not_lt hold)).trans h.size
    rw [Heap.elements_create_fresh] at hmem
    simp only [List.getElem_append_right (Nat.le_of_not_lt hold), List.getElem_singleton]
    exact (hvalues value (List.mem_toArray.mp hmem)).later hlater

theorem Describes.getElem?_fresh (h : w.Describes heap) (entry : Option Ty) :
    (w ++ [entry])[heap.fresh]? = some entry := by
  have hsize : heap.fresh = w.length := h.size.symm
  simp [hsize]

/-- A list stays as it is described if a value that fits replaces an element. -/
theorem Describes.setElement {entry : Option Ty} (h : w.Describes heap)
    (hentry : w[address]? = some entry) (position : Nat)
    (hvalue : w.Fits (entry.getD .any) value) :
    w.Describes (heap.setElement address position value) := by
  have hlt : address < heap.size := h.size ▸ (List.getElem?_eq_some_iff.mp hentry).1
  refine ⟨h.size.trans (Heap.size_modify _ _ _).symm, ?_⟩
  intro other entry' hentry' found hmem
  rw [Heap.setElement, Heap.elements_modify heap _ _ _ hlt] at hmem
  split at hmem
  next hsame =>
    subst hsame
    obtain rfl := Option.some.inj (hentry.symm.trans hentry')
    obtain hmem | rfl := Array.mem_or_eq_of_mem_setIfInBounds hmem
    · exact h.elements hentry found hmem
    · exact hvalue
  next => exact h.elements hentry' found hmem

/-- New lists are shared when a typing is extended so. -/
theorem shares_append_replicate {count address : Nat} :
    (w ++ List.replicate count none).Shares address ↔
      w.Shares address ∨ w.length ≤ address ∧ address < w.length + count := by
  unfold Shares
  by_cases hold : address < w.length
  · rw [List.getElem?_append_left hold]
    exact ⟨.inl, fun h => h.resolve_right fun hnew => absurd hold (Nat.not_lt.mpr hnew.1)⟩
  · have hle := Nat.le_of_not_lt hold
    rw [List.getElem?_append_right hle, List.getElem?_replicate,
      List.getElem?_eq_none hle]
    simp only [ite_eq_left_iff, reduceCtorEq, imp_false, Decidable.not_not, false_or]
    exact ⟨fun h => ⟨hle, by omega⟩, fun h => by omega⟩

/-! ## Slots -/

/-- The list of a global, if its elements are of one type, or a value of the type of the slot. -/
inductive Keeps (w : StoreTyping) : Slot → Prop
  | owned {slot : Slot} {address : Address} :
      slot.isList = true → slot.ty ≠ .any → slot.value = .list address →
        w.Owns slot.ty address → Keeps w slot
  | plain {slot : Slot} :
      (slot.isList = true → slot.ty = .any) → w.Fits (slot.accepted false) slot.value →
        Keeps w slot

theorem Keeps.later {slot : Slot} (h : w.Keeps slot) (hlater : w <+: w') : w'.Keeps slot := by
  cases h with
  | owned hlist hany hvalue howns =>
      exact .owned hlist hany hvalue (getElem?_of_later hlater howns)
  | plain hany hfits => exact .plain hany (hfits.later hlater)

/-- A slot that is not for a list keeps every value of its type. -/
theorem Fits.keeps {mutable : Bool} {origin : Option VariableOrigin} (h : w.Fits ty value) :
    w.Keeps ⟨value, ty, mutable, false, origin⟩ :=
  .plain nofun h

/-- What is said of the list that a slot holds: its elements are of the slot's type if it is for a
list of that type, and of any type otherwise. -/
theorem Keeps.exists_entry {slot : Slot} (h : w.Keeps slot)
    (hany : slot.isList = true ∨ slot.ty = .any) (hvalue : slot.value = .list address) :
    ∃ entry, w[address]? = some entry ∧ entry.getD .any = slot.ty := by
  cases h with
  | owned _ _ hlist howns =>
      obtain rfl := Value.list.inj (hvalue.symm.trans hlist)
      exact ⟨some slot.ty, howns, rfl⟩
  | plain hplain hfits => exact ⟨none, hfits.shared address hvalue, (hany.elim hplain id).symm⟩

end StoreTyping

end Scriptlet
