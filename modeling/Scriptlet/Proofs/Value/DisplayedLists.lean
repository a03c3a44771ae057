import Mathlib.Data.List.Perm.Subperm
import Mathlib.Logic.Relation
import Mathlib.Tactic.Choose
import Scriptlet.Value.Display

/-! # Displayed lists

Lists may contain themselves, so what is displayed of a value is not by recursion on it. That
display comes to an end all the same is shown on rules that describe it without a limit on its
levels: the lists that enclose each other are all different, so there are no more of them than there
are lists.

A list is abbreviated only inside itself. So if no list is inside itself, the text is that of the
value unfolded to a tree.
-/

namespace Scriptlet

/-- What is displayed of a value: the text of a scalar, dots for a list, or the elements of a
list. -/
inductive Shown where
  | scalar (text : String)
  | dots
  | list (parts : List Shown)

/-- The elements of a list are separated by commas and stand between brackets. -/
def Shown.text : Shown → String
  | scalar text => text
  | dots => "[...]"
  | list parts => "[" ++ ", ".intercalate (parts.map text) ++ "]"

/-- The value is a list. -/
def Value.IsList (value : Value) : Prop :=
  ∃ address, value = .list address

namespace Heap

variable {heap : Heap}

/-- Inside the given lists, displaying a value ends with what is shown of it. There is one rule for
each way that this can go, and no limit on the levels: where nothing follows from the rules, it
would go on forever. -/
inductive Shows (heap : Heap) : List Address → Value → Shown → Prop
  | scalar {enclosing : List Address} {value : Value} :
      ¬ value.IsList → Shows heap enclosing value (.scalar value.scalarText)
  | dots {enclosing : List Address} {address : Address} :
      address ∈ enclosing → Shows heap enclosing (.list address) .dots
  | list {enclosing : List Address} {address : Address} {parts : List Shown} :
      address ∉ enclosing → parts.length = (heap.elements address).size →
        (∀ (i : ℕ) (value : Value) (part : Shown), (heap.elements address)[i]? = some value →
          parts[i]? = some part → Shows heap (address :: enclosing) value part) →
        Shows heap enclosing (.list address) (.list parts)

/-- Of what is shown of the value `root`, a part shows the given value inside the given lists. -/
inductive Occurs (heap : Heap) (root : Value) (shown : Shown) : List Address → Value → Shown → Prop
  | root : Occurs heap root shown [] root shown
  | element {enclosing : List Address} {address : Address} {parts : List Shown} {i : ℕ}
      {value : Value} {part : Shown} :
      Occurs heap root shown enclosing (.list address) (.list parts) →
        (heap.elements address)[i]? = some value → parts[i]? = some part →
        Occurs heap root shown (address :: enclosing) value part

/-- The value is unfolded to a tree, in which every list is shown by its elements. -/
inductive Unfolds (heap : Heap) : Value → Shown → Prop
  | scalar {value : Value} : ¬ value.IsList → Unfolds heap value (.scalar value.scalarText)
  | list {address : Address} {parts : List Shown} :
      parts.length = (heap.elements address).size →
        (∀ (i : ℕ) (value : Value) (part : Shown), (heap.elements address)[i]? = some value →
          parts[i]? = some part → Unfolds heap value part) →
        Unfolds heap (.list address) (.list parts)

/-- The one list is an element of the other one. -/
def Holds (heap : Heap) (address inner : Address) : Prop :=
  .list inner ∈ heap.elements address

/-- No list that can be reached from the value reaches itself. -/
def Acyclic (heap : Heap) (value : Value) : Prop :=
  ∀ address inner, value = .list address → Relation.ReflTransGen heap.Holds address inner →
    ¬ Relation.TransGen heap.Holds inner inner

/-! ## Display comes to an end -/

theorem elements_of_size_le {address : Address} (h : heap.size ≤ address) :
    heap.elements address = #[] := by
  rw [elements, Array.getElem?_eq_none h]
  rfl

/-- Different lists of the heap are no more than there are. -/
theorem length_le_size_of_nodup {enclosing : List Address} (hnodup : enclosing.Nodup)
    (hrange : ∀ address ∈ enclosing, address < heap.size) : enclosing.length ≤ heap.size := by
  have hsubset : enclosing ⊆ List.range heap.size := by
    intro address hmem
    exact List.mem_range.mpr (hrange address hmem)
  have hlength := (List.subperm_of_subset hnodup hsubset).length_le
  rwa [List.length_range] at hlength

theorem displayWithin_list (levels : ℕ) {enclosing : List Address} {address : Address}
    (h : address ∉ enclosing) :
    heap.displayWithin (levels + 1) enclosing (.list address) =
      "[" ++ ", ".intercalate ((heap.elements address).toList.map
        (heap.displayWithin levels (address :: enclosing))) ++ "]" := by
  rw [displayWithin, if_neg (by simpa using h)]

theorem displayWithin_scalar (levels : ℕ) (enclosing : List Address) {value : Value}
    (h : ¬ value.IsList) : heap.displayWithin levels enclosing value = value.scalarText := by
  cases value with
  | list address => exact absurd ⟨address, rfl⟩ h
  | _ => cases levels <;> rfl

/-- With more levels left than there are lists that do not enclose the value, displaying it comes to
its end by the rules. -/
theorem exists_shows (levels : ℕ) {enclosing : List Address} (hnodup : enclosing.Nodup)
    (hrange : ∀ address ∈ enclosing, address < heap.size)
    (hlevels : heap.size < levels + enclosing.length) (value : Value) :
    ∃ shown, heap.Shows enclosing value shown ∧
      heap.displayWithin levels enclosing value = shown.text := by
  induction levels generalizing enclosing value with
  | zero =>
      have hlength := length_le_size_of_nodup hnodup hrange
      omega
  | succ levels ih =>
      by_cases hlist : value.IsList
      · obtain ⟨address, rfl⟩ := hlist
        by_cases hmem : address ∈ enclosing
        · refine ⟨.dots, .dots hmem, ?_⟩
          rw [displayWithin, if_pos (by simpa using hmem), Shown.text]
        · by_cases hsize : address < heap.size
          · have hinside (value : Value) : ∃ shown, heap.Shows (address :: enclosing) value shown ∧
                heap.displayWithin levels (address :: enclosing) value = shown.text := by
              apply ih (List.nodup_cons.mpr ⟨hmem, hnodup⟩)
              · exact List.forall_mem_cons.mpr ⟨hsize, hrange⟩
              · rw [List.length_cons]
                omega
            choose shown hshows htext using hinside
            refine ⟨.list ((heap.elements address).toList.map shown), .list hmem (by simp) ?_, ?_⟩
            · intro i value part hvalue hpart
              rw [List.getElem?_map, Array.getElem?_toList, hvalue] at hpart
              cases hpart
              exact hshows value
            · rw [displayWithin_list _ hmem, Shown.text, List.map_map, funext htext]
              rfl
          · -- Outside of the heap there are no elements, and no more levels are needed.
            have hnone := elements_of_size_le (Nat.not_lt.mp hsize)
            refine ⟨.list [], .list hmem (by simp [hnone]) (by simp), ?_⟩
            rw [displayWithin_list _ hmem, Shown.text, hnone]
            rfl
      · refine ⟨.scalar value.scalarText, .scalar hlist, ?_⟩
        rw [displayWithin_scalar _ _ hlist, Shown.text]

/-- The rules leave no choice. -/
theorem Shows.unique {enclosing : List Address} {value : Value} {shown other : Shown}
    (h : heap.Shows enclosing value shown) (h' : heap.Shows enclosing value other) :
    shown = other := by
  induction h generalizing other with
  | scalar hscalar =>
      cases h' with
      | scalar => rfl
      | dots => exact absurd ⟨_, rfl⟩ hscalar
      | list => exact absurd ⟨_, rfl⟩ hscalar
  | dots hmem =>
      cases h' with
      | scalar hscalar => exact absurd ⟨_, rfl⟩ hscalar
      | dots => rfl
      | list hout => exact absurd hmem hout
  | @list enclosing address parts hout hlength _ ih =>
      cases h' with
      | scalar hscalar => exact absurd ⟨_, rfl⟩ hscalar
      | dots hmem => exact absurd hmem hout
      | @list _ _ others _ hlength' hothers =>
          congr 1
          apply List.ext_getElem (hlength.trans hlength'.symm)
          intro i hi hi'
          have hvalue := Array.getElem?_eq_getElem (hlength ▸ hi)
          exact ih i _ _ hvalue (List.getElem?_eq_getElem hi)
            (hothers i _ _ hvalue (List.getElem?_eq_getElem hi'))

theorem shows_iff (heap : Heap) (value : Value) :
    ∃ shown, heap.display value = shown.text ∧
      ∀ other, heap.Shows [] value other ↔ other = shown := by
  obtain ⟨shown, hshows, htext⟩ :=
    exists_shows (heap.size + 1) List.nodup_nil (by simp) (Nat.lt_succ_self heap.size) value
  refine ⟨shown, htext, fun other => ⟨?_, ?_⟩⟩
  · intro hother
    exact hother.unique hshows
  · intro hsame
    exact hsame ▸ hshows

/-! ## Which lists are abbreviated -/

/-- Every part of what is shown follows from the rules, inside the lists that enclose it. -/
theorem Shows.of_occurs {root value : Value} {shown part : Shown} {enclosing : List Address}
    (h : heap.Shows [] root shown) (hoccurs : heap.Occurs root shown enclosing value part) :
    heap.Shows enclosing value part := by
  induction hoccurs with
  | root => exact h
  | element _ hvalue hpart ih =>
      cases ih with
      | list _ _ hparts => exact hparts _ _ _ hvalue hpart

theorem Shows.dots_iff {enclosing : List Address} {address : Address} {shown : Shown}
    (h : heap.Shows enclosing (.list address) shown) : shown = .dots ↔ address ∈ enclosing := by
  cases h with
  | scalar hscalar => exact absurd ⟨_, rfl⟩ hscalar
  | dots hmem => simp [hmem]
  | list hout => simp [hout]

/-- A list is reached from the lists that enclose it. -/
theorem Occurs.reached {root : Value} {shown part : Shown} {enclosing : List Address}
    {address : Address} (h : heap.Occurs root shown enclosing (.list address) part) :
    ∀ outer ∈ enclosing, Relation.TransGen heap.Holds outer address := by
  generalize hvalue : Value.list address = value at h
  induction h generalizing address with
  | root => simp
  | @element enclosing inside parts i value part hoccurs helement hpart ih =>
      have hholds : heap.Holds inside address := by
        rw [Holds, hvalue]
        exact Array.mem_of_getElem? helement
      intro outer houter
      rcases List.mem_cons.mp houter with rfl | houter
      · exact .single hholds
      · exact (ih rfl outer houter).tail hholds

theorem Occurs.reached_from_root {root : Value} {shown part : Shown} {enclosing : List Address}
    {address : Address} (h : heap.Occurs root shown enclosing (.list address) part) :
    ∃ first, root = .list first ∧ Relation.ReflTransGen heap.Holds first address := by
  generalize hvalue : Value.list address = value at h
  induction h generalizing address with
  | root => exact ⟨address, hvalue.symm, .refl⟩
  | element _ helement _ ih =>
      obtain ⟨first, hroot, hreached⟩ := ih rfl
      refine ⟨first, hroot, hreached.tail ?_⟩
      rw [Holds, hvalue]
      exact Array.mem_of_getElem? helement

/-- Where no list is inside itself there are no dots. -/
theorem Acyclic.ne_dots {root : Value} {shown part : Shown} {enclosing : List Address}
    {address : Address} (hacyclic : heap.Acyclic root) (h : heap.Shows [] root shown)
    (hoccurs : heap.Occurs root shown enclosing (.list address) part) : part ≠ .dots := by
  intro hdots
  obtain ⟨first, hroot, hreached⟩ := hoccurs.reached_from_root
  have hmem : address ∈ enclosing := (h.of_occurs hoccurs).dots_iff.mp hdots
  exact hacyclic first address hroot hreached (hoccurs.reached address hmem)

/-- Without dots, what is shown is the unfolded value. -/
theorem Acyclic.unfolds {root : Value} {shown : Shown} (hacyclic : heap.Acyclic root)
    (h : heap.Shows [] root shown) : heap.Unfolds root shown := by
  suffices hparts : ∀ enclosing value part, heap.Shows enclosing value part →
      heap.Occurs root shown enclosing value part → heap.Unfolds value part from
    hparts [] root shown h .root
  intro enclosing value part hshows
  induction hshows with
  | scalar hscalar => exact fun _ => .scalar hscalar
  | dots => exact fun hoccurs => absurd rfl (hacyclic.ne_dots h hoccurs)
  | list _ hlength _ ih =>
      intro hoccurs
      apply Unfolds.list hlength
      intro i value part hvalue hpart
      exact ih i value part hvalue hpart (hoccurs.element hvalue hpart)

/-- Displaying any value over any lists comes to an end with one outcome, whose text is displayed. A
list in it is abbreviated by dots exactly if it stands inside itself. So if no list that can be
reached from the value reaches itself, the text is that of the value unfolded to a tree, with every
list written out wherever it occurs. -/
theorem display_dots_iff_enclosed (heap : Heap) (value : Value) :
    ∃ shown, (∀ other, heap.Shows [] value other ↔ other = shown) ∧
      heap.display value = shown.text ∧
      (∀ enclosing address part, heap.Occurs value shown enclosing (.list address) part →
        (part = .dots ↔ address ∈ enclosing)) ∧
      (heap.Acyclic value → heap.Unfolds value shown) := by
  obtain ⟨shown, htext, hunique⟩ := shows_iff heap value
  have hshows : heap.Shows [] value shown := (hunique shown).mpr rfl
  refine ⟨shown, hunique, htext, ?_, fun hacyclic => hacyclic.unfolds hshows⟩
  intro enclosing address part hoccurs
  exact (hshows.of_occurs hoccurs).dots_iff

/-- A list that holds another one twice. -/
def sharedLists : Heap :=
  ⟨#[#[.list 1, .list 1], #[.integer 7]]⟩

theorem lt_of_holds_sharedLists {address inner : ℕ} (h : sharedLists.Holds address inner) :
    address < inner := by
  have hsize : address < 2 := by
    by_contra hout
    have hnone : sharedLists.elements address = #[] := elements_of_size_le (Nat.not_lt.mp hout)
    simp [Holds, hnone] at h
  by_cases hfirst : address = 0
  · subst hfirst
    have hinner : Value.list inner = .list 1 := by simpa [Holds, sharedLists, elements] using h
    cases hinner
    exact Nat.zero_lt_one
  · obtain rfl : address = 1 := by omega
    simp [Holds, sharedLists, elements] at h

theorem acyclic_sharedLists : sharedLists.Acyclic (.list 0) := by
  intro address inner _ _ hcycle
  have hlt : ∀ {other}, Relation.TransGen sharedLists.Holds inner other → inner < other := by
    intro other hreached
    induction hreached with
    | single h => exact lt_of_holds_sharedLists h
    | tail _ h ih => exact Nat.lt_trans ih (lt_of_holds_sharedLists h)
  exact Nat.lt_irrefl inner (hlt hcycle)

/-- A shared list is written out each time. -/
theorem display_dots_iff_enclosed_shared :
    sharedLists.Acyclic (.list 0) ∧
      ∃ shown, sharedLists.Unfolds (.list 0) shown ∧ shown.text = "[[7], [7]]" := by
  obtain ⟨shown, _, htext, _, hunfolds⟩ := display_dots_iff_enclosed sharedLists (.list 0)
  have hdisplay : sharedLists.display (.list 0) = "[[7], [7]]" := by decide +kernel
  exact ⟨acyclic_sharedLists, shown, hunfolds acyclic_sharedLists, htext ▸ hdisplay⟩

/-- A list inside itself, and a list whose text is the same as that of an abbreviated one. -/
example : Heap.display ⟨#[#[.integer 1, .list 0]]⟩ (.list 0) = "[1, [...]]" ∧
    Heap.display ⟨#[#[.string "..."]]⟩ (.list 0) = "[...]" := by
  decide +kernel

end Heap

end Scriptlet
