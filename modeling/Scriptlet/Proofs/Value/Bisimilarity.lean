import Mathlib.Data.Finset.Prod
import Mathlib.Data.List.Forall2
import Mathlib.Logic.Relation
import Mathlib.Order.Bounds.Defs
import Scriptlet.Proofs.Number.DecimalValue
import Scriptlet.Value.Equality

/-! # Equality of values is bisimilarity

Lists may contain themselves, so equality of values cannot be by recursion on them: it is the
largest relation under which related values show the same and hold related elements.

Comparison takes two lists for equal inside their own comparison. That its answers are right all the
same is shown by setting them against what can be seen of two values down to a given depth. That it
comes to an answer at all is shown on rules that describe it without a limit on its levels.
-/

namespace Scriptlet

/-- Two values that are not lists are of one kind and equal, decimals as numbers. -/
inductive Value.SameScalar : Value → Value → Prop
  | nil : SameScalar .nil .nil
  | boolean (value : Bool) : SameScalar (.boolean value) (.boolean value)
  | integer (value : Int) : SameScalar (.integer value) (.integer value)
  | decimal {a b : Decimal} : a.toRat = b.toRat → SameScalar (.decimal a) (.decimal b)
  | character (value : Char) : SameScalar (.character value) (.character value)
  | string (value : String) : SameScalar (.string value) (.string value)

namespace Value

/-- Both values are lists. -/
def BothLists (x y : Value) : Prop :=
  ∃ a b, x = .list a ∧ y = .list b

theorem equalScalar_iff (x y : Value) : x.equalScalar y = true ↔ x.SameScalar y := by
  constructor
  · intro h
    cases x <;> cases y <;> simp only [equalScalar, beq_iff_eq, Bool.false_eq_true] at h
    case nil.nil => exact .nil
    case boolean.boolean => exact h ▸ .boolean _
    case integer.integer => exact h ▸ .integer _
    case decimal.decimal => exact .decimal ((Decimal.equal_iff_toRat_eq _ _).mp h)
    case character.character => exact h ▸ .character _
    case string.string => exact h ▸ .string _
  · intro h
    cases h with
    | decimal hvalue => exact (Decimal.equal_iff_toRat_eq _ _).mpr hvalue
    | _ => simp [equalScalar]

theorem SameScalar.symm {x y : Value} (h : x.SameScalar y) : y.SameScalar x := by
  cases h with
  | decimal hvalue => exact .decimal hvalue.symm
  | _ => constructor

theorem SameScalar.trans {x y z : Value} (h : x.SameScalar y) (h' : y.SameScalar z) :
    x.SameScalar z := by
  cases h with
  | decimal hvalue =>
      cases h' with
      | decimal hvalue' => exact .decimal (hvalue.trans hvalue')
  | _ => exact h'

end Value

namespace Heap

variable {heap : Heap} {x y : Value}

/-! ## Bisimulations -/

/-- Two values show the same, where elements are told apart by the given relation: they are equal
scalars, or lists of the same length with related elements. -/
inductive Matches (heap : Heap) (R : Value → Value → Prop) : Value → Value → Prop
  | scalar {x y : Value} : x.SameScalar y → Matches heap R x y
  | list {a b : Address} : List.Forall₂ R (heap.elements a).toList (heap.elements b).toList →
      Matches heap R (.list a) (.list b)

/-- Related values show the same. -/
def Bisimulation (heap : Heap) (R : Value → Value → Prop) : Prop :=
  ∀ x y, R x y → heap.Matches R x y

theorem Matches.imp {R S : Value → Value → Prop} (h : heap.Matches R x y)
    (himp : ∀ u v, R u v → S u v) : heap.Matches S x y := by
  cases h with
  | scalar hsame => exact .scalar hsame
  | list helements => exact .list (helements.imp himp)

theorem bisimulation_eq (heap : Heap) : heap.Bisimulation (· = ·) := by
  rintro x _ rfl
  cases x with
  | list a => exact .list (List.forall₂_same.mpr fun _ _ => rfl)
  | decimal d => exact .scalar (.decimal rfl)
  | _ => exact .scalar (by constructor)

namespace Bisimulation

variable {R S : Value → Value → Prop}

theorem flip (h : heap.Bisimulation R) : heap.Bisimulation (flip R) := by
  intro x y hrelated
  cases h y x hrelated with
  | scalar hsame => exact .scalar hsame.symm
  | list helements => exact .list helements.flip

theorem comp (h : heap.Bisimulation R) (h' : heap.Bisimulation S) :
    heap.Bisimulation (Relation.Comp R S) := by
  rintro x z ⟨y, hfirst, hsecond⟩
  cases h x y hfirst with
  | scalar hsame =>
      cases h' y z hsecond with
      | scalar hsame' => exact .scalar (hsame.trans hsame')
      | list => cases hsame
  | list helements =>
      cases h' _ z hsecond with
      | scalar hsame' => cases hsame'
      | list helements' =>
          apply Matches.list
          rw [List.forall₂_iff_get] at helements helements' ⊢
          refine ⟨helements.1.trans helements'.1, ?_⟩
          intro i hleft hright
          have hmiddle := helements.1 ▸ hleft
          exact ⟨_, helements.2 i hleft hmiddle, helements'.2 i hmiddle hright⟩

/-- The largest bisimulation is an equivalence, as equality is a bisimulation and bisimulations can
be turned around and put together. -/
theorem equivalence_of_isGreatest (h : IsGreatest {R | heap.Bisimulation R} R) :
    Equivalence R where
  refl x := h.2 (bisimulation_eq heap) x x rfl
  symm hrelated := h.2 h.1.flip _ _ hrelated
  trans hfirst hsecond := h.2 (h.1.comp h.1) _ _ ⟨_, hfirst, hsecond⟩

end Bisimulation

/-! ## Differences down to a depth -/

/-- Down to a number of levels no difference can be seen. -/
def Alike (heap : Heap) : (levels : Nat) → Value → Value → Prop
  | 0, _, _ => True
  | levels + 1, x, y => heap.Matches (heap.Alike levels) x y

theorem Alike.pred {levels : Nat} (h : heap.Alike (levels + 1) x y) : heap.Alike levels x y := by
  induction levels generalizing x y with
  | zero => trivial
  | succ levels ih => exact Matches.imp h fun _ _ => ih

/-- That no difference can be seen at any depth is the largest bisimulation. -/
theorem isGreatest_alike (heap : Heap) :
    IsGreatest {R | heap.Bisimulation R} fun x y => ∀ levels, heap.Alike levels x y := by
  constructor
  · intro x y halike
    cases halike 1 with
    | scalar hsame => exact .scalar hsame
    | list helements =>
        apply Matches.list
        rw [List.forall₂_iff_zip]
        refine ⟨helements.length_eq, ?_⟩
        intro u v hmem levels
        cases halike (levels + 1) with
        | scalar hsame => cases hsame
        | list hdeeper => exact List.forall₂_zip hdeeper hmem
  · intro R hR x y hrelated levels
    induction levels generalizing x y with
    | zero => trivial
    | succ levels ih => exact (hR x y hrelated).imp ih

/-! ## Comparison -/

/-- Comparing two values inside the pairs of lists that are being compared ends with an answer.
There is one rule for each way that a comparison can go, and no limit on its levels: where nothing
follows from the rules, the comparison would go on forever. -/
inductive Compares (heap : Heap) : List (Address × Address) → Value → Value → Bool → Prop
  | scalar {assumed : List (Address × Address)} {x y : Value} :
      ¬x.BothLists y → Compares heap assumed x y (x.equalScalar y)
  | same {assumed : List (Address × Address)} {a : Address} :
      Compares heap assumed (.list a) (.list a) true
  | assumed {assumed : List (Address × Address)} {a b : Address} :
      (a, b) ∈ assumed → Compares heap assumed (.list a) (.list b) true
  | lengths {assumed : List (Address × Address)} {a b : Address} :
      a ≠ b → (a, b) ∉ assumed → (heap.elements a).size ≠ (heap.elements b).size →
        Compares heap assumed (.list a) (.list b) false
  /-- All elements are found equal. -/
  | elements {assumed : List (Address × Address)} {a b : Address} :
      a ≠ b → (a, b) ∉ assumed → (heap.elements a).size = (heap.elements b).size →
        (∀ pair ∈ (heap.elements a).toList.zip (heap.elements b).toList,
          Compares heap ((a, b) :: assumed) pair.1 pair.2 true) →
        Compares heap assumed (.list a) (.list b) true
  /-- The elements before the first difference are found equal, and those behind it are not looked
  at. -/
  | difference {assumed : List (Address × Address)} {a b : Address} {x y : Value}
      {before after : List (Value × Value)} :
      a ≠ b → (a, b) ∉ assumed → (heap.elements a).size = (heap.elements b).size →
        (heap.elements a).toList.zip (heap.elements b).toList = before ++ (x, y) :: after →
        (∀ pair ∈ before, Compares heap ((a, b) :: assumed) pair.1 pair.2 true) →
        Compares heap ((a, b) :: assumed) x y false →
        Compares heap assumed (.list a) (.list b) false

/-- Values that are found equal are alike to any depth to which the pairs of lists are alike that
are assumed to be equal. -/
theorem Compares.alike {assumed : List (Address × Address)}
    (h : heap.Compares assumed x y true) (levels : Nat)
    (hassumed : ∀ pair ∈ assumed, heap.Alike levels (.list pair.1) (.list pair.2)) :
    heap.Alike levels x y := by
  generalize hanswer : true = answer at h
  induction h generalizing levels with
  | scalar =>
      cases levels with
      | zero => trivial
      | succ levels => exact .scalar ((Value.equalScalar_iff _ _).mp hanswer.symm)
  | same => exact (isGreatest_alike heap).2 (bisimulation_eq heap) _ _ rfl levels
  | assumed hmem => exact hassumed _ hmem
  | lengths => cases hanswer
  | difference => cases hanswer
  | elements _ _ hsize _ ih =>
      -- By a second induction the two lists themselves are alike one level less deep, so that they
      -- may be assumed to be equal inside.
      induction levels with
      | zero => trivial
      | succ levels ihlevels =>
          have hpred := fun pair hmem => (hassumed pair hmem).pred
          apply Matches.list
          rw [List.forall₂_iff_zip]
          refine ⟨by simpa using hsize, ?_⟩
          intro u v hmem
          apply ih (u, v) hmem levels _ rfl
          intro pair hpair
          rcases List.mem_cons.mp hpair with rfl | hpair
          · exact ihlevels hpred
          · exact hpred pair hpair

/-- Values that are found different differ at some depth. -/
theorem Compares.exists_not_alike {assumed : List (Address × Address)}
    (h : heap.Compares assumed x y false) : ∃ levels, ¬heap.Alike levels x y := by
  generalize hanswer : false = answer at h
  induction h with
  | @scalar _ x y hlists =>
      refine ⟨1, ?_⟩
      intro halike
      cases halike with
      | scalar hsame =>
          rw [(Value.equalScalar_iff _ _).mpr hsame] at hanswer
          cases hanswer
      | list => exact hlists ⟨_, _, rfl, rfl⟩
  | same => cases hanswer
  | assumed => cases hanswer
  | elements => cases hanswer
  | lengths _ _ hsize =>
      refine ⟨1, ?_⟩
      intro halike
      cases halike with
      | scalar hsame => cases hsame
      | list helements => exact hsize (by simpa using helements.length_eq)
  | difference _ _ _ hzip _ _ _ ih =>
      obtain ⟨levels, hdiffer⟩ := ih rfl
      refine ⟨levels + 1, ?_⟩
      intro halike
      cases halike with
      | scalar hsame => cases hsame
      | list helements =>
          apply hdiffer
          apply List.forall₂_zip helements
          rw [hzip]
          exact List.mem_append_right _ List.mem_cons_self

/-! ## Comparison comes to an end -/

/-- A pair of lists that both have elements is one of the pairs of the heap's lists. -/
theorem lt_size_of_mem_zip {a b : Address} {pair : Value × Value}
    (h : pair ∈ (heap.elements a).toList.zip (heap.elements b).toList) :
    a < heap.size ∧ b < heap.size := by
  have hlt {address : Address} {value : Value} (hmem : value ∈ (heap.elements address).toList) :
      address < heap.size := by
    by_contra hout
    rw [Heap.elements, Array.getElem?_eq_none (Nat.le_of_not_lt hout)] at hmem
    simp at hmem
  obtain ⟨hleft, hright⟩ := List.of_mem_zip h
  exact ⟨hlt hleft, hlt hright⟩

/-- A list of different pairs of the heap's lists is no longer than there are such pairs. -/
theorem length_le_of_nodup {assumed : List (Address × Address)} (hnodup : assumed.Nodup)
    (hrange : ∀ pair ∈ assumed, pair.1 < heap.size ∧ pair.2 < heap.size) :
    assumed.length ≤ heap.size * heap.size := by
  have hsubset : assumed.toFinset ⊆ Finset.range heap.size ×ˢ Finset.range heap.size := by
    intro pair hmem
    simpa using hrange pair (List.mem_toFinset.mp hmem)
  have hcard := Finset.card_le_card hsubset
  rwa [List.toFinset_card_of_nodup hnodup, Finset.card_product, Finset.card_range] at hcard

/-- Two lists are compared by comparing their elements in order, up to the first difference. -/
theorem compares_of_all {assumed : List (Address × Address)} {a b : Address} (hne : a ≠ b)
    (hfree : (a, b) ∉ assumed) (hsize : (heap.elements a).size = (heap.elements b).size)
    {test : Value × Value → Bool}
    (htest : ∀ pair ∈ (heap.elements a).toList.zip (heap.elements b).toList,
      heap.Compares ((a, b) :: assumed) pair.1 pair.2 (test pair)) :
    heap.Compares assumed (.list a) (.list b)
      (((heap.elements a).toList.zip (heap.elements b).toList).all test) := by
  generalize hpairs : (heap.elements a).toList.zip (heap.elements b).toList = pairs at htest ⊢
  cases hfirst : pairs.find? (fun pair => !test pair) with
  | none =>
      have hall : ∀ pair ∈ pairs, test pair = true := by simpa using hfirst
      rw [List.all_eq_true.mpr hall]
      apply Compares.elements hne hfree hsize
      intro pair hmem
      rw [hpairs] at hmem
      exact hall pair hmem ▸ htest pair hmem
  | some pair =>
      obtain ⟨hpair, before, after, rfl, hbefore⟩ := List.find?_eq_some_iff_append.mp hfirst
      have hdiffer : test pair = false := by simpa using hpair
      have hall : (before ++ pair :: after).all test = false := by simp [hdiffer]
      rw [hall]
      refine .difference hne hfree hsize hpairs ?_ ?_
      · intro other hmem
        have hequal : test other = true := by simpa using hbefore other hmem
        exact hequal ▸ htest other (List.mem_append_left _ hmem)
      · exact hdiffer ▸ htest pair (List.mem_append_right _ List.mem_cons_self)

/-- With more levels left than there are pairs of lists not yet under comparison, comparison comes
to its answer by the rules. -/
theorem compares_equalWithin (heap : Heap) (levels : Nat) {assumed : List (Address × Address)}
    (hnodup : assumed.Nodup)
    (hrange : ∀ pair ∈ assumed, pair.1 < heap.size ∧ pair.2 < heap.size)
    (hlevels : heap.size * heap.size < levels + assumed.length) (x y : Value) :
    heap.Compares assumed x y (heap.equalWithin levels assumed x y) := by
  induction levels generalizing assumed x y with
  | zero =>
      have hlength := length_le_of_nodup hnodup hrange
      omega
  | succ levels ih =>
      by_cases hlists : x.BothLists y
      · obtain ⟨a, b, rfl, rfl⟩ := hlists
        rw [equalWithin]
        by_cases hsame : a = b
        · subst hsame
          simpa using Compares.same
        by_cases hmem : (a, b) ∈ assumed
        · simpa [hmem] using Compares.assumed hmem
        have hdistinct : (a == b) = false := beq_false_of_ne hsame
        have hnew : assumed.contains (a, b) = false := by simpa using hmem
        rw [hdistinct, hnew, Bool.false_or, Bool.false_or]
        by_cases hsize : (heap.elements a).size = (heap.elements b).size
        · rw [beq_iff_eq.mpr hsize, Bool.true_and]
          apply compares_of_all hsame hmem hsize
          intro pair hpair
          apply ih (List.nodup_cons.mpr ⟨hmem, hnodup⟩)
          · intro other hother
            rcases List.mem_cons.mp hother with rfl | hother
            · exact lt_size_of_mem_zip hpair
            · exact hrange other hother
          · rw [List.length_cons]
            omega
        · rw [beq_false_of_ne hsize, Bool.false_and]
          exact .lengths hsame hmem hsize
      · have hscalar : heap.equalWithin (levels + 1) assumed x y = x.equalScalar y := by
          cases x <;> cases y <;> try rfl
          exact absurd ⟨_, _, rfl, rfl⟩ hlists
        rw [hscalar]
        exact .scalar hlists

theorem compares_equal (heap : Heap) (x y : Value) :
    heap.Compares [] x y (heap.equal x y) :=
  compares_equalWithin heap _ List.nodup_nil (by simp) (by simp) x y

/-- Values are equal exactly if no difference can be seen at any depth. -/
theorem equal_iff_alike (heap : Heap) (x y : Value) :
    heap.equal x y = true ↔ ∀ levels, heap.Alike levels x y := by
  have hcompares := compares_equal heap x y
  constructor
  · intro hequal levels
    rw [hequal] at hcompares
    exact hcompares.alike levels (by simp)
  · intro halike
    by_contra hdiffer
    rw [Bool.eq_false_of_not_eq_true hdiffer] at hcompares
    obtain ⟨levels, hnot⟩ := hcompares.exists_not_alike
    exact hnot (halike levels)

/-- Comparing any two values over any lists, shared and cyclic ones included, comes to an end with
one answer, and that is whether they are related by the largest relation under which related values
are equal scalars or lists of the same length with related elements. So equality of values is an
equivalence. -/
theorem equal_isGreatest_bisimulation (heap : Heap) :
    (∀ x y answer, heap.Compares [] x y answer ↔ heap.equal x y = answer) ∧
      IsGreatest {R | heap.Bisimulation R} (fun x y => heap.equal x y = true) ∧
      Equivalence fun x y => heap.equal x y = true := by
  have hgreatest : IsGreatest {R | heap.Bisimulation R} fun x y => heap.equal x y = true := by
    simpa only [equal_iff_alike] using isGreatest_alike heap
  refine ⟨?_, hgreatest, Bisimulation.equivalence_of_isGreatest hgreatest⟩
  intro x y answer
  constructor
  · intro hcompares
    cases answer with
    | true => exact (equal_iff_alike heap x y).mpr fun levels => hcompares.alike levels (by simp)
    | false =>
        obtain ⟨levels, hnot⟩ := hcompares.exists_not_alike
        exact Bool.eq_false_of_not_eq_true fun hequal =>
          hnot ((equal_iff_alike heap x y).mp hequal levels)
  · rintro rfl
    exact compares_equal heap x y

/-- Two lists that each contain only themselves, and a list of the two of them in turn. -/
example : Heap.equal ⟨#[#[.list 0], #[.list 1], #[.list 0, .list 1]]⟩ (.list 0) (.list 1) = true ∧
    Heap.equal ⟨#[#[.list 0], #[.list 1], #[.list 0, .list 1]]⟩ (.list 0) (.list 2) = false := by
  decide

end Heap

end Scriptlet
