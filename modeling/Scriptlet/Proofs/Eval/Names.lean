import Scriptlet.Proofs.Eval.Checked

/-! # Safety of names

A checked program never misses a name, a type or a place to assign to while it runs. This asks for
nothing but that the slots of variables come from the declarations that the typing names, so the
discipline says nothing of values.
-/

namespace Scriptlet

variable {σ α β : Type}

/-- The errors that depend on the values of a run. -/
def Cause.isOfValues : Cause → Bool
  | .typeMismatch _ _ => true
  | cause => cause.isData

/-- The computation fails, if at all, because of values. -/
abbrev FailsOnValues (result : Except Cause α) : Prop :=
  Ends (fun _ => True) (fun cause => cause.isOfValues = true) result

theorem FailsOnValues.bind {first : Except Cause α} {next : α → Except Cause β}
    (hfirst : FailsOnValues first) (hnext : ∀ value, FailsOnValues (next value)) :
    FailsOnValues (first >>= next) := by
  cases first with
  | ok value => exact hnext value
  | error cause => exact hfirst

namespace Value

theorem requireFor_fails (value : Value) (target : Ty) :
    FailsOnValues (value.requireFor target) := by
  unfold requireFor Ty.requireAssignable
  split
  · trivial
  · rfl

theorem truth_fails (value : Value) : FailsOnValues value.truth := by
  cases value <;> trivial

theorem position_fails (value : Value) (length : Nat) :
    FailsOnValues (value.position length) := by
  cases value with
  | integer n =>
      unfold position
      simp only
      split
      · trivial
      · rfl
  | _ => rfl

theorem compare_fails (left right : Value) : FailsOnValues (left.compare right) := by
  unfold compare
  split
  case h_5 => split <;> trivial
  all_goals trivial

theorem equals_fails (left right : Value) : FailsOnValues (left.equals right) := by
  unfold equals
  split
  · split <;> trivial
  · rfl

theorem arithmetic_fails (onIntegers : Int → Int → Int) (onDecimals : Decimal → Decimal → Decimal)
    (left right : Value) : FailsOnValues (arithmetic onIntegers onDecimals left right) := by
  unfold arithmetic
  split <;> trivial

theorem raise_fails (left right : Value) : FailsOnValues (left.raise right) := by
  unfold raise
  split <;> trivial

end Value

/-- An operator fails, if at all, because of its operands. -/
theorem Operator.apply_fails (policy : Division) (heap : Heap) (operator : Operator)
    (left right : Value) : FailsOnValues (operator.apply policy heap left right) := by
  cases operator with
  | and | or =>
      exact (left.truth_fails).bind fun _ => (right.truth_fails).bind fun _ => trivial
  | less | greater => exact (left.compare_fails right).bind fun _ => trivial
  | equal | notEqual => exact (left.equals_fails right).bind fun _ => trivial
  | add =>
      unfold apply Value.add
      simp only
      split
      · trivial
      · exact Value.arithmetic_fails _ _ left right
  | subtract | multiply => exact Value.arithmetic_fails _ _ left right
  | divide =>
      unfold apply Value.divide
      simp only
      split
      · rfl
      · exact Value.arithmetic_fails _ _ left right
  | power => exact left.raise_fails right

/-- The discipline of names: a slot comes from the declaration that the typing names, and only
nodes of the program are ever looked at. -/
def Discipline.names (p : Program) (notes : Annotations) (policy : Division)
    (builtins : List (Builtin σ)) : Discipline σ notes policy builtins where
  World := Unit
  later _ _ := True
  fits _ _ _ := True
  keeps _ _ := True
  store _ _ _ := True
  shows info slot := slot.origin = some info.origin
  allows cause := cause.isOfValues = true
  admits node := node ∈ p.nodes
  later_refl _ := trivial
  later_trans _ _ := trivial
  fits_later _ _ := trivial
  keeps_later _ _ := trivial
  allows_data {cause} h := by cases cause <;> first | rfl | cases h
  fits_of_accepts _ _ := trivial
  fits_literal _ := trivial
  fits_boolean _ := trivial
  require {_ ty value} _ := value.requireFor_fails ty
  truth {_ value} _ := value.truth_fails
  position {_ index} length _ := index.position_fails length
  operation {_ operator _ _ _ first second} heap _ _ _ :=
    operator.apply_fails policy heap first second
  shows_scalar _ _ := rfl
  keeps_scalar _ _ _ := trivial
  keeps_unset _ _ := trivial
  inferred _ _ _ _ := ⟨trivial, rfl⟩
  keeps_unset_global _ _ _ := trivial
  shows_list _ _ _ := rfl
  access _ _ _ _ := trivial
  assign {_ _ _ _ slot value} _ _ _ _ _ := value.requireFor_fails (slot.accepted false)
  element _ _ _ _ _ _ := trivial
  accepted_indexed _ _ _ := trivial
  assign_element _ _ _ _ _ _ _ := trivial
  create _ _ := ⟨(), trivial, trivial, trivial⟩
  create_global _ _ _ _ := ⟨(), trivial, trivial, trivial⟩
  native _ _ _ := ⟨(), trivial, trivial, trivial⟩
  unreturned _ _ _ := trivial

/-- If a text is a checked program, then a run of it ends with an error only because of the values
it computes with: of a type that does not fit, a value that is no list, an index outside a list, a
division by zero, or an assignment to a variable that cannot be changed. -/
theorem evaluate_error_of_values (text : String) (builtins : List (Builtin σ)) (policy : Division)
    (limit : Nat) (host : σ) (hcheck : (check text builtins).isOk = true) (error : Error)
    (herror : (evaluate text builtins policy limit host).outcome = .error error) :
    error.stage = .runtime ∧ error.cause.isOfValues = true := by
  unfold evaluate at herror
  cases hresult : check text builtins with
  | error refused => simp [hresult, Except.isOk, Except.toBool] at hcheck
  | ok checked =>
      obtain ⟨p, notes⟩ := checked
      rw [hresult] at herror
      have hstore : (Discipline.names p notes policy builtins).store () .empty host := trivial
      have hrun := (Discipline.names p notes policy builtins).run_ensured (checked_of_check hresult)
        (fun _ hnode => hnode) hstore limit
      simp only at herror
      rw [herror] at hrun
      exact hrun

/-- A checked program whose loop divides by zero in its second round. -/
theorem evaluate_error_of_values_division :
    ∃ text : String, (check text ([] : List (Builtin Unit))).isOk = true ∧
      (evaluate text [] .unscaled 3 ()).outcome = .error ⟨.divisionByZero, .runtime⟩ ∧
      Cause.divisionByZero.isOfValues = true := by
  have hcheck : (check "FUN main(): Integer DO LET n = 2; WHILE TRUE DO n = (n - 1) / n; END END"
      ([] : List (Builtin Unit))).isOk = true := by decide +kernel
  have hrun : (evaluate "FUN main(): Integer DO LET n = 2; WHILE TRUE DO n = (n - 1) / n; END END"
      [] .unscaled 3 ()).outcome = .error ⟨.divisionByZero, .runtime⟩ := by decide +kernel
  exact ⟨_, hcheck, hrun, (evaluate_error_of_values _ _ _ _ _ hcheck _ hrun).2⟩

end Scriptlet
