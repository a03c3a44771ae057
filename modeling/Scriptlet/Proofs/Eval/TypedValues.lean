import Scriptlet.Proofs.Eval.Discipline

/-! # Values of a type

A type takes a value if it accepts the value's own type. What the checks and the operations of
evaluation do with such values.
-/

namespace Scriptlet

/-- What a type takes, a wider one takes too. -/
theorem Ty.accepts_trans {target middle source : Ty} (h : target.accepts middle = true)
    (h' : middle.accepts source = true) : target.accepts source = true := by
  revert h h'
  cases target <;> cases middle <;> cases source <;> decide

namespace Value

variable {ty : Ty} {value left right : Value} {allows : Cause → Prop}

theorem exists_integer (h : Ty.integer.accepts value.ty = true) : ∃ n, value = .integer n := by
  have hty := Ty.eq_of_accepts h (by decide) (by decide)
  cases value <;> cases hty
  exact ⟨_, rfl⟩

theorem exists_boolean (h : Ty.boolean.accepts value.ty = true) : ∃ b, value = .boolean b := by
  have hty := Ty.eq_of_accepts h (by decide) (by decide)
  cases value <;> cases hty
  exact ⟨_, rfl⟩

theorem isString_of_accepts (h : Ty.string.accepts value.ty = true) : value.isString = true := by
  have hty := Ty.eq_of_accepts h (by decide) (by decide)
  cases value <;> cases hty
  rfl

theorem isString_of_numeric (hnumeric : ty.isNumeric = true) (h : ty.accepts value.ty = true) :
    value.isString = false := by
  cases value <;> first | rfl | (cases ty <;> cases hnumeric <;> cases h)

/-! ## Checks -/

/-- The values that the type takes pass the check for it, and no others do. -/
theorem requireFor_eq_ok_iff : value.requireFor ty = .ok () ↔ ty.accepts value.ty = true := by
  unfold requireFor Ty.requireAssignable
  split
  next haccepts => exact ⟨fun _ => haccepts, fun _ => rfl⟩
  next hrefuses => exact ⟨nofun, fun haccepts => absurd haccepts hrefuses⟩

theorem ends_requireFor (h : ty.accepts value.ty = true) :
    Ends (fun _ => True) allows (value.requireFor ty) := by
  rw [requireFor_eq_ok_iff.mpr h]
  trivial

theorem ends_truth (h : Ty.boolean.accepts value.ty = true) :
    Ends (fun _ => True) allows value.truth := by
  obtain ⟨b, rfl⟩ := exists_boolean h
  trivial

/-- An integer can only be outside of a list. -/
theorem ends_position (length : Nat) (h : Ty.integer.accepts value.ty = true) :
    Ends (fun _ => True) (fun cause => cause.isData = true) (value.position length) := by
  obtain ⟨n, rfl⟩ := exists_integer h
  unfold position
  simp only
  split
  · trivial
  · rfl

/-! ## Operations -/

/-- Values of one type that has an order can be compared. -/
theorem exists_compare (hsame : left.ty = right.ty) (hcomparable : left.ty.isComparable = true) :
    ∃ ordering, left.compare right = .ok ordering := by
  cases left <;> cases hcomparable <;> cases right <;> cases hsame <;> exact ⟨_, rfl⟩

theorem exists_equals (hsame : left.ty = right.ty)
    (hcomparable : (left.ty.isComparable || left.ty = .boolean) = true) :
    ∃ result, left.equals right = .ok result := by
  unfold equals
  rw [if_pos hsame]
  cases left <;> first | exact ⟨_, rfl⟩ | cases hcomparable

/-- Two numbers of one type give a number of that type. -/
theorem exists_arithmetic {onIntegers : Int → Int → Int}
    {onDecimals : Decimal → Decimal → Decimal} (hsame : left.ty = right.ty)
    (hnumeric : left.ty.isNumeric = true) :
    ∃ result, arithmetic onIntegers onDecimals left right = .ok result ∧
      result.ty = left.ty := by
  cases left <;> cases hnumeric <;> cases right <;> cases hsame <;> exact ⟨_, rfl, rfl⟩

/-- Arithmetic on two numbers that a type takes gives a number of that type. -/
theorem ends_arithmetic {onIntegers : Int → Int → Int} {onDecimals : Decimal → Decimal → Decimal}
    (hnumeric : ty.isNumeric = true) (hleft : ty.accepts left.ty = true)
    (hright : ty.accepts right.ty = true) :
    Ends (fun result => result.ty = ty ∧ ty ≠ .any) allows
      (arithmetic onIntegers onDecimals left right) := by
  have hany : ty ≠ .any := by rintro rfl; cases hnumeric
  have hcomparable : ty ≠ .comparable := by rintro rfl; cases hnumeric
  have hty := Ty.eq_of_accepts hleft hany hcomparable
  obtain ⟨result, hresult, hsame⟩ := exists_arithmetic
    (hty.trans (Ty.eq_of_accepts hright hany hcomparable).symm) (hty.symm ▸ hnumeric)
  rw [hresult]
  exact ⟨hsame.trans hty, hany⟩

end Value

/-- Two types pass for one type of a kind only if they are the same, of that kind. -/
theorem Ty.of_requireSame {left right result ty : Ty} {kind : Bool} {cause : Cause}
    (h : (do
      Ty.requireSame left right
      if kind then return result else throw cause) = Except.ok ty) :
    left = right ∧ kind = true ∧ ty = result := by
  unfold Ty.requireSame at h
  by_cases hsame : left = right
  · rw [if_pos hsame] at h
    cases kind with
    | true => exact ⟨hsame, rfl, (Except.ok.inj h).symm⟩
    | false => cases h
  · rw [if_neg hsame] at h
    cases h

/-- On operands of their types, an operator fails only if it divides by zero, and what it gives is
of the type of the operation, which is never `Any`. -/
theorem Operator.ends_apply {policy : Division} {operator : Operator} {left right ty : Ty}
    {first second : Value} (heap : Heap) (hty : operator.resultType left right = .ok ty)
    (hfirst : left.accepts first.ty = true) (hsecond : right.accepts second.ty = true) :
    Ends (fun result => result.ty = ty ∧ ty ≠ .any) (fun cause => cause.isData = true)
      (operator.apply policy heap first second) := by
  cases operator with
  | and | or =>
      obtain ⟨hleft, hty⟩ := Ty.of_requireAssignable hty
      obtain ⟨hright, hty⟩ := Ty.of_requireAssignable hty
      obtain ⟨a, rfl⟩ := Value.exists_boolean (Ty.accepts_trans hleft hfirst)
      obtain ⟨b, rfl⟩ := Value.exists_boolean (Ty.accepts_trans hright hsecond)
      cases hty
      exact ⟨rfl, by decide⟩
  | less | greater =>
      obtain ⟨rfl, hkind, rfl⟩ := Ty.of_requireSame hty
      have hany : left ≠ .any := by rintro rfl; cases hkind
      have hcomparable : left ≠ .comparable := by rintro rfl; cases hkind
      have hleft := Ty.eq_of_accepts hfirst hany hcomparable
      obtain ⟨ordering, hordering⟩ := Value.exists_compare
        (hleft.trans (Ty.eq_of_accepts hsecond hany hcomparable).symm) (hleft.symm ▸ hkind)
      simp only [apply, hordering]
      exact ⟨rfl, by decide⟩
  | equal | notEqual =>
      obtain ⟨rfl, hkind, rfl⟩ := Ty.of_requireSame hty
      have hany : left ≠ .any := by rintro rfl; cases hkind
      have hcomparable : left ≠ .comparable := by rintro rfl; cases hkind
      have hleft := Ty.eq_of_accepts hfirst hany hcomparable
      obtain ⟨result, hresult⟩ := Value.exists_equals
        (hleft.trans (Ty.eq_of_accepts hsecond hany hcomparable).symm) (hleft.symm ▸ hkind)
      simp only [apply, hresult]
      exact ⟨rfl, by decide⟩
  | add =>
      unfold resultType at hty
      unfold apply Value.add
      simp only at hty ⊢
      split at hty
      next hstring =>
        cases hty
        have hoperand : (first.isString || second.isString) = true := by
          simp only [Bool.or_eq_true, decide_eq_true_eq] at hstring ⊢
          rcases hstring with hleft | hright
          · exact .inl (Value.isString_of_accepts (hleft ▸ hfirst))
          · exact .inr (Value.isString_of_accepts (hright ▸ hsecond))
        rw [if_pos hoperand]
        exact ⟨rfl, by decide⟩
      next hstring =>
        obtain ⟨rfl, hkind, rfl⟩ := Ty.of_requireSame hty
        rw [Value.isString_of_numeric hkind hfirst, Value.isString_of_numeric hkind hsecond]
        exact Value.ends_arithmetic hkind hfirst hsecond
  | subtract | multiply =>
      obtain ⟨rfl, hkind, rfl⟩ := Ty.of_requireSame hty
      exact Value.ends_arithmetic hkind hfirst hsecond
  | divide =>
      obtain ⟨rfl, hkind, rfl⟩ := Ty.of_requireSame hty
      unfold apply Value.divide
      simp only
      split
      · rfl
      · exact Value.ends_arithmetic hkind hfirst hsecond
  | power =>
      obtain ⟨hleft, hty⟩ := Ty.of_requireAssignable hty
      obtain ⟨hright, hty⟩ := Ty.of_requireAssignable hty
      obtain ⟨a, rfl⟩ := Value.exists_integer (Ty.accepts_trans hleft hfirst)
      obtain ⟨b, rfl⟩ := Value.exists_integer (Ty.accepts_trans hright hsecond)
      cases hty
      exact ⟨rfl, by decide⟩

/-- The value of a constant is of its type, which is never `Any`. -/
theorem Literal.ty_ofLiteral {literal : Literal} {ty : Ty} (h : literal.type = .ok ty) :
    (Value.ofLiteral literal).ty = ty ∧ ty ≠ .any := by
  cases literal with
  | integer n | decimal d =>
      unfold Literal.type at h
      simp only at h
      split at h <;> cases h
      exact ⟨rfl, by decide⟩
  | _ =>
      cases h
      exact ⟨rfl, by decide⟩

end Scriptlet
