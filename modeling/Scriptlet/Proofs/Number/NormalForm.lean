import Scriptlet.Number.DecimalText
import Scriptlet.Proofs.Number.DecimalValue

/-! # Normal forms of decimals

Taking the trailing zeros off the digits of a decimal changes its scale but not the number. Digits
without trailing zeros leave no choice of the scale, so equal numbers have one normal form, and one
text.
-/

namespace Scriptlet.Decimal

/-! ## Trailing zeros -/

theorem toRat_strip (d : Decimal) : d.strip.toRat = d.toRat := by
  fun_induction strip d with
  | case1 d => rfl
  | case2 d hzeros ih =>
      simp only [Bool.or_eq_true, decide_eq_true_eq, not_or, not_not] at hzeros
      have hdigits : d.digits = d.digits / 10 * 10 := by omega
      have hscale : -(d.scale - 1) = 1 + -d.scale := by omega
      have hten : (10 : ℚ) ≠ 0 := by norm_num
      calc (strip ⟨d.digits / 10, d.scale - 1⟩).toRat
          = (d.digits / 10 : ℤ) * 10 ^ (-(d.scale - 1)) := ih
        _ = (d.digits / 10 * 10 : ℤ) * 10 ^ (-d.scale) := by
            rw [hscale, zpow_add₀ hten, zpow_one, Int.cast_mul, mul_assoc]
            rfl
        _ = d.toRat := by rw [← hdigits, toRat]

/-- What is left has no trailing zeros, unless it is zero. -/
theorem digits_strip (d : Decimal) : d.strip.digits = 0 ∨ d.strip.digits % 10 ≠ 0 := by
  fun_induction strip d with
  | case1 d hdone => simpa using hdone
  | case2 d _ ih => exact ih

theorem digits_strip_eq_zero (d : Decimal) : d.strip.digits = 0 ↔ d.toRat = 0 := by
  rw [← toRat_strip]
  constructor
  · intro hzero
    rw [toRat, hzero, Int.cast_zero, zero_mul]
  · intro hzero
    by_contra hdigits
    exact toRat_ne_zero hdigits hzero

/-! ## One normal form -/

/-- Equal numbers are written with the same digits at a common scale. -/
theorem digits_mul_of_toRat_eq {a b : Decimal} (h : a.toRat = b.toRat) :
    a.digits * tenPower (b.scale - a.scale).toNat =
      b.digits * tenPower (a.scale - b.scale).toNat := by
  have hsame : ((a.extend b.scale).digits : ℚ) = (b.extend a.scale).digits := by
    rw [digits_extend_eq_toRat_mul, digits_extend_eq_toRat_mul, h, max_comm]
  rw [← digits_extend, ← digits_extend]
  exact_mod_cast hsame

/-- Digits at a smaller scale end with a zero. -/
theorem scale_le_of_toRat_eq {a b : Decimal} (hzeros : b.digits % 10 ≠ 0)
    (h : a.toRat = b.toRat) : b.scale ≤ a.scale := by
  by_contra hlt
  rw [not_le] at hlt
  obtain ⟨more, hmore⟩ : ∃ more, (b.scale - a.scale).toNat = more + 1 :=
    ⟨(b.scale - a.scale).toNat - 1, by omega⟩
  have hzero : (a.scale - b.scale).toNat = 0 := by omega
  have hdigits : b.digits = a.digits * tenPower more * 10 := by
    have hsame := digits_mul_of_toRat_eq h
    rw [hmore, hzero] at hsame
    simp only [tenPower, Nat.pow_eq, pow_succ, pow_zero, Nat.cast_mul, Nat.cast_one,
      mul_one] at hsame ⊢
    rw [← hsame, mul_assoc]
    rfl
  exact hzeros (by rw [hdigits, Int.mul_emod_left])

/-- Digits without trailing zeros determine the scale. -/
theorem eq_of_toRat_eq {a b : Decimal} (ha : a.digits % 10 ≠ 0) (hb : b.digits % 10 ≠ 0)
    (h : a.toRat = b.toRat) : a = b := by
  have hscale : a.scale = b.scale :=
    le_antisymm (scale_le_of_toRat_eq ha h.symm) (scale_le_of_toRat_eq hb h)
  have hdigits := digits_mul_of_toRat_eq h
  rw [hscale, sub_self] at hdigits
  have hdigits : a.digits = b.digits := by simpa [tenPower] using hdigits
  cases a
  cases b
  simp_all

/-- Equal numbers have the same text. -/
theorem write_eq_of_toRat_eq {a b : Decimal} (h : a.toRat = b.toRat) : a.write = b.write := by
  have hzero : a.strip.digits = 0 ↔ b.strip.digits = 0 := by
    rw [digits_strip_eq_zero, digits_strip_eq_zero, h]
  by_cases ha : a.strip.digits = 0
  · rw [write, write, if_pos ha, if_pos (hzero.mp ha)]
  · have hb : b.strip.digits ≠ 0 := fun hb => ha (hzero.mpr hb)
    have hsame : a.strip = b.strip := by
      apply eq_of_toRat_eq (a.digits_strip.resolve_left ha) (b.digits_strip.resolve_left hb)
      rw [toRat_strip, toRat_strip, h]
    rw [write, write, hsame]

end Scriptlet.Decimal
