import Mathlib.Algebra.Order.Field.Rat
import Mathlib.Tactic.NormNum
import Scriptlet.Number.Decimal

/-! # Decimals as numbers

The rational number that a decimal is. The scale is part of how the number is written, so decimals
are compared through it.
-/

namespace Scriptlet.Decimal

/-- The number `digits / 10 ^ scale`. -/
def toRat (d : Decimal) : ℚ :=
  d.digits * 10 ^ (-d.scale)

theorem cast_tenPower (exponent : ℕ) : ((tenPower exponent : ℤ) : ℚ) = 10 ^ exponent := by
  simp [tenPower]

theorem toRat_ne_zero {d : Decimal} (h : d.digits ≠ 0) : d.toRat ≠ 0 :=
  mul_ne_zero (Int.cast_ne_zero.mpr h) (zpow_ne_zero _ (by norm_num))

theorem digits_ne_zero {d : Decimal} (h : d.toRat ≠ 0) : d.digits ≠ 0 := by
  intro hzero
  apply h
  rw [toRat, hzero, Int.cast_zero, zero_mul]

/-- The digits at a larger scale are the number times the power of ten of that scale. -/
theorem digits_extend_eq_toRat_mul (d : Decimal) (scale : Int) :
    ((d.extend scale).digits : ℚ) = d.toRat * 10 ^ max d.scale scale := by
  have hexponent : -d.scale + max d.scale scale = ((scale - d.scale).toNat : Int) := by omega
  have hten : (10 : ℚ) ≠ 0 := by norm_num
  rw [digits_extend, toRat, mul_assoc, ← zpow_add₀ hten, hexponent, zpow_natCast]
  simp [tenPower]

/-- Decimals are equal exactly if they are the same number. -/
theorem equal_iff_toRat_eq (a b : Decimal) : a.equal b = true ↔ a.toRat = b.toRat := by
  have hpower : (10 : ℚ) ^ max a.scale b.scale ≠ 0 := zpow_ne_zero _ (by norm_num)
  have horder : a.equal b = true ↔ (aligned a b).1 = (aligned a b).2 := by
    rw [equal, order_eq_orderBy_aligned, decide_eq_true_eq]
    unfold orderBy
    split
    next hlt => simp [hlt.ne]
    next => split <;> simp_all
  rw [horder, ← Int.cast_inj (α := ℚ)]
  simp only [aligned]
  rw [digits_extend_eq_toRat_mul, digits_extend_eq_toRat_mul, max_comm b.scale,
    mul_left_inj' hpower]

end Scriptlet.Decimal
