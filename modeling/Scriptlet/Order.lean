/-! # Orderings

The outcome of comparing two things that are ordered by a strict order.
-/

namespace Scriptlet

/-- The order of two values from a strict order and equality. -/
def orderBy {α : Type} [DecidableEq α] [LT α] [DecidableLT α] (a b : α) : Ordering :=
  if a < b then .lt else if a = b then .eq else .gt

theorem orderBy_of_lt {a b : Int} (hlt : a < b) : orderBy a b = .lt := by
  simp [orderBy, hlt]

theorem orderBy_of_gt {a b : Int} (hgt : b < a) : orderBy a b = .gt := by
  have hnot : ¬a < b := by omega
  have hne : ¬a = b := by omega
  simp [orderBy, hnot, hne]

theorem lt_of_sign_lt {a b : Int} (hsign : a.sign < b.sign) : a < b := by
  rcases Int.lt_trichotomy a 0 with ha | ha | ha
  · have hsa := Int.sign_eq_neg_one_of_neg ha
    have hb : 0 ≤ b := Int.sign_nonneg_iff.mp (by omega)
    omega
  · have hb : 0 < b.sign := by simpa [ha] using hsign
    have hpos := Int.sign_pos_iff.mp hb
    omega
  · have hsa := Int.sign_eq_one_of_pos ha
    have hle : b.sign ≤ 1 := by
      rcases Int.sign_trichotomy b with h | h | h <;> omega
    omega

/-- Integers of different signs are ordered as their signs are. -/
theorem orderBy_sign {a b : Int} (hsign : a.sign ≠ b.sign) :
    orderBy a.sign b.sign = orderBy a b := by
  rcases Int.lt_or_gt_of_ne hsign with hlt | hgt
  · rw [orderBy_of_lt hlt, orderBy_of_lt (lt_of_sign_lt hlt)]
  · rw [orderBy_of_gt hgt, orderBy_of_gt (lt_of_sign_lt hgt)]

end Scriptlet
