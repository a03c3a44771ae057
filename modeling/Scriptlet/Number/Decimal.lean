import Scriptlet.Number.Numeral
import Scriptlet.Order

/-! # Decimals

Exact decimal fractions. A decimal keeps the scale it was written or computed with, so equal
numbers may have several representations; `order` and `equal` compare the numbers.
-/

namespace Scriptlet

/-- The number `digits / 10 ^ scale`. -/
structure Decimal where
  digits : Int
  scale : Int
deriving DecidableEq, Repr

namespace Decimal

/-- The power of ten, as an integer. -/
def tenPower (exponent : Nat) : Int :=
  ((Nat.pow 10 exponent : Nat) : Int)

def isZero (d : Decimal) : Bool :=
  d.digits == 0

/-- The same number at a scale that is at least `scale`. -/
def extend (d : Decimal) (scale : Int) : Decimal :=
  if scale ≤ d.scale then d
  else if d.isZero then ⟨0, scale⟩
  else ⟨d.digits * tenPower (scale - d.scale).toNat, scale⟩

/-- The digits of two decimals at their larger scale. -/
def aligned (a b : Decimal) : Int × Int :=
  ((a.extend b.scale).digits, (b.extend a.scale).digits)

/-- The number of digits before the point of a decimal other than zero; zeros just after the point
count against it. Such a decimal is, up to its sign, less than `10 ^ magnitude` and not less than a
tenth of that. -/
def magnitude (d : Decimal) : Int :=
  (Numeral.writeNat d.digits.natAbs).length - d.scale

/-- The order of two decimals as numbers. Decimals of different sign or magnitude are told apart
without a common scale, which may be out of reach. -/
def order (a b : Decimal) : Ordering :=
  let sign := a.digits.sign
  if sign ≠ b.digits.sign then orderBy sign b.digits.sign
  else if a.magnitude ≠ b.magnitude then orderBy (sign * a.magnitude) (sign * b.magnitude)
  else orderBy (aligned a b).1 (aligned a b).2

/-- Whether two decimals are the same number. -/
def equal (a b : Decimal) : Bool :=
  a.order b = .eq

/-- Whether a decimal is written as one with at most 38 fractional digits. -/
def isPlainOne (d : Decimal) : Bool :=
  0 ≤ d.scale && d.scale ≤ 38 && d.digits == tenPower d.scale.toNat

def neg (d : Decimal) : Decimal :=
  ⟨-d.digits, d.scale⟩

/-- The sum, at the larger of the two scales. -/
def add (a b : Decimal) : Decimal :=
  let (x, y) := aligned a b
  ⟨x + y, max a.scale b.scale⟩

/-- The difference. A zero on either side leaves the scale of the other one; otherwise the scale
is the larger of the two. -/
def sub (a b : Decimal) : Decimal :=
  if b.isZero then a
  else if a.isZero then b.neg
  else
    let (x, y) := aligned a b
    ⟨x - y, max a.scale b.scale⟩

/-- The product. A factor written as one leaves the other one as it is; otherwise the scales
add. -/
def mul (a b : Decimal) : Decimal :=
  if a.isPlainOne then b
  else if b.isPlainOne then a
  else ⟨a.digits * b.digits, a.scale + b.scale⟩

/-- A power of ten is positive. -/
theorem tenPower_pos (exponent : Nat) : 0 < tenPower exponent :=
  Int.natCast_pos.mpr (Nat.pow_pos (by decide))

theorem digits_extend (d : Decimal) (scale : Int) :
    (d.extend scale).digits = d.digits * tenPower (scale - d.scale).toNat := by
  unfold extend
  split
  next hle =>
    have hzero : (scale - d.scale).toNat = 0 := by omega
    simp [hzero, tenPower]
  next hgt =>
    split
    next hdigits =>
      have hdigits : d.digits = 0 := by simpa [isZero] using hdigits
      simp [hdigits]
    next => rfl

theorem sign_extend (d : Decimal) (scale : Int) :
    (d.extend scale).digits.sign = d.digits.sign := by
  rw [digits_extend, Int.sign_mul, Int.sign_eq_one_of_pos (tenPower_pos _), Int.mul_one]

/-- Of two decimals the one of smaller magnitude has the smaller digits at their common scale. -/
theorem natAbs_extend_lt {a b : Decimal} (hb : b.digits ≠ 0)
    (hmagnitude : a.magnitude < b.magnitude) :
    (a.extend b.scale).digits.natAbs < (b.extend a.scale).digits.natAbs := by
  have hlow := Numeral.pow_length_writeNat_le (Int.natAbs_pos.mpr hb)
  have hhigh := Numeral.lt_pow_length_writeNat a.digits.natAbs
  have hlength : 0 < (Numeral.writeNat b.digits.natAbs).length := Nat.length_toDigits_pos
  simp only [magnitude] at hmagnitude
  rw [digits_extend, digits_extend, Int.natAbs_mul, Int.natAbs_mul]
  simp only [tenPower, Int.natAbs_natCast]
  generalize (Numeral.writeNat a.digits.natAbs).length = m at *
  generalize (Numeral.writeNat b.digits.natAbs).length = n at *
  have hexponent : m + (b.scale - a.scale).toNat ≤ n - 1 + (a.scale - b.scale).toNat := by omega
  calc a.digits.natAbs * Nat.pow 10 (b.scale - a.scale).toNat
      < Nat.pow 10 m * Nat.pow 10 (b.scale - a.scale).toNat :=
        Nat.mul_lt_mul_of_pos_right hhigh (Nat.pow_pos (by decide))
    _ = Nat.pow 10 (m + (b.scale - a.scale).toNat) := (Nat.pow_add 10 _ _).symm
    _ ≤ Nat.pow 10 (n - 1 + (a.scale - b.scale).toNat) :=
        Nat.pow_le_pow_right (by decide) hexponent
    _ = Nat.pow 10 (n - 1) * Nat.pow 10 (a.scale - b.scale).toNat := Nat.pow_add 10 _ _
    _ ≤ b.digits.natAbs * Nat.pow 10 (a.scale - b.scale).toNat := Nat.mul_le_mul_right _ hlow

/-- The order of two decimals is that of their digits at a common scale. -/
theorem order_eq_orderBy_aligned (a b : Decimal) :
    a.order b = orderBy (aligned a b).1 (aligned a b).2 := by
  have hx := sign_extend a b.scale
  have hy := sign_extend b a.scale
  simp only [order, aligned]
  split
  next hsign =>
    rw [← hx, ← hy] at hsign ⊢
    exact orderBy_sign hsign
  next hsign =>
    have hsign : a.digits.sign = b.digits.sign := Decidable.not_not.mp hsign
    split
    next hne =>
      rcases Int.lt_trichotomy a.digits 0 with ha | ha | ha
      · have hsa := Int.sign_eq_neg_one_of_neg ha
        have hb : b.digits < 0 := Int.sign_eq_neg_one_iff_neg.mp (by omega)
        have hxneg := Int.sign_eq_neg_one_iff_neg.mp (hx.trans hsa)
        have hyneg := Int.sign_eq_neg_one_iff_neg.mp (hy.trans (hsign.symm.trans hsa))
        rw [hsa]
        rcases Int.lt_or_gt_of_ne hne with hlt | hgt
        · have habs := natAbs_extend_lt (by omega) hlt
          rw [orderBy_of_gt (by omega), orderBy_of_gt (by omega)]
        · have habs := natAbs_extend_lt (by omega) hgt
          rw [orderBy_of_lt (by omega), orderBy_of_lt (by omega)]
      · have hb : b.digits = 0 := Int.sign_eq_zero_iff_zero.mp (by simpa [ha] using hsign.symm)
        simp [digits_extend, ha, hb, orderBy]
      · have hsa := Int.sign_eq_one_of_pos ha
        have hb : 0 < b.digits := Int.sign_eq_one_iff_pos.mp (by omega)
        have hxpos := Int.sign_eq_one_iff_pos.mp (hx.trans hsa)
        have hypos := Int.sign_eq_one_iff_pos.mp (hy.trans (hsign.symm.trans hsa))
        rw [hsa]
        rcases Int.lt_or_gt_of_ne hne with hlt | hgt
        · have habs := natAbs_extend_lt (by omega) hlt
          rw [orderBy_of_lt (by omega), orderBy_of_lt (by omega)]
        · have habs := natAbs_extend_lt (by omega) hgt
          rw [orderBy_of_gt (by omega), orderBy_of_gt (by omega)]
    next => rfl

end Decimal

end Scriptlet
