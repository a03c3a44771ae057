import Mathlib.Algebra.Order.Field.Basic
import Mathlib.Algebra.Order.Field.Rat
import Mathlib.Tactic.Linarith
import Mathlib.Tactic.NormNum
import Scriptlet.Number.Quotient
import Scriptlet.Proofs.Number.DecimalValue

/-! # Rounded quotients

The quotient of two decimals rounded to a number of fractional digits. Its digits are the integer
nearest to the exact quotient at that scale, the even one of two that are equally near. There is
only one such integer, so the scales of the operands do not matter.
-/

namespace Scriptlet

/-- No integer is nearer to the number, and if another one is equally near, this one is even. -/
structure NearestEven (x : ℚ) (k : ℤ) : Prop where
  nearest : ∀ other : ℤ, |x - k| ≤ |x - other|
  even : ∀ other : ℤ, other ≠ k → |x - other| = |x - k| → Even k

namespace NearestEven

variable {x : ℚ} {k other : ℤ}

/-- Different integers are at least one apart. -/
theorem one_le_abs_sub (hne : other ≠ k) : (1 : ℚ) ≤ |(other : ℚ) - k| := by
  have hpos : 0 < |other - k| := abs_pos.mpr (sub_ne_zero.mpr hne)
  exact_mod_cast Int.add_one_le_of_lt hpos

/-- An integer at most one half away is nearest, and it has a rival only if it is one half away. -/
theorem of_half (hle : |x - k| ≤ 1 / 2) (heven : |x - k| = 1 / 2 → Even k) : NearestEven x k := by
  have hapart {other : ℤ} (hne : other ≠ k) : 1 - |x - k| ≤ |x - other| := by
    have hone := one_le_abs_sub hne
    have htriangle := abs_sub_le (other : ℚ) x k
    rw [abs_sub_comm (other : ℚ) x] at htriangle
    linarith
  constructor
  · intro other
    by_cases hne : other = k
    · rw [hne]
    · linarith [hapart hne]
  · intro other hne hsame
    apply heven
    linarith [hapart hne]

/-- The nearest integer is at most one half away. -/
theorem abs_le_half (h : NearestEven x k) : |x - k| ≤ 1 / 2 := by
  have hup := h.nearest (k + 1)
  have hdown := h.nearest (k - 1)
  push_cast at hup hdown
  by_contra hfar
  rw [not_le] at hfar
  rcases abs_cases (x - k) with ⟨habs, _⟩ | ⟨habs, _⟩
  · rw [habs] at hup hfar
    rcases abs_cases (x - (k + 1)) with ⟨hnext, _⟩ | ⟨hnext, _⟩ <;> linarith
  · rw [habs] at hdown hfar
    rcases abs_cases (x - (k - 1)) with ⟨hnext, _⟩ | ⟨hnext, _⟩ <;> linarith

/-- There is only one such integer: two would be even and one apart. -/
theorem unique (h : NearestEven x k) (h' : NearestEven x other) : k = other := by
  by_contra hne
  have hsame : |x - k| = |x - other| := le_antisymm (h.nearest other) (h'.nearest k)
  have heven := h.even other (Ne.symm hne) hsame.symm
  have heven' := h'.even k hne hsame
  have hone : |(k : ℚ) - other| ≤ 1 := by
    have htriangle := abs_sub_le (k : ℚ) x other
    rw [abs_sub_comm (k : ℚ) x] at htriangle
    linarith [h.abs_le_half, h'.abs_le_half]
  have hapart : |k - other| ≤ 1 := by exact_mod_cast hone
  obtain ⟨m, rfl⟩ := heven
  obtain ⟨n, rfl⟩ := heven'
  rw [abs_le] at hapart
  omega

end NearestEven

/-! ## Quotients of integers -/

/-- One step further away from zero than truncation, the rest is what truncation leaves short of the
denominator. -/
theorem abs_tmod_sub_sign_mul {numerator denominator : ℤ} (hpos : 0 < denominator)
    (hne : numerator ≠ 0) :
    |numerator.tmod denominator - numerator.sign * denominator| =
      denominator - |numerator.tmod denominator| := by
  rcases lt_or_gt_of_ne hne with hneg | hnum
  · have hlow := Int.lt_tmod_of_pos numerator hpos
    have hsame : numerator.tmod denominator ≤ 0 := by
      have hflip := Int.tmod_nonneg denominator (Int.neg_nonneg_of_nonpos hneg.le)
      rw [Int.neg_tmod] at hflip
      omega
    rw [Int.sign_eq_neg_one_of_neg hneg, abs_of_nonpos hsame, abs_of_pos (by omega)]
    omega
  · have hhigh := Int.tmod_lt_of_pos numerator hpos
    have hsame := Int.tmod_nonneg denominator hnum.le
    rw [Int.sign_eq_one_of_pos hnum, abs_of_nonneg hsame, abs_of_neg (by omega)]
    omega

/-- What is left after rounding is at most half of the denominator, and exactly half of it only if
the rounded quotient is even. -/
theorem roundHalfEven_half (numerator : ℤ) {denominator : ℤ} (hpos : 0 < denominator) :
    2 * |numerator - roundHalfEven numerator denominator * denominator| ≤ denominator ∧
      (2 * |numerator - roundHalfEven numerator denominator * denominator| = denominator →
        Even (roundHalfEven numerator denominator)) := by
  have hrest : numerator - numerator.tdiv denominator * denominator =
      numerator.tmod denominator := by
    have hsplit := Int.tdiv_mul_add_tmod numerator denominator
    omega
  have habs : |numerator.tmod denominator| = (numerator.tmod denominator).natAbs :=
    Int.abs_eq_natAbs _
  unfold roundHalfEven
  simp only [hrest, Bool.or_eq_true, Bool.and_eq_true, decide_eq_true_eq]
  split
  next haway =>
    have hne : numerator ≠ 0 := by
      rintro rfl
      rw [Int.zero_tmod] at haway
      omega
    have hover := abs_tmod_sub_sign_mul hpos hne
    rw [add_mul, ← sub_sub, hrest, hover]
    constructor
    · omega
    · intro htie
      have hodd : numerator.tdiv denominator % 2 ≠ 0 := by omega
      rw [Int.even_iff]
      rcases lt_or_gt_of_ne hne with hneg | hnum
      · rw [Int.sign_eq_neg_one_of_neg hneg]
        omega
      · rw [Int.sign_eq_one_of_pos hnum]
        omega
  next hstay =>
    rw [hrest, Int.even_iff]
    constructor
    · omega
    · intro htie
      omega

/-- The rounded quotient of two integers is the one nearest to the exact quotient. -/
theorem nearestEven_roundHalfEven (numerator : ℤ) {denominator : ℤ} (hpos : 0 < denominator) :
    NearestEven (numerator / denominator) (roundHalfEven numerator denominator) := by
  obtain ⟨hle, heven⟩ := roundHalfEven_half numerator hpos
  generalize roundHalfEven numerator denominator = k at *
  have hrat : (0 : ℚ) < denominator := by exact_mod_cast hpos
  have hdistance : |(numerator / denominator : ℚ) - k| =
      |(numerator : ℚ) - k * denominator| / denominator := by
    rw [div_sub' hrat.ne', abs_div, abs_of_pos hrat, mul_comm]
  have hle : 2 * |(numerator : ℚ) - k * denominator| ≤ denominator := by exact_mod_cast hle
  apply NearestEven.of_half
  · rw [hdistance, div_le_iff₀ hrat]
    linarith
  · intro hhalf
    apply heven
    rw [hdistance, div_eq_iff hrat.ne'] at hhalf
    have htie : 2 * |(numerator : ℚ) - k * denominator| = denominator := by linarith
    exact_mod_cast htie

/-! ## Quotients of decimals -/

namespace Decimal

/-- The exact quotient at a scale, by the difference of the scales. -/
theorem toRat_div_mul (a b : Decimal) (digits : ℕ) :
    a.toRat / b.toRat * 10 ^ digits =
      a.digits / b.digits * 10 ^ (b.scale - a.scale + digits) := by
  have hten : (10 : ℚ) ≠ 0 := by norm_num
  rw [toRat, toRat, mul_div_mul_comm, mul_assoc, ← zpow_sub₀ hten, ← zpow_natCast,
    ← zpow_add₀ hten]
  congr 2
  omega

/-- A quotient is shifted up by its numerator and down by its denominator. -/
theorem shifted_quotient (n m shift : ℤ) :
    (((if 0 ≤ shift then n * tenPower shift.toNat else n : ℤ) : ℚ) /
      ((if 0 ≤ shift then m else m * tenPower (-shift).toNat : ℤ) : ℚ)) = n / m * 10 ^ shift := by
  split
  next hup =>
    have hshift : shift = (shift.toNat : ℤ) := (Int.toNat_of_nonneg hup).symm
    rw [Int.cast_mul, cast_tenPower, mul_div_right_comm, hshift, zpow_natCast, Int.toNat_natCast]
  next hdown =>
    have hshift : shift = -((-shift).toNat : ℤ) := by omega
    rw [Int.cast_mul, cast_tenPower, ← div_div, div_eq_mul_inv (_ / _), ← zpow_natCast, ← zpow_neg,
      ← hshift]

/-- A negative denominator gives its sign to the numerator before the quotient is rounded. -/
theorem nearestEven_of_sign (numerator : ℤ) {denominator : ℤ} (hne : denominator ≠ 0)
    (digits : ℕ) :
    ∃ k : ℤ, (if denominator < 0 then ⟨roundHalfEven (-numerator) (-denominator), digits⟩
        else ⟨roundHalfEven numerator denominator, digits⟩ : Decimal) = ⟨k, digits⟩ ∧
      NearestEven (numerator / denominator) k := by
  split
  next hneg =>
    refine ⟨_, rfl, ?_⟩
    have hnearest := nearestEven_roundHalfEven (-numerator) (Int.neg_pos_of_neg hneg)
    rwa [Int.cast_neg, Int.cast_neg, neg_div_neg_eq] at hnearest
  next hpos => exact ⟨_, rfl, nearestEven_roundHalfEven numerator (by omega)⟩

/-- The digits of a rounded quotient are nearest to the exact quotient at its scale. -/
theorem exists_nearestEven (a : Decimal) {b : Decimal} (hb : b.digits ≠ 0) (digits : ℕ) :
    ∃ k : ℤ, a.scaledQuotient b digits = ⟨k, digits⟩ ∧
      NearestEven (a.toRat / b.toRat * 10 ^ digits) k := by
  rw [toRat_div_mul, ← shifted_quotient]
  apply nearestEven_of_sign
  split
  · exact hb
  · exact mul_ne_zero hb (tenPower_pos _).ne'

/-- A rounded quotient has the scale that is asked for, its digits are the integer nearest to the
exact quotient at that scale, the even one of two that are equally near, and the same operands at
other scales have the same rounded quotient. -/
theorem scaledQuotient_rounds (a : Decimal) {b : Decimal} (hb : b.digits ≠ 0) (digits : ℕ) :
    (a.scaledQuotient b digits).scale = digits ∧
      NearestEven (a.toRat / b.toRat * 10 ^ digits) (a.scaledQuotient b digits).digits ∧
      ∀ a' b' : Decimal, a'.toRat = a.toRat → b'.toRat = b.toRat →
        a'.scaledQuotient b' digits = a.scaledQuotient b digits := by
  obtain ⟨k, hquotient, hnearest⟩ := exists_nearestEven a hb digits
  rw [hquotient]
  refine ⟨rfl, hnearest, ?_⟩
  intro a' b' ha' hb'
  have hne : b'.digits ≠ 0 := digits_ne_zero (hb' ▸ toRat_ne_zero hb)
  obtain ⟨k', hquotient', hnearest'⟩ := exists_nearestEven a' hne digits
  rw [ha', hb'] at hnearest'
  rw [hquotient', hnearest'.unique hnearest]

/-- One half by minus two lies between -0.3 and -0.2 and becomes the even one, at whatever scales
the operands are given. -/
theorem scaledQuotient_rounds_half :
    (⟨-20, 1⟩ : Decimal).digits ≠ 0 ∧ (⟨5, 1⟩ : Decimal).scaledQuotient ⟨-20, 1⟩ 1 = ⟨-2, 1⟩ ∧
      NearestEven ((⟨5, 1⟩ : Decimal).toRat / (⟨-20, 1⟩ : Decimal).toRat * 10 ^ 1) (-2) ∧
      (⟨500, 3⟩ : Decimal).scaledQuotient ⟨-2, 0⟩ 1 = ⟨-2, 1⟩ := by
  have hne : (⟨-20, 1⟩ : Decimal).digits ≠ 0 := by decide
  have hquotient : (⟨5, 1⟩ : Decimal).scaledQuotient ⟨-20, 1⟩ 1 = ⟨-2, 1⟩ := by decide
  obtain ⟨_, hnearest, hscales⟩ := scaledQuotient_rounds ⟨5, 1⟩ hne 1
  rw [hquotient] at hnearest hscales
  refine ⟨hne, hquotient, hnearest, hscales ⟨500, 3⟩ ⟨-2, 0⟩ ?_ ?_⟩
  · norm_num [toRat]
  · norm_num [toRat]

end Decimal

end Scriptlet
