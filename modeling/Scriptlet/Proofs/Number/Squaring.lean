import Mathlib.Algebra.Group.Nat.Defs
import Mathlib.Algebra.Ring.Int.Defs
import Mathlib.Data.Nat.Size
import Mathlib.Logic.Function.Iterate
import Scriptlet.Number.Power

/-! # Powers by squaring

One round of squaring keeps the product of the result so far and the power that is left, and takes
one binary digit off the exponent. So there are as many rounds as the exponent has binary digits,
and in the end the result is the whole power.
-/

namespace Scriptlet

namespace Squaring

/-- The number that is being computed. -/
def target (s : Squaring) : ℤ :=
  s.result * s.base ^ s.exponent.toNat

/-- Nothing is left of the exponent after the given number of rounds, and not before. -/
def EndsAfter (rounds : ℕ) (s : Squaring) : Prop :=
  (step^[rounds] s).exponent ≤ 0 ∧ ∀ earlier < rounds, 0 < (step^[earlier] s).exponent

variable {s : Squaring}

/-! ## One round -/

theorem result_step (s : Squaring) :
    s.step.result = s.result * s.base ^ (s.exponent % 2).toNat := by
  by_cases hodd : s.exponent % 2 = 1
  · simp [step, hodd]
  · have heven : s.exponent % 2 = 0 := by omega
    simp [step, heven]

theorem base_step_pow (s : Squaring) :
    s.step.base ^ (s.exponent / 2).toNat = s.base ^ (2 * (s.exponent / 2).toNat) := by
  by_cases hmore : 0 < s.exponent / 2
  · simp [step, hmore, pow_mul, pow_two]
  · -- The last round leaves the base as it is, and what is left is the zeroth power.
    have hzero : (s.exponent / 2).toNat = 0 := by omega
    rw [hzero, Nat.mul_zero, pow_zero, pow_zero]

/-- A round keeps the number that is being computed. -/
theorem target_step (h : 0 < s.exponent) : s.step.target = s.target := by
  have hdigits : (s.exponent % 2).toNat + 2 * (s.exponent / 2).toNat = s.exponent.toNat := by
    omega
  calc s.step.target
      = s.step.result * s.step.base ^ (s.exponent / 2).toNat := rfl
    _ = s.result * (s.base ^ (s.exponent % 2).toNat * s.base ^ (2 * (s.exponent / 2).toNat)) := by
        rw [result_step, base_step_pow, mul_assoc]
    _ = s.target := by rw [← pow_add, hdigits, target]

/-! ## All rounds -/

theorem exponent_iterate {n : ℕ} (h : s.exponent = n) (rounds : ℕ) :
    (step^[rounds] s).exponent = (n / 2 ^ rounds : ℕ) := by
  induction rounds with
  | zero =>
      rw [Nat.pow_zero, Nat.div_one]
      exact h
  | succ rounds ih =>
      have hstep : (step (step^[rounds] s)).exponent = (step^[rounds] s).exponent / 2 := rfl
      rw [Function.iterate_succ_apply', hstep, ih, Nat.pow_succ, ← Nat.div_div_eq_div_mul]
      rfl

/-- Squaring ends, after as many rounds as the exponent has binary digits. -/
theorem endsAfter_size (s : Squaring) : s.EndsAfter s.exponent.toNat.size := by
  by_cases hneg : s.exponent < 0
  · have hdone : s.exponent ≤ 0 := Int.le_of_lt hneg
    rw [Int.toNat_of_nonpos hdone, Nat.size_zero]
    exact ⟨hdone, fun earlier hearlier => absurd hearlier (Nat.not_lt_zero earlier)⟩
  · have hexponent : s.exponent = s.exponent.toNat := by omega
    constructor
    · rw [exponent_iterate hexponent, Nat.div_eq_of_lt (Nat.lt_size_self _)]
      exact Int.le_refl 0
    · intro earlier hearlier
      rw [exponent_iterate hexponent]
      have hle : 2 ^ earlier ≤ s.exponent.toNat := Nat.lt_size.mp hearlier
      exact Int.natCast_pos.mpr (Nat.div_pos hle (Nat.two_pow_pos earlier))

namespace EndsAfter

variable {rounds : ℕ}

/-- After a round the others are left. -/
theorem tail (h : s.EndsAfter (rounds + 1)) : 0 < s.exponent ∧ s.step.EndsAfter rounds := by
  refine ⟨h.2 0 (Nat.succ_pos rounds), h.1, ?_⟩
  intro earlier hearlier
  exact h.2 (earlier + 1) (Nat.succ_lt_succ hearlier)

/-- Squaring gives the result after its last round. -/
theorem run_eq (h : s.EndsAfter rounds) : s.run = (step^[rounds] s).result := by
  induction rounds generalizing s with
  | zero =>
      have hdone : ¬ 0 < s.exponent := Int.not_lt.mpr h.1
      rw [run, if_neg hdone]
      rfl
  | succ rounds ih =>
      rw [run, if_pos h.tail.1, ih h.tail.2, Function.iterate_succ_apply]

/-- All rounds keep the number that is being computed, and then it is the result. -/
theorem result_iterate (h : s.EndsAfter rounds) : (step^[rounds] s).result = s.target := by
  induction rounds generalizing s with
  | zero =>
      have hdone : s.exponent.toNat = 0 := Int.toNat_of_nonpos h.1
      rw [target, hdone, pow_zero, mul_one]
      rfl
  | succ rounds ih =>
      rw [Function.iterate_succ_apply, ih h.tail.2, target_step h.tail.1]

end EndsAfter

end Squaring

/-- Squaring comes to an end, after as many rounds as the exponent has binary digits, and what it
gives is the power. A negative exponent leaves nothing of any base but one. -/
theorem power_exact (base exponent : ℤ) :
    Squaring.EndsAfter exponent.toNat.size ⟨1, base, exponent⟩ ∧
      power base exponent =
        if exponent < 0 then if base = 1 then 1 else 0 else base ^ exponent.toNat := by
  have hends := Squaring.endsAfter_size ⟨1, base, exponent⟩
  refine ⟨hends, ?_⟩
  unfold power
  split
  next => rfl
  next =>
    rw [hends.run_eq, hends.result_iterate, Squaring.target, one_mul]

end Scriptlet
