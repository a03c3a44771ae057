/-! # Decimal numerals

Integers as text. They are written as an optional minus sign and the decimal digits, and read with
either sign and with underscores among the digits.
-/

namespace Scriptlet.Numeral

/-- The number that a nonempty run of ASCII digits denotes. Leading zeros are allowed, and so are
underscores after the first digit, which count for nothing. -/
def readNat? : List Char → Option Nat
  | [] => none
  | first :: rest =>
      if first.isDigit && rest.all fun c => c.isDigit || c = '_' then
        some (Nat.ofDigitChars 10 (first :: rest.filter Char.isDigit) 0)
      else none

/-- The number that digits with an optional sign denote. -/
def readInt? : List Char → Option Int
  | '-' :: digits => (readNat? digits).map fun n => -(n : Int)
  | '+' :: digits => (readNat? digits).map fun n => (n : Int)
  | digits => (readNat? digits).map fun n => (n : Int)

/-- The decimal digits of a number, without leading zeros. -/
def writeNat (n : Nat) : List Char :=
  Nat.toDigits 10 n

/-- The sign, if there is one, and the decimal digits of a number. -/
def writeInt (n : Int) : List Char :=
  if n < 0 then '-' :: writeNat n.natAbs else writeNat n.natAbs

/-- Digits alone denote their positional value. -/
theorem readNat?_of_isDigit {digits : List Char} (hne : digits ≠ [])
    (hdigits : ∀ c ∈ digits, c.isDigit = true) :
    readNat? digits = some (Nat.ofDigitChars 10 digits 0) := by
  cases digits with
  | nil => exact absurd rfl hne
  | cons first rest =>
      have hfirst := hdigits first List.mem_cons_self
      have hrest : ∀ c ∈ rest, c.isDigit = true := fun c hc =>
        hdigits c (List.mem_cons_of_mem first hc)
      have hall : (rest.all fun c => c.isDigit || c = '_') = true := by
        rw [List.all_eq_true]
        intro c hc
        simp [hrest c hc]
      have hfilter : rest.filter Char.isDigit = rest := List.filter_eq_self.mpr hrest
      simp [readNat?, hfirst, hall, hfilter]

theorem readNat?_writeNat (n : Nat) : readNat? (writeNat n) = some n := by
  have hdigits : ∀ c ∈ writeNat n, c.isDigit = true := fun c hc =>
    Nat.isDigit_of_mem_toDigits (by decide) (by decide) hc
  have hvalue : Nat.ofDigitChars 10 (writeNat n) 0 = n :=
    Nat.ofDigitChars_toDigits (by decide) (by decide)
  have hne : writeNat n ≠ [] := Nat.toDigits_ne_nil
  rw [readNat?_of_isDigit hne hdigits, hvalue]

/-- A number is less than the power of ten with as many zeros as it has digits. -/
theorem lt_pow_length_writeNat (n : Nat) : n < Nat.pow 10 (writeNat n).length :=
  (Nat.length_toDigits_le_iff (by decide) Nat.length_toDigits_pos).mp (Nat.le_refl _)

/-- A positive number is at least the power of ten with one zero less than it has digits. -/
theorem pow_length_writeNat_le {n : Nat} (hpos : 0 < n) :
    Nat.pow 10 ((writeNat n).length - 1) ≤ n := by
  by_cases hone : (writeNat n).length - 1 = 0
  · rw [hone]
    exact hpos
  · refine Nat.le_of_not_lt fun hlt => ?_
    have hle : (writeNat n).length ≤ (writeNat n).length - 1 :=
      (Nat.length_toDigits_le_iff (by decide) (Nat.pos_of_ne_zero hone)).mpr hlt
    omega

end Scriptlet.Numeral
