/-! # Tables

Finite maps as lists of entries. The first entry of a key is the one that counts.
-/

namespace Scriptlet

abbrev Table (κ ν : Type) := List (κ × ν)

namespace Table

variable {κ ν : Type} [DecidableEq κ]

/-- The value of a key. -/
def value? (key : κ) : Table κ ν → Option ν
  | [] => none
  | (k, v) :: rest => if k = key then some v else value? key rest

/-- Whether a key has a value. -/
def binds (key : κ) (table : Table κ ν) : Bool :=
  (value? key table).isSome

/-- Gives a key a value. -/
def bind (key : κ) (value : ν) (table : Table κ ν) : Table κ ν :=
  (key, value) :: table

/-- Changes the value of a key, if it has one. -/
def modify (key : κ) (change : ν → ν) : Table κ ν → Table κ ν
  | [] => []
  | (k, v) :: rest => if k = key then (k, change v) :: rest else (k, v) :: modify key change rest

@[simp] theorem value?_nil (key : κ) : value? key ([] : Table κ ν) = none := rfl

theorem value?_bind (key other : κ) (value : ν) (table : Table κ ν) :
    value? other (bind key value table) = if key = other then some value else value? other table :=
  rfl

theorem value?_modify (key other : κ) (change : ν → ν) (table : Table κ ν) :
    value? other (modify key change table) =
      if key = other then (value? other table).map change else value? other table := by
  induction table with
  | nil => simp [modify]
  | cons entry rest ih =>
      by_cases hkey : entry.1 = key
      · by_cases hother : key = other <;> simp [modify, value?, hkey, hother]
      · by_cases hother : key = other
        · subst hother
          simp only [if_true] at ih
          simp [modify, value?, hkey, ih]
        · simp only [if_neg hother] at ih
          simp [modify, value?, hkey, hother, ih]

theorem modify_of_value?_eq_none {key : κ} {table : Table κ ν} (h : value? key table = none)
    (change : ν → ν) : modify key change table = table := by
  induction table with
  | nil => rfl
  | cons entry rest ih =>
      by_cases hkey : entry.1 = key
      · simp [value?, hkey] at h
      · simp only [value?, hkey, if_false] at h
        simp [modify, hkey, ih h]

/-- Changing a value keeps the keys and their order. -/
theorem keys_modify (key : κ) (change : ν → ν) (table : Table κ ν) :
    (modify key change table).map Prod.fst = table.map Prod.fst := by
  induction table with
  | nil => rfl
  | cons entry rest ih =>
      by_cases hkey : entry.1 = key
      · simp [modify, hkey]
      · simp [modify, hkey, ih]

end Table

end Scriptlet
