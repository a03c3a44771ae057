import Scriptlet.Error

/-! # Types

The types a program can name. `Any` holds every value and `Comparable` every value that has an
order; each other type holds exactly the values of its own kind.
-/

namespace Scriptlet

inductive Ty where
  | any
  | comparable
  | integer
  | decimal
  | character
  | string
  | boolean
  | nil
deriving DecidableEq, Repr

namespace Ty

def name : Ty → String
  | any => "Any"
  | comparable => "Comparable"
  | integer => "Integer"
  | decimal => "Decimal"
  | character => "Character"
  | string => "String"
  | boolean => "Boolean"
  | nil => "Nil"

/-- The type with the given name. -/
def ofName : String → Except Cause Ty
  | "Any" => .ok any
  | "Comparable" => .ok comparable
  | "Integer" => .ok integer
  | "Decimal" => .ok decimal
  | "Character" => .ok character
  | "String" => .ok string
  | "Boolean" => .ok boolean
  | "Nil" => .ok nil
  | text => .error (.unknownType text)

/-- The types whose values have an order. -/
def isComparable : Ty → Bool
  | integer | decimal | character | string => true
  | any | comparable | boolean | nil => false

/-- The types whose values arithmetic is defined on. -/
def isNumeric : Ty → Bool
  | integer | decimal => true
  | any | comparable | character | string | boolean | nil => false

/-- Whether a place of type `target` takes what has type `source`. -/
def accepts (target source : Ty) : Bool :=
  match target with
  | any => true
  | comparable => source == comparable || source.isComparable
  | _ => target == source

/-- Refuses a `source` that a place of type `target` does not take. -/
def requireAssignable (target source : Ty) : Except Cause Unit :=
  if target.accepts source then .ok () else .error (.typeMismatch target.name source.name)

theorem ofName_name (ty : Ty) : ofName ty.name = .ok ty := by
  cases ty <;> rfl

@[simp] theorem accepts_self (ty : Ty) : ty.accepts ty = true := by
  cases ty <;> rfl

end Ty

end Scriptlet
