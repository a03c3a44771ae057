import Scriptlet.Syntax.Tree
import Scriptlet.Ty

/-! # Values

The values of a running program. Lists are shared and mutable, so a list value is the address of
its elements in the heap; lists may hold each other and themselves.
-/

namespace Scriptlet

abbrev Address := Nat

inductive Value where
  | nil
  | boolean (value : Bool)
  | integer (value : Int)
  | decimal (value : Decimal)
  | character (value : Char)
  | string (value : String)
  | list (address : Address)
deriving DecidableEq, Repr

namespace Value

/-- The type of a value. A list's elements may be of any type, and so may a list. -/
def ty : Value → Ty
  | nil => .nil
  | boolean _ => .boolean
  | integer _ => .integer
  | decimal _ => .decimal
  | character _ => .character
  | string _ => .string
  | list _ => .any

/-- The value that a constant denotes. -/
def ofLiteral : Literal → Value
  | .nil => nil
  | .boolean value => boolean value
  | .integer value => integer value
  | .decimal value => decimal value
  | .character value => character value
  | .string value => string value

/-- The error of meeting a value where another type of value is expected. -/
def mismatch (expected : String) (received : Value) : Cause :=
  .typeMismatch expected received.ty.name

/-- Refuses a value that a place of type `target` does not take. -/
def requireFor (value : Value) (target : Ty) : Except Cause Unit :=
  Ty.requireAssignable target value.ty

/-- The truth value that a condition must have. -/
def truth : Value → Except Cause Bool
  | boolean value => .ok value
  | other => .error (mismatch Ty.boolean.name other)

/-- The address of the list that a variable of the given name holds. -/
def address (name : String) : Value → Except Cause Address
  | list address => .ok address
  | _ => .error (.notAList name)

/-- The position that an index denotes in a list of the given length. -/
def position (length : Nat) : Value → Except Cause Nat
  | integer index =>
      if 0 ≤ index && index < length then .ok index.toNat
      else .error (.indexOutOfRange (String.ofList (Numeral.writeInt index)) length)
  | other => .error (mismatch Ty.integer.name other)

end Value

/-- The elements of all lists. Addresses count the lists in the order of their creation. -/
structure Heap where
  lists : Array (Array Value)
deriving DecidableEq, Repr

namespace Heap

def empty : Heap :=
  ⟨#[]⟩

/-- The number of lists. -/
def size (heap : Heap) : Nat :=
  heap.lists.size

/-- The elements of a list. -/
def elements (heap : Heap) (address : Address) : Array Value :=
  heap.lists[address]?.getD #[]

/-- The address of a list that is about to be created. -/
def fresh (heap : Heap) : Address :=
  heap.lists.size

/-- Creates a list, at the fresh address. -/
def create (heap : Heap) (elements : Array Value) : Heap :=
  ⟨heap.lists.push elements⟩

/-- Changes the elements of a list. -/
def modify (heap : Heap) (address : Address) (change : Array Value → Array Value) : Heap :=
  ⟨heap.lists.modify address change⟩

/-- Replaces one element of a list. -/
def setElement (heap : Heap) (address : Address) (position : Nat) (value : Value) : Heap :=
  heap.modify address fun elements => elements.setIfInBounds position value

/-- Appends an element to a list. -/
def append (heap : Heap) (address : Address) (value : Value) : Heap :=
  heap.modify address fun elements => elements.push value

theorem lt_size_of_lt {heap : Heap} {address : Address} {position : Nat}
    (h : position < (heap.elements address).size) : address < heap.size := by
  apply Nat.lt_of_not_le
  intro hle
  rw [elements, Array.getElem?_eq_none hle] at h
  exact Nat.not_lt_zero _ h

theorem elements_create_fresh (heap : Heap) (elements : Array Value) :
    (heap.create elements).elements heap.fresh = elements := by
  simp [create, fresh, Heap.elements]

theorem elements_create_of_lt (heap : Heap) (elements : Array Value) {address : Address}
    (haddress : address < heap.size) :
    (heap.create elements).elements address = heap.elements address := by
  simp only [size] at haddress
  simp [create, Heap.elements, Array.getElem?_push, Nat.ne_of_lt haddress]

theorem elements_modify (heap : Heap) (address other : Address) (change : Array Value → Array Value)
    (haddress : address < heap.size) :
    (heap.modify address change).elements other =
      if address = other then change (heap.elements other) else heap.elements other := by
  simp only [size] at haddress
  simp only [modify, Heap.elements, Array.getElem?_modify]
  split
  next h => subst h; simp [haddress]
  next => rfl

theorem size_modify (heap : Heap) (address : Address) (change : Array Value → Array Value) :
    (heap.modify address change).size = heap.size := by
  simp [modify, size]

theorem size_create (heap : Heap) (elements : Array Value) :
    (heap.create elements).size = heap.size + 1 := by
  simp [create, size]

end Heap

end Scriptlet
