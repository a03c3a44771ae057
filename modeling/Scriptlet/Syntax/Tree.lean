import Scriptlet.Number.Decimal
import Scriptlet.Syntax.Operator

/-! # Syntax trees

Programs as trees. Every expression, local declaration, global and function carries an identifier
by which the typing of the program refers to it. Trees are compared node by node, with the
identifiers.
-/

namespace Scriptlet

/-- What a node is referred to by: its place in the count of all nodes. The count has no bound,
unlike one of 32 bits, which ends at `2 ^ 32` nodes. -/
abbrev NodeId := Nat

/-- A constant written in a program. -/
inductive Literal where
  | nil
  | boolean (value : Bool)
  | integer (value : Int)
  | decimal (value : Decimal)
  | character (value : Char)
  | string (value : String)
deriving DecidableEq, Repr

inductive Expr where
  | literal (id : NodeId) (value : Literal)
  /-- An expression between parentheses. -/
  | group (id : NodeId) (inner : Expr)
  | binary (id : NodeId) (operator : Operator) (left right : Expr)
  /-- A variable by its name alone. -/
  | access (id : NodeId) (name : String)
  /-- An element of the list that a variable holds. -/
  | element (id : NodeId) (name : String) (index : Expr)
  | call (id : NodeId) (name : String) (arguments : List Expr)
  | list (id : NodeId) (elements : List Expr)
deriving Repr

mutual

/-- Whether two expressions have the same nodes. -/
def Expr.same : Expr → Expr → Bool
  | .literal id value, .literal id' value' => id = id' && value = value'
  | .group id inner, .group id' inner' => id = id' && inner.same inner'
  | .binary id operator left right, .binary id' operator' left' right' =>
      id = id' && operator = operator' && left.same left' && right.same right'
  | .access id name, .access id' name' => id = id' && name = name'
  | .element id name index, .element id' name' index' =>
      id = id' && name = name' && index.same index'
  | .call id name arguments, .call id' name' arguments' =>
      id = id' && name = name' && Expr.sameList arguments arguments'
  | .list id elements, .list id' elements' => id = id' && Expr.sameList elements elements'
  | _, _ => false

def Expr.sameList : List Expr → List Expr → Bool
  | [], [] => true
  | first :: rest, first' :: rest' => first.same first' && Expr.sameList rest rest'
  | _, _ => false

end

mutual

theorem Expr.same_iff (e e' : Expr) : e.same e' = true ↔ e = e' := by
  cases e with
  | literal id value => cases e' <;> simp [Expr.same]
  | group id inner => cases e' <;> simp [Expr.same, Expr.same_iff inner]
  | binary id operator left right =>
      cases e' <;> simp [Expr.same, Expr.same_iff left, Expr.same_iff right, and_assoc]
  | access id name => cases e' <;> simp [Expr.same]
  | element id name index => cases e' <;> simp [Expr.same, Expr.same_iff index, and_assoc]
  | call id name arguments => cases e' <;> simp [Expr.same, Expr.sameList_iff arguments, and_assoc]
  | list id elements => cases e' <;> simp [Expr.same, Expr.sameList_iff elements]

theorem Expr.sameList_iff (es es' : List Expr) : Expr.sameList es es' = true ↔ es = es' := by
  cases es with
  | nil => cases es' <;> simp [Expr.sameList]
  | cons first rest =>
      cases es' <;> simp [Expr.sameList, Expr.same_iff first, Expr.sameList_iff rest]

end

instance : DecidableEq Expr :=
  fun e e' => decidable_of_iff _ (Expr.same_iff e e')

namespace Expr

def id : Expr → NodeId
  | literal id _ => id
  | group id _ => id
  | binary id _ _ _ => id
  | access id _ => id
  | element id _ _ => id
  | call id _ _ => id
  | list id _ => id

def isBinary : Expr → Bool
  | binary _ _ _ _ => true
  | _ => false

def isList : Expr → Bool
  | list _ _ => true
  | _ => false

end Expr

mutual

inductive Stmt where
  | expression (value : Expr)
  /-- A local variable, with an optional type and an optional first value. -/
  | declaration (id : NodeId) (name : String) (typeName : Option String) (initial : Option Expr)
  | assignment (receiver value : Expr)
  | branch (condition : Expr) (thenBlock elseBlock : List Stmt)
  | switch (condition : Expr) (cases : List Case)
  | loop (condition : Expr) (body : List Stmt)
  | ret (value : Expr)
deriving Repr

/-- An arm of a switch; the default arm has no value. -/
inductive Case where
  | mk (value : Option Expr) (body : List Stmt)
deriving Repr

end

mutual

/-- Whether two statements have the same nodes. -/
def Stmt.same : Stmt → Stmt → Bool
  | .expression value, .expression value' => value = value'
  | .declaration id name typeName initial, .declaration id' name' typeName' initial' =>
      id = id' && name = name' && typeName = typeName' && initial = initial'
  | .assignment receiver value, .assignment receiver' value' =>
      receiver = receiver' && value = value'
  | .branch condition thenBlock elseBlock, .branch condition' thenBlock' elseBlock' =>
      condition = condition' && Stmt.sameBlock thenBlock thenBlock' &&
        Stmt.sameBlock elseBlock elseBlock'
  | .switch condition cases, .switch condition' cases' =>
      condition = condition' && Stmt.sameCases cases cases'
  | .loop condition body, .loop condition' body' =>
      condition = condition' && Stmt.sameBlock body body'
  | .ret value, .ret value' => value = value'
  | _, _ => false

def Stmt.sameBlock : List Stmt → List Stmt → Bool
  | [], [] => true
  | first :: rest, first' :: rest' => first.same first' && Stmt.sameBlock rest rest'
  | _, _ => false

def Stmt.sameCases : List Case → List Case → Bool
  | [], [] => true
  | .mk value body :: rest, .mk value' body' :: rest' =>
      value = value' && Stmt.sameBlock body body' && Stmt.sameCases rest rest'
  | _, _ => false

end

mutual

theorem Stmt.same_iff (s s' : Stmt) : s.same s' = true ↔ s = s' := by
  cases s with
  | expression value => cases s' <;> simp [Stmt.same]
  | declaration id name typeName initial => cases s' <;> simp [Stmt.same, and_assoc]
  | assignment receiver value => cases s' <;> simp [Stmt.same]
  | branch condition thenBlock elseBlock =>
      cases s' <;>
        simp [Stmt.same, Stmt.sameBlock_iff thenBlock, Stmt.sameBlock_iff elseBlock, and_assoc]
  | «switch» condition cases => cases s' <;> simp [Stmt.same, Stmt.sameCases_iff cases]
  | loop condition body => cases s' <;> simp [Stmt.same, Stmt.sameBlock_iff body]
  | ret value => cases s' <;> simp [Stmt.same]

theorem Stmt.sameBlock_iff (block block' : List Stmt) :
    Stmt.sameBlock block block' = true ↔ block = block' := by
  cases block with
  | nil => cases block' <;> simp [Stmt.sameBlock]
  | cons first rest =>
      cases block' <;> simp [Stmt.sameBlock, Stmt.same_iff first, Stmt.sameBlock_iff rest]

theorem Stmt.sameCases_iff (arms arms' : List Case) :
    Stmt.sameCases arms arms' = true ↔ arms = arms' := by
  cases arms with
  | nil => cases arms' <;> simp [Stmt.sameCases]
  | cons first rest =>
      obtain ⟨value, body⟩ := first
      cases arms' with
      | nil => simp [Stmt.sameCases]
      | cons first' rest' =>
          obtain ⟨value', body'⟩ := first'
          simp [Stmt.sameCases, Stmt.sameBlock_iff body, Stmt.sameCases_iff rest]

end

instance : DecidableEq Stmt :=
  fun s s' => decidable_of_iff _ (Stmt.same_iff s s')

namespace Case

def value : Case → Option Expr
  | mk value _ => value

def body : Case → List Stmt
  | mk _ body => body

def isDefault (arm : Case) : Bool :=
  arm.value.isNone

end Case

/-- A variable of the whole program. -/
structure Global where
  id : NodeId
  name : String
  typeName : String
  mutable : Bool
  initial : Option Expr
deriving DecidableEq, Repr

/-- A global is a list when a list literal is its first value. -/
def Global.isList (g : Global) : Bool :=
  g.initial.any Expr.isList

/-- A function with its parameters' names and types in order; without a declared type it returns
nil. -/
structure Function where
  id : NodeId
  name : String
  parameterNames : List String
  parameterTypes : List String
  returnType : Option String
  body : List Stmt
deriving DecidableEq, Repr

/-- The number of arguments that a call of the function has. -/
def Function.arity (f : Function) : Nat :=
  f.parameterNames.length

structure Program where
  globals : List Global
  functions : List Function
deriving DecidableEq, Repr

end Scriptlet
