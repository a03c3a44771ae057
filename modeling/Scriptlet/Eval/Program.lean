import Scriptlet.Eval.Call

/-! # Running programs

A program runs by making its globals in order, declaring its functions and calling `main`.
-/

namespace Scriptlet.Eval

variable {σ : Type}

/-- Every element of a list fits a type. -/
def requireAll (target : Ty) : List Value → Eval σ Unit
  | [] => return ()
  | first :: rest => do
      require target first
      requireAll target rest

/-- A global's first value fits its type; the elements of a list each do. -/
def requireInitial (g : Global) (ty : Ty) (value : Value) : Eval σ Unit := do
  match g.isList, value with
  | true, .list address =>
      let machine ← get
      requireAll ty (machine.heap.elements address).toList
  | _, _ => requireIf g.initial.isSome ty value

/-- Declares a function of the program in the current frame. -/
def declareFunction (f : Function) : Eval σ Unit := do
  let machine ← get
  let scopes ← lift (machine.scopes.declareFunction ⟨f.name, f.arity⟩ (.user f))
  set { machine with scopes }

/-- Takes the same step for every item. -/
def each {α : Type} (step : α → Eval σ Unit) : List α → Eval σ Unit
  | [] => return ()
  | first :: rest => do
      step first
      each step rest

variable (policy : Division) (limit : Nat)

/-- Makes the slot of a global. -/
def global (g : Global) : Eval σ Unit := do
  let ty ← resolve g.typeName
  let value ← initialValue policy (call policy limit) g.initial
  requireInitial g ty value
  declare g.name
    { value, ty, mutable := g.mutable, isList := g.isList, origin := some (.global g.id) }

/-- The value that `main` returns. -/
def program (p : Program) : Eval σ Value := do
  each (global policy limit) p.globals
  each declareFunction p.functions
  call policy limit "main" []

end Scriptlet.Eval
