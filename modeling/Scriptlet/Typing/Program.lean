import Scriptlet.Typing.Statement

/-! # Typing of programs

Globals are checked in order, so that each sees the ones before it. All functions are declared
before the first body is checked, so that each sees all of them.
-/

namespace Scriptlet

namespace Check

/-- A global's first value fits its type; the elements of a list each do. Only a global that can be
assigned to may be without one. -/
def initialValue (g : Global) (ty : Ty) : Check Unit :=
  match g.initial with
  | some (.list id elements) => do
      held (some ty) elements
      record (·.recordType id .any)
  | some initial => do
      let given ← expression initial
      lift (Ty.requireAssignable ty given)
  | none =>
      if g.mutable then return ()
      else throw (.immutableWithoutValue g.name)

/-- A global has a first value that fits it and a name that no other global has. -/
def global (g : Global) : Check Unit := do
  let ty ← resolve g.typeName
  initialValue g ty
  record (·.recordDeclaration g.id ty)
  declareVariable g.name { ty, mutable := g.mutable, isList := g.isList, origin := .global g.id }

/-- The types with the given names. -/
def resolveAll : List String → Check (List Ty)
  | [] => return []
  | name :: names => do
      let ty ← resolve name
      let types ← resolveAll names
      return ty :: types

/-- Declares a function by its types, before any body is looked at. -/
def signature (f : Function) : Check Unit := do
  let parameterTypes ← resolveAll f.parameterTypes
  let returnType ← resolveReturn f.returnType
  record (·.recordDeclaration f.id returnType)
  declareFunction ⟨f.name, f.arity⟩ { parameterTypes, returnType, origin := .user f.id }

/-- The program itself has a function `main` without parameters that returns an integer. -/
def hasMain : Check Unit := do
  match (← get).scopes.findFunction? ⟨"main", 0⟩ with
  | some ⟨_, returnType, .user _⟩ => lift (Ty.requireAssignable .integer returnType)
  | _ => throw .missingMain

/-- Declares the parameters of a function, numbered from `index`. -/
def parameters (function : NodeId) : (index : Nat) → List String → List String → Check Unit
  | index, name :: names, typeName :: typeNames => do
      let ty ← resolve typeName
      declareVariable name
        { ty, mutable := true, isList := false, origin := .parameter function index }
      parameters function (index + 1) names typeNames
  | _, _, _ => return ()

/-- The body of a function, in a frame that holds its parameters. -/
def body (f : Function) : Check Unit :=
  inFunction do
    parameters f.id 0 f.parameterNames f.parameterTypes
    let returnType ← resolveReturn f.returnType
    modify fun typing => { typing with returnType }
    block f.body

/-- Makes the same check of every item. -/
def each {α : Type} (check : α → Check Unit) : List α → Check Unit
  | [] => return ()
  | first :: rest => do
      check first
      each check rest

/-- A whole program: its globals in order, then the functions' types, then their bodies. -/
def program (p : Program) : Check Unit := do
  each global p.globals
  each signature p.functions
  hasMain
  each body p.functions

end Check

/-- The annotations of a well-typed program whose host has made the given declarations. -/
def Program.annotate (p : Program) (scopes : StaticScopes) : Except Error Annotations :=
  match Check.program p (Typing.start scopes) with
  | .ok _ typing => .ok typing.annotations
  | .error cause _ => .error ⟨cause, .typing⟩

end Scriptlet
