import Scriptlet.Eval.Statement

/-! # Calling functions

A function of the program runs in an activation of its own, from which only its own blocks and the
global frame can be seen. Calls nest no deeper than a given limit, which also bounds the rounds of
every loop.
-/

namespace Scriptlet.Eval

variable {σ : Type}

/-- Makes the slots of the parameters, numbered from `index`, for the arguments of a call. -/
def parameters (function : NodeId) :
    (index : Nat) → List String → List String → List Value → Eval σ Unit
  | index, name :: names, typeName :: typeNames, value :: values => do
      let ty ← resolve typeName
      require ty value
      declare name
        { value, ty, mutable := true, isList := false, origin := some (.parameter function index) }
      parameters function (index + 1) names typeNames values
  | _, _, _, _ => return ()

/-- The type of what a function returns; without a declared type it is nil. -/
def returnType : Option String → Eval σ Ty
  | some name => resolve name
  | none => return .nil

/-- The value that a call gives from how the body of the function ended. -/
def returned (f : Function) : Flow → Eval σ Value
  | .next => return .nil
  | .returning value => do
      let ty ← returnType f.returnType
      require ty value
      return value

variable (policy : Division)

/-- Calls the function of the given name that takes as many arguments. -/
def call : (limit : Nat) → (name : String) → (arguments : List Value) → Eval σ Value
  | 0, _, _ => throw .outOfFuel
  | limit + 1, name, arguments => do
      match (← get).scopes.findFunction? ⟨name, arguments.length⟩ with
      | none => fail (.functionNotDeclared name arguments.length)
      | some (.native run) => runNative run arguments
      | some (.user f) =>
          let flow ← inFunction do
            parameters f.id 0 f.parameterNames f.parameterTypes arguments
            block policy (call limit) limit f.body
          returned f flow

end Scriptlet.Eval
