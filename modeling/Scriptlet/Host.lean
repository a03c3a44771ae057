import Scriptlet.Eval.Program
import Scriptlet.Syntax.Parse.Program
import Scriptlet.Token.Scan
import Scriptlet.Typing.Program

/-! # Hosting programs

A host provides functions and runs programs with them: a text is scanned, parsed, checked against
the types of the host's functions, and run.
-/

namespace Scriptlet

/-- A function that the host provides. What it returns is not checked against its type. -/
structure Builtin (σ : Type) where
  name : String
  parameterTypes : List Ty
  returnType : Ty
  run : Native σ

namespace Builtin

variable {σ : Type}

def signature (builtin : Builtin σ) : Signature :=
  ⟨builtin.name, builtin.parameterTypes.length⟩

/-- What a program can know of the function. -/
def info (builtin : Builtin σ) : FunctionInfo where
  parameterTypes := builtin.parameterTypes
  returnType := builtin.returnType
  origin := .builtin builtin.signature

/-- A function `print` that hands the text of its argument to the host. -/
def print (sink : String → σ → σ) : Builtin σ where
  name := "print"
  parameterTypes := [.any]
  returnType := .nil
  run := fun arguments heap host =>
    match arguments with
    | [] => (.nil, heap, host)
    | value :: _ => (.nil, heap, sink (heap.display value) host)

/-- The frames of a program before it is checked: the host's functions in the global frame. -/
def staticScopes : List (Builtin σ) → Except Cause StaticScopes :=
  List.foldlM (fun scopes builtin => scopes.declareFunction builtin.signature builtin.info) .empty

/-- The frames of a program before it runs: the host's functions in the global frame. -/
def runScopes : List (Builtin σ) → Except Cause (RunScopes σ) :=
  List.foldlM
    (fun scopes builtin => scopes.declareFunction builtin.signature (.native builtin.run)) .empty

end Builtin

/-- How a run ended. -/
inductive Outcome where
  | value (value : Value)
  | error (error : Error)
  | outOfFuel
deriving DecidableEq, Repr

/-- How a run ended, and the lists and the state of the host that it left. -/
structure Run (σ : Type) where
  outcome : Outcome
  heap : Heap
  host : σ

namespace Run

variable {σ : Type}

/-- A run that ended before it began. -/
def refused (error : Error) (host : σ) : Run σ :=
  ⟨.error error, .empty, host⟩

def ofResult : EStateM.Result Halt (Machine σ) Value → Run σ
  | .ok value machine => ⟨.value value, machine.heap, machine.host⟩
  | .error (.error cause) machine => ⟨.error ⟨cause, .runtime⟩, machine.heap, machine.host⟩
  | .error .outOfFuel machine => ⟨.outOfFuel, machine.heap, machine.host⟩

end Run

variable {σ : Type}

/-- Checks a program against the functions of its host. -/
def Program.check (p : Program) (builtins : List (Builtin σ)) : Except Error Annotations :=
  match Builtin.staticScopes builtins with
  | .error cause => .error ⟨cause, .typing⟩
  | .ok scopes => p.annotate scopes

/-- Runs a program with the functions of its host, without checking it. -/
def Program.run (p : Program) (builtins : List (Builtin σ)) (policy : Division) (limit : Nat)
    (host : σ) : Run σ :=
  match Builtin.runScopes builtins with
  | .error cause => .refused ⟨cause, .runtime⟩ host
  | .ok scopes => .ofResult (Eval.program policy limit p ⟨scopes, .empty, host⟩)

/-- The program that a text is. -/
def parse (text : String) : Except Error Program := do
  let tokens ← tokenize text
  Program.ofTokens tokens

/-- The program that a text is, and its annotations. -/
def check (text : String) (builtins : List (Builtin σ)) :
    Except Error (Program × Annotations) := do
  let program ← parse text
  let annotations ← program.check builtins
  return (program, annotations)

/-- Checks the program that a text is, and runs it. Calls nest at most `limit` deep, and no loop
makes more rounds. -/
def evaluate (text : String) (builtins : List (Builtin σ)) (policy : Division) (limit : Nat)
    (host : σ) : Run σ :=
  match check text builtins with
  | .error error => .refused error host
  | .ok (program, _) => program.run builtins policy limit host

end Scriptlet
