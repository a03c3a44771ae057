import Scriptlet.Scope.Basic

/-! # Linked frames

The frames in use in one array, in the order in which they were entered, the global one first. Each
of them holds the number of the frame in which a name is looked for next: that of a block leads to
the frame that was current when it was entered, that of a function straight to the global frame.

No number is checked when it is taken down. So an operation that comes to a number without a frame
has no result, and neither has a search that never comes to an end.
-/

namespace Scriptlet

variable {V F α : Type}

/-- A frame and the number of the one that it leads to. The global frame leads nowhere. -/
structure Environment (V F : Type) extends Frame V F where
  parent : Option Nat
deriving Repr

/-- The frames in use, and the number of the one that declarations go to. -/
structure LinkedScopes (V F : Type) where
  environments : Array (Environment V F)
  current : Nat
deriving Repr

namespace LinkedScopes

/-- The global frame alone, without declarations. -/
def empty : LinkedScopes V F :=
  ⟨#[⟨.empty, none⟩], 0⟩

/-- The number of frames, the global one included. -/
def depth (scopes : LinkedScopes V F) : Nat :=
  scopes.environments.size

/-- Whether the global frame is the current one. -/
def isGlobal (scopes : LinkedScopes V F) : Bool :=
  scopes.current = 0

/-- Makes a new frame, which becomes the current one. -/
def push (scopes : LinkedScopes V F) (parent : Option Nat) : Mark × LinkedScopes V F :=
  let environments := scopes.environments.push ⟨.empty, parent⟩
  (⟨scopes.current, scopes.environments.size⟩, ⟨environments, environments.size - 1⟩)

/-- Enters a block. -/
def enter (scopes : LinkedScopes V F) : Mark × LinkedScopes V F :=
  scopes.push (some scopes.current)

/-- Enters a function. -/
def enterFunction (scopes : LinkedScopes V F) : Mark × LinkedScopes V F :=
  scopes.push (some 0)

/-- Drops the frames that were entered since the mark was made. The global frame always stays. -/
def exit (scopes : LinkedScopes V F) (mark : Mark) : LinkedScopes V F :=
  ⟨scopes.environments.take (max mark.depth 1), mark.current⟩

/-- Replaces what the frame of the given number holds. -/
def setFrame (scopes : LinkedScopes V F) (index : Nat) (frame : Frame V F) : LinkedScopes V F :=
  { scopes with environments :=
      scopes.environments.modify index fun environment => { environment with toFrame := frame } }

/-- Declares a variable in the current frame, which must not have one of that name. -/
def declareVariable (scopes : LinkedScopes V F) (name : String) (value : V) :
    Option (Except Cause (LinkedScopes V F)) := do
  let environment ← scopes.environments[scopes.current]?
  if environment.vars.binds name then return .error (.variableAlreadyDeclared name)
  else
    let frame := { environment.toFrame with vars := environment.vars.bind name value }
    return .ok (scopes.setFrame scopes.current frame)

/-- Declares a function in the current frame, which must not have one of that name and number of
parameters. -/
def declareFunction (scopes : LinkedScopes V F) (signature : Signature) (value : F) :
    Option (Except Cause (LinkedScopes V F)) := do
  let environment ← scopes.environments[scopes.current]?
  if environment.funs.binds signature then
    return .error (.functionAlreadyDeclared signature.name signature.arity)
  else
    let frame := { environment.toFrame with funs := environment.funs.bind signature value }
    return .ok (scopes.setFrame scopes.current frame)

/-- Looks for something in the frame of the given number, then in the one that it leads to, and on
from there until it is found or the links end, in the given number of frames at most. -/
def searchWithin (scopes : LinkedScopes V F) (look : Nat → Frame V F → Option α) :
    Nat → Option Nat → Option (Option α)
  | _, none => some none
  | 0, some _ => none
  | count + 1, some index => do
      let environment ← scopes.environments[index]?
      match look index environment.toFrame with
      | some found => return some found
      | none => searchWithin scopes look count environment.parent

/-- The search through any number of frames. One that has been in as many as there are and goes on
was in one of them twice, so it never ends. -/
def search (scopes : LinkedScopes V F) (look : Nat → Frame V F → Option α) (start : Option Nat) :
    Option (Option α) :=
  scopes.searchWithin look scopes.environments.size start

/-- The number of the frame in which a name is found as that of a variable. -/
def home? (scopes : LinkedScopes V F) (name : String) : Option (Option Nat) :=
  scopes.search (fun index frame => if frame.vars.binds name then some index else none)
    (some scopes.current)

/-- What the innermost visible declaration of a variable says. -/
def findVariable? (scopes : LinkedScopes V F) (name : String) : Option (Option V) := do
  match ← scopes.home? name with
  | none => return none
  | some index =>
      let environment ← scopes.environments[index]?
      return environment.vars.value? name

/-- Changes the variable that a name refers to, if it refers to one, and tells what it was. -/
def modifyVariable (scopes : LinkedScopes V F) (name : String) (change : V → V) :
    Option (Option V × LinkedScopes V F) := do
  match ← scopes.home? name with
  | none => return (none, scopes)
  | some index =>
      let environment ← scopes.environments[index]?
      let frame := { environment.toFrame with vars := environment.vars.modify name change }
      return (environment.vars.value? name, scopes.setFrame index frame)

/-- What the innermost visible declaration of a function says. -/
def findFunction? (scopes : LinkedScopes V F) (signature : Signature) : Option (Option F) :=
  scopes.search (fun _ frame => frame.funs.value? signature) (some scopes.current)

end LinkedScopes

end Scriptlet
