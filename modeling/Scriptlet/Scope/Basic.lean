import Scriptlet.Error
import Scriptlet.Scope.Table

/-! # Scopes

Which declaration a name refers to. There is one global frame; above it stand activations of
functions, each with its own stack of block frames. Only the frames of the running activation and
the global frame can be seen. The same structure serves the typing of a program, with what is known
of each name, and its run, with the values.
-/

namespace Scriptlet

/-- Functions are told apart by their name and their number of parameters. -/
structure Signature where
  name : String
  arity : Nat
deriving DecidableEq, Repr

/-- The declarations of one block. -/
structure Frame (V F : Type) where
  vars : Table String V
  funs : Table Signature F
deriving Repr

def Frame.empty {V F : Type} : Frame V F :=
  ⟨[], []⟩

/-- What is taken down at an entry, so that everything entered since can be left at once. Frames are
numbered in the order in which they were entered, and the global one has number zero. -/
structure Mark where
  /-- The number of the frame that was the current one. -/
  current : Nat
  /-- How many frames there were. -/
  depth : Nat
deriving DecidableEq, Repr

/-- The frames in use. -/
structure Scopes (V F : Type) where
  /-- The blocks of the running activation, innermost first. With none, the global frame is the
  current one. -/
  blocks : List (Frame V F)
  /-- The blocks of the activations that wait for the running one, latest first. -/
  callers : List (List (Frame V F))
  globals : Frame V F
deriving Repr

namespace Scopes

variable {V F : Type}

/-- The global frame alone, without declarations. -/
def empty : Scopes V F :=
  ⟨[], [], .empty⟩

/-- The number of frames, the global one included. -/
def depth (scopes : Scopes V F) : Nat :=
  scopes.callers.foldl (fun count blocks => count + blocks.length) scopes.blocks.length + 1

/-- Whether the global frame is the current one. -/
def isGlobal (scopes : Scopes V F) : Bool :=
  scopes.blocks.isEmpty

/-- The number of the frame that declarations go to. -/
def currentIndex (scopes : Scopes V F) : Nat :=
  if scopes.isGlobal then 0 else scopes.depth - 1

/-- The mark of an entry that is made now. -/
def mark (scopes : Scopes V F) : Mark :=
  ⟨scopes.currentIndex, scopes.depth⟩

/-- Opens a block inside the current one. -/
def enter (scopes : Scopes V F) : Scopes V F :=
  { scopes with blocks := .empty :: scopes.blocks }

/-- Opens the first block of a new activation, from which the blocks of the running one cannot be
seen. -/
def enterFunction (scopes : Scopes V F) : Scopes V F :=
  { scopes with blocks := [.empty], callers := scopes.blocks :: scopes.callers }

/-- Closes the innermost block. -/
def leaveBlock (scopes : Scopes V F) : Scopes V F :=
  { scopes with blocks := scopes.blocks.tail }

/-- Ends the running activation, so that the one that waits for it runs on. -/
def leaveFunction (scopes : Scopes V F) : Scopes V F :=
  match scopes.callers with
  | [] => { scopes with blocks := [] }
  | caller :: callers => { scopes with blocks := caller, callers := callers }

/-- Drops the current frame, whether it is the first block of an activation or a later one. The
global frame always stays. -/
def leave (scopes : Scopes V F) : Scopes V F :=
  match scopes.blocks with
  | [] => scopes
  | [_] => scopes.leaveFunction
  | _ => scopes.leaveBlock

/-- Drops a number of frames. -/
def leaveMany (scopes : Scopes V F) : (count : Nat) → Scopes V F
  | 0 => scopes
  | count + 1 => leaveMany scopes.leave count

/-- Drops the frames that were entered since the mark was made. -/
def exit (scopes : Scopes V F) (mark : Mark) : Scopes V F :=
  scopes.leaveMany (scopes.depth - mark.depth)

/-- The frames that can be seen, innermost first. -/
def visible (scopes : Scopes V F) : List (Frame V F) :=
  scopes.blocks ++ [scopes.globals]

/-- The frame that declarations go to. -/
def current (scopes : Scopes V F) : Frame V F :=
  scopes.blocks.headD scopes.globals

/-- Replaces the frame that declarations go to. -/
def setCurrent (scopes : Scopes V F) (frame : Frame V F) : Scopes V F :=
  match scopes.blocks with
  | [] => { scopes with globals := frame }
  | _ :: blocks => { scopes with blocks := frame :: blocks }

/-- What the innermost visible declaration of a variable says. -/
def findVariable? (scopes : Scopes V F) (name : String) : Option V :=
  scopes.visible.findSome? fun frame => frame.vars.value? name

/-- What the innermost visible declaration of a function says. -/
def findFunction? (scopes : Scopes V F) (signature : Signature) : Option F :=
  scopes.visible.findSome? fun frame => frame.funs.value? signature

/-- Declares a variable in the current frame, which must not have one of that name. -/
def declareVariable (scopes : Scopes V F) (name : String) (value : V) :
    Except Cause (Scopes V F) :=
  let frame := scopes.current
  if frame.vars.binds name then .error (.variableAlreadyDeclared name)
  else .ok (scopes.setCurrent { frame with vars := frame.vars.bind name value })

/-- Declares a function in the current frame, which must not have one of that name and number of
parameters. -/
def declareFunction (scopes : Scopes V F) (signature : Signature) (value : F) :
    Except Cause (Scopes V F) :=
  let frame := scopes.current
  if frame.funs.binds signature then
    .error (.functionAlreadyDeclared signature.name signature.arity)
  else .ok (scopes.setCurrent { frame with funs := frame.funs.bind signature value })

/-- Changes a variable in the innermost of the given frames that declares it, if one does. -/
def modifyIn (name : String) (change : V → V) : List (Frame V F) → Option (List (Frame V F))
  | [] => none
  | frame :: rest =>
      if frame.vars.binds name then
        some ({ frame with vars := frame.vars.modify name change } :: rest)
      else (modifyIn name change rest).map (frame :: ·)

/-- Changes the variable that a name refers to, if it refers to one. -/
def modifyVariable (scopes : Scopes V F) (name : String) (change : V → V) : Scopes V F :=
  match modifyIn name change scopes.blocks with
  | some blocks => { scopes with blocks := blocks }
  | none =>
      { scopes with globals :=
          { scopes.globals with vars := scopes.globals.vars.modify name change } }

@[simp] theorem leaveBlock_enter (scopes : Scopes V F) : scopes.enter.leaveBlock = scopes := rfl

@[simp] theorem leaveFunction_enterFunction (scopes : Scopes V F) :
    scopes.enterFunction.leaveFunction = scopes := rfl

theorem findVariable?_enter (scopes : Scopes V F) (name : String) :
    scopes.enter.findVariable? name = scopes.findVariable? name := by
  simp [findVariable?, visible, enter, Frame.empty, List.findSome?_cons]

theorem findVariable?_enterFunction (scopes : Scopes V F) (name : String) :
    scopes.enterFunction.findVariable? name = scopes.globals.vars.value? name := by
  cases hvalue : scopes.globals.vars.value? name <;>
    simp [findVariable?, visible, enterFunction, Frame.empty, List.findSome?_cons, hvalue]

theorem depth_eq (scopes : Scopes V F) :
    scopes.depth = scopes.blocks.length + scopes.callers.flatten.length + 1 := by
  have hfold (n : Nat) (callers : List (List (Frame V F))) :
      callers.foldl (fun count blocks => count + blocks.length) n =
        n + callers.flatten.length := by
    induction callers generalizing n with
    | nil => simp
    | cons blocks callers ih => simp [ih, Nat.add_assoc]
  simp [depth, hfold]

theorem depth_enter (scopes : Scopes V F) : scopes.enter.depth = scopes.depth + 1 := by
  simp [depth_eq, enter]
  omega

theorem depth_enterFunction (scopes : Scopes V F) :
    scopes.enterFunction.depth = scopes.depth + 1 := by
  simp [depth_eq, enterFunction]
  omega

end Scopes

end Scriptlet
