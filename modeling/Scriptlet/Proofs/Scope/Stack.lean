import Mathlib.Logic.Function.Basic
import Scriptlet.Scope.Linked

/-! # A stack of maps

The plainest structure that does what scopes do is a stack of maps above a global one, each of them
the map of a block or that of a function. What can be asked of either is written down as requests,
so that it can be said of whole sequences of them that both give the same answers.
-/

namespace Scriptlet

variable {V F S T : Type}

/-! ## Requests -/

/-- What scopes can be asked to do. Entries are numbered in their order, from zero. -/
inductive Scopes.Request (V F : Type) where
  | enter
  | enterFunction
  /-- Drops the frame that the entry of the given number has made, and all frames above it. -/
  | exit (entry : Nat)
  | declareVariable (name : String) (value : V)
  | declareFunction (signature : Signature) (value : F)
  | findVariable (name : String)
  /-- Looks for a variable, and changes it if there is one. -/
  | modifyVariable (name : String) (change : V → V)
  | findFunction (signature : Signature)

inductive Scopes.Reply (V F : Type) where
  | entered (entry : Nat)
  | left
  | declared
  | refused (cause : Cause)
  | foundVariable (found : Option V)
  | foundFunction (found : Option F)

/-- What a request brings to light: the reply, and how many frames there are afterwards and whether
the global one is the current one. -/
structure Scopes.Answer (V F : Type) where
  reply : Scopes.Reply V F
  depth : Nat
  isGlobal : Bool

/-- A way to answer requests. There is no response to a request that is out of place, or that the
way to answer it breaks down on. -/
structure Scoping (V F S : Type) where
  respond : S → Scopes.Request V F → Option (Scopes.Reply V F × S)
  depth : S → Nat
  isGlobal : S → Bool

namespace Scoping

/-- The answers to requests that are made one after the other, and the state at the end. -/
def answers (scoping : Scoping V F S) :
    S → List (Scopes.Request V F) → Option (List (Scopes.Answer V F) × S)
  | state, [] => some ([], state)
  | state, request :: requests => do
      let (reply, next) ← scoping.respond state request
      let (rest, last) ← scoping.answers next requests
      return (⟨reply, scoping.depth next, scoping.isGlobal next⟩ :: rest, last)

/-- The second way responds as the first does as long as their states are related, and then they
stay related. -/
structure Follows (first : Scoping V F S) (second : Scoping V F T) (R : S → T → Prop) :
    Prop where
  respond : ∀ {state state' request reply next}, R state state' →
    first.respond state request = some (reply, next) →
    ∃ next', second.respond state' request = some (reply, next') ∧ R next next'
  depth : ∀ {state state'}, R state state' → second.depth state' = first.depth state
  isGlobal : ∀ {state state'}, R state state' → second.isGlobal state' = first.isGlobal state

theorem Follows.answers {first : Scoping V F S} {second : Scoping V F T} {R : S → T → Prop}
    (h : first.Follows second R) {state last : S} {state' : T} (hstate : R state state')
    {requests : List (Scopes.Request V F)} {replies : List (Scopes.Answer V F)}
    (hanswers : first.answers state requests = some (replies, last)) :
    ∃ last', second.answers state' requests = some (replies, last') ∧ R last last' := by
  induction requests generalizing state state' replies with
  | nil =>
      cases hanswers
      exact ⟨state', rfl, hstate⟩
  | cons request requests ih =>
      simp only [Scoping.answers, Option.bind_eq_bind, Option.bind_eq_some_iff] at hanswers
      obtain ⟨⟨reply, next⟩, hrespond, ⟨rest, _⟩, hrest, hall⟩ := hanswers
      cases hall
      obtain ⟨next', hrespond', hnext⟩ := h.respond hstate hrespond
      obtain ⟨last', hrest', hlast⟩ := ih hnext hrest
      refine ⟨last', ?_, hlast⟩
      simp [Scoping.answers, hrespond', hrest', h.depth hnext, h.isGlobal hnext]

end Scoping

/-! ## The stack -/

/-- What one frame holds. -/
@[ext] structure Bindings (V F : Type) where
  vars : String → Option V
  funs : Signature → Option F

namespace Bindings

def empty : Bindings V F :=
  ⟨fun _ => none, fun _ => none⟩

def addVariable (bindings : Bindings V F) (name : String) (value : V) : Bindings V F :=
  { bindings with vars := Function.update bindings.vars name (some value) }

def addFunction (bindings : Bindings V F) (signature : Signature) (value : F) : Bindings V F :=
  { bindings with funs := Function.update bindings.funs signature (some value) }

/-- Changes a variable, if there is one of that name. -/
def modifyVariable (bindings : Bindings V F) (name : String) (change : V → V) : Bindings V F :=
  { bindings with vars := Function.update bindings.vars name ((bindings.vars name).map change) }

end Bindings

/-- A frame above the global one, and the number of the entry that has made it. -/
structure Layer (V F : Type) where
  entry : Nat
  isFunction : Bool
  bindings : Bindings V F

/-- The layers that can be seen: from the top one, which is the first, down to and including the
nearest one of a function. -/
def Layer.visible : List (Layer V F) → List (Layer V F)
  | [] => []
  | layer :: rest => if layer.isFunction then [layer] else layer :: visible rest

/-- Changes a variable in the first of the visible layers that has it, if one has. -/
def Layer.modifyVisible? (name : String) (change : V → V) :
    List (Layer V F) → Option (List (Layer V F))
  | [] => none
  | layer :: rest =>
      if (layer.bindings.vars name).isSome then
        some ({ layer with bindings := layer.bindings.modifyVariable name change } :: rest)
      else if layer.isFunction then none
      else (modifyVisible? name change rest).map (layer :: ·)

structure Stack (V F : Type) where
  /-- The frames above the global one, the top one first. -/
  layers : List (Layer V F)
  globals : Bindings V F
  /-- How many frames have been entered so far. -/
  entries : Nat

namespace Stack

def empty : Stack V F :=
  ⟨[], .empty, 0⟩

def push (stack : Stack V F) (isFunction : Bool) : Stack V F :=
  { stack with
    layers := ⟨stack.entries, isFunction, .empty⟩ :: stack.layers
    entries := stack.entries + 1 }

/-- Pops layers down to and including the one that the entry has made, if it is still there. -/
def exit? (stack : Stack V F) (entry : Nat) : Option (Stack V F) :=
  match stack.layers.dropWhile fun layer => layer.entry != entry with
  | [] => none
  | _ :: rest => some { stack with layers := rest }

/-- What the top frame holds. -/
def top (stack : Stack V F) : Bindings V F :=
  match stack.layers with
  | [] => stack.globals
  | layer :: _ => layer.bindings

def setTop (stack : Stack V F) (bindings : Bindings V F) : Stack V F :=
  match stack.layers with
  | [] => { stack with globals := bindings }
  | layer :: rest => { stack with layers := { layer with bindings } :: rest }

/-- What can be seen, in the order in which it is looked at. -/
def visible (stack : Stack V F) : List (Bindings V F) :=
  (Layer.visible stack.layers).map Layer.bindings ++ [stack.globals]

def findVariable? (stack : Stack V F) (name : String) : Option V :=
  stack.visible.findSome? fun bindings => bindings.vars name

def findFunction? (stack : Stack V F) (signature : Signature) : Option F :=
  stack.visible.findSome? fun bindings => bindings.funs signature

def modifyVariable (stack : Stack V F) (name : String) (change : V → V) : Stack V F :=
  match Layer.modifyVisible? name change stack.layers with
  | some layers => { stack with layers }
  | none => { stack with globals := stack.globals.modifyVariable name change }

/-- A declaration that the top frame already has is refused, and then nothing changes. -/
def respond (stack : Stack V F) : Scopes.Request V F → Option (Scopes.Reply V F × Stack V F)
  | .enter => some (.entered stack.entries, stack.push false)
  | .enterFunction => some (.entered stack.entries, stack.push true)
  | .exit entry => (stack.exit? entry).map fun rest => (.left, rest)
  | .declareVariable name value =>
      if (stack.top.vars name).isSome then some (.refused (.variableAlreadyDeclared name), stack)
      else some (.declared, stack.setTop (stack.top.addVariable name value))
  | .declareFunction signature value =>
      if (stack.top.funs signature).isSome then
        some (.refused (.functionAlreadyDeclared signature.name signature.arity), stack)
      else some (.declared, stack.setTop (stack.top.addFunction signature value))
  | .findVariable name => some (.foundVariable (stack.findVariable? name), stack)
  | .modifyVariable name change =>
      some (.foundVariable (stack.findVariable? name), stack.modifyVariable name change)
  | .findFunction signature => some (.foundFunction (stack.findFunction? signature), stack)

end Stack

def Scoping.stack : Scoping V F (Stack V F) where
  respond := Stack.respond
  depth stack := stack.layers.length + 1
  isGlobal stack := stack.layers.isEmpty

/-! ## Linked scopes -/

/-- Linked scopes in the hands of someone who keeps the mark of each entry. -/
structure LinkedScopes.Session (V F : Type) where
  scopes : LinkedScopes V F
  marks : List Mark

namespace LinkedScopes.Session

open Scopes

def empty : Session V F :=
  ⟨.empty, []⟩

def entered (session : Session V F) : Mark × LinkedScopes V F → Reply V F × Session V F
  | (mark, scopes) => (.entered session.marks.length, ⟨scopes, session.marks ++ [mark]⟩)

def declared (session : Session V F) : Except Cause (LinkedScopes V F) → Reply V F × Session V F
  | .ok scopes => (.declared, { session with scopes })
  | .error cause => (.refused cause, session)

/-- There is no response where an operation has no result. -/
def respond (session : Session V F) : Request V F → Option (Reply V F × Session V F)
  | .enter => some (session.entered session.scopes.enter)
  | .enterFunction => some (session.entered session.scopes.enterFunction)
  | .exit entry => session.marks[entry]?.map fun mark =>
      (.left, { session with scopes := session.scopes.exit mark })
  | .declareVariable name value =>
      (session.scopes.declareVariable name value).map session.declared
  | .declareFunction signature value =>
      (session.scopes.declareFunction signature value).map session.declared
  | .findVariable name =>
      (session.scopes.findVariable? name).map fun found => (.foundVariable found, session)
  | .modifyVariable name change =>
      (session.scopes.modifyVariable name change).map fun (found, scopes) =>
        (.foundVariable found, { session with scopes })
  | .findFunction signature =>
      (session.scopes.findFunction? signature).map fun found => (.foundFunction found, session)

end LinkedScopes.Session

def Scoping.linked : Scoping V F (LinkedScopes.Session V F) where
  respond := LinkedScopes.Session.respond
  depth session := session.scopes.depth
  isGlobal session := session.scopes.isGlobal

end Scriptlet
