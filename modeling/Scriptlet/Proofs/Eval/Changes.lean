import Scriptlet.Proofs.Eval.Outline

/-! # Changes of a machine

Whatever evaluation does to a machine is a sequence of changes, each of one place: a frame comes or
goes, a slot is made or gets another value, a list is made or gets another element, the host is
called. The machine after a sequence of changes is all that is left of it, but the changes
themselves tell what has happened on the way.
-/

namespace Scriptlet

variable {σ : Type}

/-- One change of a machine. -/
inductive Change (σ : Type) where
  | enterBlock
  | leaveBlock
  | enterFunction
  | leaveFunction
  /-- A slot is made in the current frame. Its value is `given` by the program, or it is nil for
  want of one. -/
  | declare (name : String) (slot : Slot) (given : Bool)
  | declareFunction (f : Function)
  /-- The slot that the name refers to gets another value. -/
  | store (name : String) (value : Value)
  | createList (elements : List Value)
  /-- The list at the address, which the variable of the given name holds, gets another element. -/
  | storeElement (name : String) (address : Address) (position : Nat) (value : Value)
  /-- The function of the host that the name refers to is called. -/
  | native (name : String) (run : Native σ) (arguments : List Value)

/-- The scopes with one more variable in the current frame. -/
def Scopes.addVariable {V F : Type} (scopes : Scopes V F) (name : String) (value : V) :
    Scopes V F :=
  scopes.setCurrent { scopes.current with vars := scopes.current.vars.bind name value }

/-- The scopes with one more function in the current frame. -/
def Scopes.addFunction {V F : Type} (scopes : Scopes V F) (signature : Signature) (value : F) :
    Scopes V F :=
  scopes.setCurrent { scopes.current with funs := scopes.current.funs.bind signature value }

/-- What the change makes of a machine. -/
def Change.apply (machine : Machine σ) : Change σ → Machine σ
  | enterBlock => machine.enter
  | leaveBlock => machine.leaveBlock
  | enterFunction => machine.enterFunction
  | leaveFunction => machine.leaveFunction
  | declare name slot _ => { machine with scopes := machine.scopes.addVariable name slot }
  | declareFunction f =>
      { machine with scopes := machine.scopes.addFunction ⟨f.name, f.arity⟩ (.user f) }
  | store name value =>
      { machine with
        scopes := machine.scopes.modifyVariable name fun slot => { slot with value } }
  | createList elements => { machine with heap := machine.heap.create elements.toArray }
  | storeElement _ address position value =>
      { machine with heap := machine.heap.setElement address position value }
  | native _ run arguments =>
      { machine with
        heap := (run arguments machine.heap machine.host).2.1
        host := (run arguments machine.heap machine.host).2.2 }

/-- The slot that the change makes, and its name. -/
def Change.declared? : Change σ → Option (String × Slot)
  | declare name slot _ => some (name, slot)
  | _ => none

namespace Machine

/-- The machine after changes. -/
def after (machine : Machine σ) (changes : List (Change σ)) : Machine σ :=
  changes.foldl Change.apply machine

variable (machine : Machine σ)

@[simp] theorem after_nil : machine.after [] = machine := rfl

@[simp] theorem after_cons (change : Change σ) (changes : List (Change σ)) :
    machine.after (change :: changes) = (change.apply machine).after changes := rfl

@[simp] theorem after_append (first second : List (Change σ)) :
    machine.after (first ++ second) = (machine.after first).after second :=
  List.foldl_append

end Machine

end Scriptlet
