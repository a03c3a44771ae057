import Scriptlet.Scope.Basic
import Scriptlet.Syntax.Tree

/-! # Origins of names

The declarations that names refer to.
-/

namespace Scriptlet

/-- The declaration of a variable. -/
inductive VariableOrigin where
  | global (id : NodeId)
  | declaration (id : NodeId)
  | parameter (function : NodeId) (index : Nat)
deriving DecidableEq, Repr

/-- The declaration of a function: in the program, or by its host. -/
inductive FunctionOrigin where
  | user (id : NodeId)
  | builtin (signature : Signature)
deriving DecidableEq, Repr

end Scriptlet
