import Scriptlet.Scope.Table
import Scriptlet.Syntax.Origin
import Scriptlet.Ty

/-! # Annotations

What the typing of a program says about its nodes: the type of every expression, the type of every
declaration, and the declaration that every use of a name refers to.
-/

namespace Scriptlet

structure Annotations where
  types : Table NodeId Ty
  declaredTypes : Table NodeId Ty
  variableOrigins : Table NodeId VariableOrigin
  functionOrigins : Table NodeId FunctionOrigin
deriving DecidableEq, Repr

namespace Annotations

def empty : Annotations :=
  ⟨[], [], [], []⟩

/-- The type of an expression. -/
def typeOf? (annotations : Annotations) (id : NodeId) : Option Ty :=
  annotations.types.value? id

/-- The type of a declaration: of a variable, or of what a function returns. -/
def declaredTypeOf? (annotations : Annotations) (id : NodeId) : Option Ty :=
  annotations.declaredTypes.value? id

/-- The declaration of the variable that an expression names. -/
def variableOf? (annotations : Annotations) (id : NodeId) : Option VariableOrigin :=
  annotations.variableOrigins.value? id

/-- The declaration of the function that a call names. -/
def functionOf? (annotations : Annotations) (id : NodeId) : Option FunctionOrigin :=
  annotations.functionOrigins.value? id

def recordType (annotations : Annotations) (id : NodeId) (ty : Ty) : Annotations :=
  { annotations with types := annotations.types.bind id ty }

def recordDeclaration (annotations : Annotations) (id : NodeId) (ty : Ty) : Annotations :=
  { annotations with declaredTypes := annotations.declaredTypes.bind id ty }

def recordVariable (annotations : Annotations) (id : NodeId) (origin : VariableOrigin) :
    Annotations :=
  { annotations with variableOrigins := annotations.variableOrigins.bind id origin }

def recordFunction (annotations : Annotations) (id : NodeId) (origin : FunctionOrigin) :
    Annotations :=
  { annotations with functionOrigins := annotations.functionOrigins.bind id origin }

end Annotations

end Scriptlet
