import Scriptlet.Host
import Scriptlet.Proofs.Typing.Composed

/-! # Rules of typing for each node

What is asked of the annotations at a node, given what they say of the nodes next to it and of the
declaration that it names. The rules know nothing of scopes: which declaration a name refers to is
read off the annotations, too.
-/

namespace Scriptlet

variable {σ : Type}

/-- The type of a constant. -/
def Literal.kind : Literal → Ty
  | nil => .nil
  | boolean _ => .boolean
  | integer _ => .integer
  | decimal _ => .decimal
  | character _ => .character
  | string _ => .string

/-- Operands of the two types give a result of the third. -/
inductive Operator.Yields : Operator → Ty → Ty → Ty → Prop
  | logical {operator : Operator} :
      operator = .and ∨ operator = .or → Operator.Yields operator .boolean .boolean .boolean
  | ordered {operator : Operator} {ty : Ty} :
      operator = .less ∨ operator = .greater → ty.isComparable = true →
        Operator.Yields operator ty ty .boolean
  | compared {operator : Operator} {ty : Ty} :
      operator = .equal ∨ operator = .notEqual → ty.isComparable = true ∨ ty = .boolean →
        Operator.Yields operator ty ty .boolean
  | joined {left right : Ty} :
      left = .string ∨ right = .string → Operator.Yields .add left right .string
  | arithmetic {operator : Operator} {ty : Ty} :
      operator = .add ∨ operator = .subtract ∨ operator = .multiply ∨ operator = .divide →
        ty.isNumeric = true → Operator.Yields operator ty ty ty
  | power : Operator.Yields .power .integer .integer .integer

/-- The declaration of a variable in the program: its name, whether it is a list, and its type, or
that of its elements. -/
inductive VariableOrigin.Declares (p : Program) (notes : Annotations) :
    VariableOrigin → String → Bool → Ty → Prop
  | global {g : Global} {ty : Ty} :
      g ∈ p.globals → notes.declaredTypeOf? g.id = some ty →
        VariableOrigin.Declares p notes (.global g.id) g.name g.isList ty
  | declaration {id : NodeId} {name : String} {typeName : Option String} {initial : Option Expr}
      {ty : Ty} :
      .declaration id name typeName initial ∈ p.nodes → notes.declaredTypeOf? id = some ty →
        VariableOrigin.Declares p notes (.declaration id) name false ty
  | parameter {f : Function} {index : Nat} {name typeName : String} {ty : Ty} :
      f ∈ p.functions → f.parameterNames[index]? = some name →
        f.parameterTypes[index]? = some typeName → Ty.ofName typeName = .ok ty →
        VariableOrigin.Declares p notes (.parameter f.id index) name false ty

/-- The declaration of a function in the program or by its host: what a call of it names, the types
of its parameters, and the type of what it returns. -/
inductive FunctionOrigin.Declares (p : Program) (builtins : List (Builtin σ))
    (notes : Annotations) : FunctionOrigin → Signature → List Ty → Ty → Prop
  | user {f : Function} {types : List Ty} {ty : Ty} :
      f ∈ p.functions →
        List.Forall₂ (fun name ty => Ty.ofName name = .ok ty) f.parameterTypes types →
        notes.declaredTypeOf? f.id = some ty →
        FunctionOrigin.Declares p builtins notes (.user f.id) ⟨f.name, f.arity⟩ types ty
  | builtin {builtin : Builtin σ} :
      builtin ∈ builtins →
        FunctionOrigin.Declares p builtins notes (.builtin builtin.signature) builtin.signature
          builtin.parameterTypes builtin.returnType

/-- A place of the given type takes the expression. -/
def Annotations.Fits (notes : Annotations) (target : Ty) (e : Expr) : Prop :=
  ∃ ty, notes.typeOf? e.id = some ty ∧ target.accepts ty = true

/-- The type that an expression has by what the annotations say of it and of its parts. -/
inductive Expr.Consistent (p : Program) (builtins : List (Builtin σ)) (notes : Annotations) :
    Expr → Ty → Prop
  | literal {id : NodeId} {value : Literal} :
      Expr.Consistent p builtins notes (.literal id value) value.kind
  | group {id : NodeId} {inner : Expr} {ty : Ty} :
      notes.typeOf? inner.id = some ty → Expr.Consistent p builtins notes (.group id inner) ty
  | binary {id : NodeId} {operator : Operator} {left right : Expr} {leftType rightType ty : Ty} :
      notes.typeOf? left.id = some leftType → notes.typeOf? right.id = some rightType →
        operator.Yields leftType rightType ty →
        Expr.Consistent p builtins notes (.binary id operator left right) ty
  | scalar {id : NodeId} {name : String} {origin : VariableOrigin} {ty : Ty} :
      notes.variableOf? id = some origin → origin.Declares p notes name false ty →
        Expr.Consistent p builtins notes (.access id name) ty
  /-- A list by itself can be anything. -/
  | whole {id : NodeId} {name : String} {origin : VariableOrigin} {ty : Ty} :
      notes.variableOf? id = some origin → origin.Declares p notes name true ty →
        Expr.Consistent p builtins notes (.access id name) .any
  | element {id : NodeId} {name : String} {index : Expr} {origin : VariableOrigin} {ty : Ty} :
      notes.typeOf? index.id = some .integer → notes.variableOf? id = some origin →
        origin.Declares p notes name true ty →
        Expr.Consistent p builtins notes (.element id name index) ty
  /-- What can be anything can be a list of anything. -/
  | unknown {id : NodeId} {name : String} {index : Expr} {origin : VariableOrigin} :
      notes.typeOf? index.id = some .integer → notes.variableOf? id = some origin →
        origin.Declares p notes name false .any →
        Expr.Consistent p builtins notes (.element id name index) .any
  | call {id : NodeId} {name : String} {arguments : List Expr} {origin : FunctionOrigin}
      {types : List Ty} {ty : Ty} :
      notes.functionOf? id = some origin →
        origin.Declares p builtins notes ⟨name, arguments.length⟩ types ty →
        List.Forall₂ notes.Fits types arguments →
        Expr.Consistent p builtins notes (.call id name arguments) ty
  | list {id : NodeId} {elements : List Expr} :
      Expr.Consistent p builtins notes (.list id elements) .any

/-- What is asked of a statement and of those inside it, in a function that returns values of type
`result`. What is asked of declarations and expressions is asked of them as nodes. -/
inductive Stmt.Consistent (notes : Annotations) (result : Ty) : Stmt → Prop
  | expression {value : Expr} : Stmt.Consistent notes result (.expression value)
  | declaration {id : NodeId} {name : String} {typeName : Option String} {initial : Option Expr} :
      Stmt.Consistent notes result (.declaration id name typeName initial)
  | assignment {receiver value : Expr} {target : Ty} :
      receiver.isPlace = true → notes.typeOf? receiver.id = some target →
        notes.Fits target value → Stmt.Consistent notes result (.assignment receiver value)
  | branch {test : Expr} {thenBlock elseBlock : List Stmt} :
      notes.typeOf? test.id = some .boolean → (∀ s ∈ thenBlock, Stmt.Consistent notes result s) →
        (∀ s ∈ elseBlock, Stmt.Consistent notes result s) →
        Stmt.Consistent notes result (.branch test thenBlock elseBlock)
  | switch {subject : Expr} {arms : List Case} {ty : Ty} :
      notes.typeOf? subject.id = some ty →
        (∀ arm ∈ arms, ∀ value, arm.value = some value → notes.typeOf? value.id = some ty) →
        (∀ arm ∈ arms, ∀ s ∈ arm.body, Stmt.Consistent notes result s) →
        Stmt.Consistent notes result (.switch subject arms)
  | loop {test : Expr} {body : List Stmt} :
      notes.typeOf? test.id = some .boolean → (∀ s ∈ body, Stmt.Consistent notes result s) →
        Stmt.Consistent notes result (.loop test body)
  | ret {value : Expr} : notes.Fits result value → Stmt.Consistent notes result (.ret value)

/-- What is asked of the type of a local variable: it is the declared one, which the first value
fits if there is one, or it is that of the first value. -/
def Annotations.SuitsLocal (notes : Annotations) (ty : Ty) : Option String → Option Expr → Prop
  | some typeName, initial =>
      Ty.ofName typeName = .ok ty ∧ ∀ e, initial = some e → notes.Fits ty e
  | none, initial => ∃ e, initial = some e ∧ notes.typeOf? e.id = some ty

/-- What is asked of the type of a global: its first value fits it, or each element does if that is
a list. -/
def Annotations.SuitsGlobal (notes : Annotations) (ty : Ty) : Option Expr → Prop
  | none => True
  | some (.list _ elements) => ∀ e ∈ elements, notes.Fits ty e
  | some initial => notes.Fits ty initial

/-- What is asked of a node. -/
def Node.Consistent (p : Program) (builtins : List (Builtin σ)) (notes : Annotations) : Node → Prop
  | expression e => ∃ ty, notes.typeOf? e.id = some ty ∧ e.Consistent p builtins notes ty
  | declaration id _ typeName initial =>
      ∃ ty, notes.declaredTypeOf? id = some ty ∧ notes.SuitsLocal ty typeName initial
  | global g =>
      ∃ ty, notes.declaredTypeOf? g.id = some ty ∧ Ty.ofName g.typeName = .ok ty ∧
        notes.SuitsGlobal ty g.initial
  | function f =>
      ∃ ty, notes.declaredTypeOf? f.id = some ty ∧ Ty.ofReturn f.returnType = .ok ty ∧
        ∀ s ∈ f.body, s.Consistent notes ty

/-- There are annotations of the nodes of the program, and of nothing else: the type of each
expression, the declared type of each declaration, the variable that an expression names and the
function that a call names. -/
structure Annotations.Complete (p : Program) (notes : Annotations) : Prop where
  types : ∀ id, (notes.typeOf? id).isSome = true ↔ ∃ e, .expression e ∈ p.nodes ∧ e.id = id
  declaredTypes : ∀ id, (notes.declaredTypeOf? id).isSome = true ↔
    (∃ g ∈ p.globals, g.id = id) ∨ (∃ f ∈ p.functions, f.id = id) ∨
      ∃ name typeName initial, .declaration id name typeName initial ∈ p.nodes
  variableOrigins : ∀ id, (notes.variableOf? id).isSome = true ↔
    ∃ e, .expression e ∈ p.nodes ∧ e.isPlace = true ∧ e.id = id
  functionOrigins : ∀ id, (notes.functionOf? id).isSome = true ↔
    ∃ e, .expression e ∈ p.nodes ∧ e.isCall = true ∧ e.id = id

end Scriptlet
