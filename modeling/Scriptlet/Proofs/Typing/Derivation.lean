import Mathlib.Data.List.Forall2
import Scriptlet.Proofs.Chain
import Scriptlet.Typing.Program

/-! # Typing derivations

The rules of typing as relations, without the order in which a check records what it finds. The
annotations of the program are given from the start, and every rule reads off them what they say of
its node.
-/

namespace Scriptlet

/-- Only `Any` and `Comparable` take more than one type. -/
theorem Ty.eq_of_accepts {target source : Ty} (h : target.accepts source = true)
    (hany : target ≠ .any) (hcomparable : target ≠ .comparable) : source = target := by
  cases target <;> simp_all [Ty.accepts]

/-- What follows a requirement is reached only if it is met. -/
theorem Ty.of_requireAssignable {target source ty : Ty} {next : Unit → Except Cause Ty}
    (h : (Ty.requireAssignable target source >>= next) = .ok ty) :
    target.accepts source = true ∧ next () = .ok ty := by
  unfold Ty.requireAssignable at h
  split at h
  next haccepts => exact ⟨haccepts, h⟩
  next => cases h

/-- The type of a variable that is named without an index. A list by itself can be anything. -/
def VariableInfo.bareType (info : VariableInfo) : Ty :=
  if info.isList then .any else info.ty

mutual

/-- Where the given declarations are seen, the expression has the type, and the annotations say so
of it and of all its parts. -/
inductive Expr.Typed (notes : Annotations) (scopes : StaticScopes) : Expr → Ty → Prop
  | literal {id : NodeId} {value : Literal} {ty : Ty} :
      value.type = .ok ty → notes.typeOf? id = some ty →
        Expr.Typed notes scopes (.literal id value) ty
  | group {id : NodeId} {inner : Expr} {ty : Ty} :
      Expr.Typed notes scopes inner ty → notes.typeOf? id = some ty →
        Expr.Typed notes scopes (.group id inner) ty
  | binary {id : NodeId} {operator : Operator} {left right : Expr} {leftType rightType ty : Ty} :
      Expr.Typed notes scopes left leftType → Expr.Typed notes scopes right rightType →
        operator.resultType leftType rightType = .ok ty → notes.typeOf? id = some ty →
        Expr.Typed notes scopes (.binary id operator left right) ty
  | access {id : NodeId} {name : String} {info : VariableInfo} :
      scopes.findVariable? name = some info → notes.variableOf? id = some info.origin →
        notes.typeOf? id = some info.bareType →
        Expr.Typed notes scopes (.access id name) info.bareType
  | element {id : NodeId} {name : String} {index : Expr} {info : VariableInfo} :
      scopes.findVariable? name = some info → Expr.Typed notes scopes index .integer →
        (info.isList = true ∨ info.ty = .any) → notes.variableOf? id = some info.origin →
        notes.typeOf? id = some info.ty →
        Expr.Typed notes scopes (.element id name index) info.ty
  | call {id : NodeId} {name : String} {arguments : List Expr} {info : FunctionInfo} :
      scopes.findFunction? ⟨name, arguments.length⟩ = some info →
        Expr.Passed notes scopes arguments info.parameterTypes →
        notes.functionOf? id = some info.origin → notes.typeOf? id = some info.returnType →
        Expr.Typed notes scopes (.call id name arguments) info.returnType
  | list {id : NodeId} {elements : List Expr} :
      Expr.Passed notes scopes elements (elements.map fun _ => .any) →
        notes.typeOf? id = some .any → Expr.Typed notes scopes (.list id elements) .any

/-- As many expressions as types, each of a type that fits. -/
inductive Expr.Passed (notes : Annotations) (scopes : StaticScopes) : List Expr → List Ty → Prop
  | nil : Expr.Passed notes scopes [] []
  | cons {argument : Expr} {arguments : List Expr} {ty parameter : Ty} {parameters : List Ty} :
      Expr.Typed notes scopes argument ty → parameter.accepts ty = true →
        Expr.Passed notes scopes arguments parameters →
        Expr.Passed notes scopes (argument :: arguments) (parameter :: parameters)

end

/-- What can be passed for some types can be passed for any. -/
theorem Expr.Passed.any {notes : Annotations} {scopes : StaticScopes} {arguments : List Expr}
    {types : List Ty} (h : Expr.Passed notes scopes arguments types) :
    Expr.Passed notes scopes arguments (arguments.map fun _ => .any) := by
  induction arguments generalizing types with
  | nil => exact .nil
  | cons first rest ih =>
      cases h with
      | cons hfirst _ hrest => exact .cons hfirst rfl (ih hrest)

/-- The expressions that an assignment can go to. -/
def Expr.isPlace : Expr → Bool
  | .access _ _ | .element _ _ _ => true
  | _ => false

/-- What is known of a local variable. -/
def VariableInfo.ofLocal (id : NodeId) (ty : Ty) : VariableInfo where
  ty := ty
  mutable := true
  isList := false
  origin := .declaration id

mutual

/-- The statement fits the declarations before it, and the last scopes are those after it. Returns
inside it give values for a function of the type `result`. -/
inductive Stmt.Typed (notes : Annotations) (result : Ty) :
    StaticScopes → Stmt → StaticScopes → Prop
  | expression {scopes : StaticScopes} {value : Expr} {ty : Ty} :
      value.Typed notes scopes ty → Stmt.Typed notes result scopes (.expression value) scopes
  | typed {scopes scopes' : StaticScopes} {id : NodeId} {name typeName : String} {initial : Expr}
      {ty given : Ty} :
      Ty.ofName typeName = .ok ty → initial.Typed notes scopes given →
        ty.accepts given = true → notes.declaredTypeOf? id = some ty →
        scopes.declareVariable name (.ofLocal id ty) = .ok scopes' →
        Stmt.Typed notes result scopes (.declaration id name (some typeName) (some initial)) scopes'
  | unset {scopes scopes' : StaticScopes} {id : NodeId} {name typeName : String} {ty : Ty} :
      Ty.ofName typeName = .ok ty → notes.declaredTypeOf? id = some ty →
        scopes.declareVariable name (.ofLocal id ty) = .ok scopes' →
        Stmt.Typed notes result scopes (.declaration id name (some typeName) none) scopes'
  | inferred {scopes scopes' : StaticScopes} {id : NodeId} {name : String} {initial : Expr}
      {ty : Ty} :
      initial.Typed notes scopes ty → notes.declaredTypeOf? id = some ty →
        scopes.declareVariable name (.ofLocal id ty) = .ok scopes' →
        Stmt.Typed notes result scopes (.declaration id name none (some initial)) scopes'
  | assignment {scopes : StaticScopes} {receiver value : Expr} {target ty : Ty} :
      receiver.isPlace = true → receiver.Typed notes scopes target →
        value.Typed notes scopes ty → target.accepts ty = true →
        Stmt.Typed notes result scopes (.assignment receiver value) scopes
  | branch {scopes thenScopes elseScopes : StaticScopes} {test : Expr}
      {thenBlock elseBlock : List Stmt} :
      test.Typed notes scopes .boolean →
        Chain (Stmt.Typed notes result) scopes.enter thenBlock thenScopes →
        Chain (Stmt.Typed notes result) scopes.enter elseBlock elseScopes →
        Stmt.Typed notes result scopes (.branch test thenBlock elseBlock) scopes
  | switch {scopes : StaticScopes} {subject : Expr} {arms : List Case} {ty : Ty} :
      subject.Typed notes scopes ty →
        (∀ arm ∈ arms, Case.Typed notes result scopes ty arm) →
        Stmt.Typed notes result scopes (.switch subject arms) scopes
  | loop {scopes bodyScopes : StaticScopes} {test : Expr} {body : List Stmt} :
      test.Typed notes scopes .boolean →
        Chain (Stmt.Typed notes result) scopes.enter body bodyScopes →
        Stmt.Typed notes result scopes (.loop test body) scopes
  | ret {scopes : StaticScopes} {value : Expr} {ty : Ty} :
      value.Typed notes scopes ty → result.accepts ty = true →
        Stmt.Typed notes result scopes (.ret value) scopes

/-- The arm fits a switch on a value of the given type. -/
inductive Case.Typed (notes : Annotations) (result : Ty) : StaticScopes → Ty → Case → Prop
  | value {scopes bodyScopes : StaticScopes} {ty : Ty} {value : Expr} {body : List Stmt} :
      value.Typed notes scopes ty →
        Chain (Stmt.Typed notes result) scopes.enter body bodyScopes →
        Case.Typed notes result scopes ty (.mk (some value) body)
  | default {scopes bodyScopes : StaticScopes} {ty : Ty} {body : List Stmt} :
      Chain (Stmt.Typed notes result) scopes.enter body bodyScopes →
        Case.Typed notes result scopes ty (.mk none body)

end

/-- Statements one after the other. -/
abbrev Stmt.BlockTyped (notes : Annotations) (result : Ty) :
    StaticScopes → List Stmt → StaticScopes → Prop :=
  Chain (Stmt.Typed notes result)

/-- What is known of a global of the given type. -/
def VariableInfo.ofGlobal (g : Global) (ty : Ty) : VariableInfo where
  ty := ty
  mutable := g.mutable
  isList := g.isList
  origin := .global g.id

/-- The first value of a global fits its type, or each element does if it is a list. -/
inductive Global.InitialTyped (notes : Annotations) (scopes : StaticScopes) (ty : Ty) :
    Option Expr → Prop
  | unset : Global.InitialTyped notes scopes ty none
  | list {id : NodeId} {elements : List Expr} :
      Expr.Passed notes scopes elements (elements.map fun _ => ty) →
        notes.typeOf? id = some .any →
        Global.InitialTyped notes scopes ty (some (.list id elements))
  | scalar {initial : Expr} {given : Ty} :
      initial.isList = false → initial.Typed notes scopes given → ty.accepts given = true →
        Global.InitialTyped notes scopes ty (some initial)

/-- The first value of a global has a type, be it a list or not. -/
theorem Global.InitialTyped.typed {notes : Annotations} {scopes : StaticScopes} {ty : Ty}
    {initial : Expr} (h : Global.InitialTyped notes scopes ty (some initial)) :
    ∃ given, initial.Typed notes scopes given := by
  cases h with
  | list hpassed hnote => exact ⟨.any, .list hpassed.any hnote⟩
  | @scalar _ given _ hinitial _ => exact ⟨given, hinitial⟩

inductive Global.Typed (notes : Annotations) : StaticScopes → Global → StaticScopes → Prop
  | mk {scopes scopes' : StaticScopes} {g : Global} {ty : Ty} :
      Ty.ofName g.typeName = .ok ty → Global.InitialTyped notes scopes ty g.initial →
        notes.declaredTypeOf? g.id = some ty →
        scopes.declareVariable g.name (.ofGlobal g ty) = .ok scopes' →
        Global.Typed notes scopes g scopes'

/-- The type of what a function returns; without a declared type it is nil. -/
def Ty.ofReturn : Option String → Except Cause Ty
  | some name => Ty.ofName name
  | none => .ok .nil

/-- The function has the parameters and the result that are known of it. -/
structure Function.Described (f : Function) (info : FunctionInfo) : Prop where
  parameters : List.Forall₂ (fun name ty => Ty.ofName name = .ok ty) f.parameterTypes
    info.parameterTypes
  result : Ty.ofReturn f.returnType = .ok info.returnType
  origin : info.origin = .user f.id

inductive Function.Declared (notes : Annotations) : StaticScopes → Function → StaticScopes → Prop
  | mk {scopes scopes' : StaticScopes} {f : Function} {info : FunctionInfo} :
      f.Described info → notes.declaredTypeOf? f.id = some info.returnType →
        scopes.declareFunction ⟨f.name, f.arity⟩ info = .ok scopes' →
        Function.Declared notes scopes f scopes'

/-- What is known of a parameter. -/
def VariableInfo.ofParameter (function : NodeId) (index : Nat) (ty : Ty) : VariableInfo where
  ty := ty
  mutable := true
  isList := false
  origin := .parameter function index

/-- The parameters of a function, numbered from the index, are declared one after the other. -/
inductive ParametersDeclared (function : NodeId) :
    Nat → List String → List String → StaticScopes → StaticScopes → Prop
  | nil {index : Nat} {scopes : StaticScopes} :
      ParametersDeclared function index [] [] scopes scopes
  | cons {index : Nat} {name typeName : String} {names typeNames : List String} {ty : Ty}
      {scopes middle scopes' : StaticScopes} :
      Ty.ofName typeName = .ok ty →
        scopes.declareVariable name (.ofParameter function index ty) = .ok middle →
        ParametersDeclared function (index + 1) names typeNames middle scopes' →
        ParametersDeclared function index (name :: names) (typeName :: typeNames) scopes scopes'

/-- The body of a function fits the declarations of the global frame and its own parameters. -/
inductive Function.Typed (notes : Annotations) (globals : Frame VariableInfo FunctionInfo) :
    Function → Prop
  | mk {f : Function} {result : Ty} {inside finish : StaticScopes} :
      Ty.ofReturn f.returnType = .ok result →
        ParametersDeclared f.id 0 f.parameterNames f.parameterTypes
          (Scopes.enterFunction ⟨[], [], globals⟩) inside →
        Stmt.BlockTyped notes result inside f.body finish →
        Function.Typed notes globals f

/-- A program that fits the declarations of its host: the scopes after its globals, and after its
functions are declared, in which each body is typed. -/
structure Program.Typed (notes : Annotations) (start middle finish : StaticScopes) (p : Program) :
    Prop where
  globals : Chain (Global.Typed notes) start p.globals middle
  functions : Chain (Function.Declared notes) middle p.functions finish
  main : ∃ info id, finish.findFunction? ⟨"main", 0⟩ = some info ∧ info.origin = .user id ∧
    info.returnType = .integer
  bodies : ∀ f ∈ p.functions, f.Typed notes finish.globals

end Scriptlet
