import Scriptlet.Proofs.Scope.Widening
import Scriptlet.Proofs.Syntax.Nodes
import Scriptlet.Proofs.Typing.Derivation

/-! # How checks are put together

Checks of expressions and statements are put together from a few elementary checks: a name is
looked up, a record is made for a node, a variable is declared, a value is returned. So what holds
of these, and of checks put together from checks of which it holds, holds of all of them.
-/

namespace Scriptlet

/-! ## Batches of records -/

/-- The records of the first annotations, made after those of the second. -/
instance : Append Annotations where
  append first second := {
    types := first.types ++ second.types
    declaredTypes := first.declaredTypes ++ second.declaredTypes
    variableOrigins := first.variableOrigins ++ second.variableOrigins
    functionOrigins := first.functionOrigins ++ second.functionOrigins }

/-- What a record is about. -/
inductive Note where
  | type
  | declaredType
  | variableOrigin
  | functionOrigin
deriving DecidableEq, Repr

namespace Annotations

variable (first second third : Annotations) (id : NodeId)

@[simp] theorem empty_append : empty ++ first = first := rfl

theorem append_assoc : first ++ second ++ third = first ++ (second ++ third) := by
  change Annotations.mk (_ ++ _ ++ _) (_ ++ _ ++ _) (_ ++ _ ++ _) (_ ++ _ ++ _) = _
  rw [List.append_assoc, List.append_assoc, List.append_assoc, List.append_assoc]
  rfl

@[simp] theorem append_empty : first ++ empty = first := by
  change Annotations.mk (_ ++ []) (_ ++ []) (_ ++ []) (_ ++ []) = _
  rw [List.append_nil, List.append_nil, List.append_nil, List.append_nil]

@[simp] theorem typeOf?_append :
    (first ++ second).typeOf? id = (first.typeOf? id).or (second.typeOf? id) :=
  Table.value?_append _ _ _

@[simp] theorem declaredTypeOf?_append :
    (first ++ second).declaredTypeOf? id =
      (first.declaredTypeOf? id).or (second.declaredTypeOf? id) :=
  Table.value?_append _ _ _

@[simp] theorem variableOf?_append :
    (first ++ second).variableOf? id = (first.variableOf? id).or (second.variableOf? id) :=
  Table.value?_append _ _ _

@[simp] theorem functionOf?_append :
    (first ++ second).functionOf? id = (first.functionOf? id).or (second.functionOf? id) :=
  Table.value?_append _ _ _

/-- Whether there is a record of a kind for a node. -/
def has (notes : Annotations) (id : NodeId) : Note → Bool
  | .type => (notes.typeOf? id).isSome
  | .declaredType => (notes.declaredTypeOf? id).isSome
  | .variableOrigin => (notes.variableOf? id).isSome
  | .functionOrigin => (notes.functionOf? id).isSome

theorem has_append (note : Note) :
    (first ++ second).has id note = (first.has id note || second.has id note) := by
  cases note <;> simp [has]

end Annotations

/-! ## Records of nodes -/

def Expr.isCall : Expr → Bool
  | .call _ _ _ => true
  | _ => false

/-- The records that are made for a node of a program. -/
def Node.carries : Node → Note → Bool
  | expression _, .type => true
  | expression e, .variableOrigin => e.isPlace
  | expression e, .functionOrigin => e.isCall
  | expression _, .declaredType => false
  | declaration _ _ _ _, note | global _, note | function _, note => note = .declaredType

/-- All records are made for the given nodes, and each is one that its node carries. -/
def Annotations.RecordsOf (nodes : List Node) (batch : Annotations) : Prop :=
  ∀ id note, batch.has id note = true → ∃ node ∈ nodes, node.id = id ∧ node.carries note = true

namespace Annotations.RecordsOf

variable {nodes : List Node} {first second : Annotations}

theorem empty : RecordsOf nodes empty := by
  intro id note h
  cases note <;> cases h

theorem append (hfirst : RecordsOf nodes first) (hsecond : RecordsOf nodes second) :
    RecordsOf nodes (first ++ second) := by
  intro id note h
  rw [has_append, Bool.or_eq_true] at h
  exact h.elim (hfirst id note) (hsecond id note)

/-- A batch of one record, whose node is known from the record itself. -/
theorem single {node : Node} (note : Note) (hnode : node ∈ nodes)
    (hcarries : node.carries note = true)
    (hfirst : ∀ id other, first.has id other = true → node.id = id ∧ note = other) :
    RecordsOf nodes first := by
  intro id other h
  obtain ⟨rfl, rfl⟩ := hfirst id other h
  exact ⟨node, hnode, rfl, hcarries⟩

theorem ofType {e : Expr} (h : .expression e ∈ nodes) (ty : Ty) :
    RecordsOf nodes ⟨[(e.id, ty)], [], [], []⟩ := by
  apply single .type h rfl
  intro id other hhas
  cases other <;>
    simp_all [has, typeOf?, declaredTypeOf?, variableOf?, functionOf?, Table.value?, Node.id]

theorem ofDeclaredType {node : Node} (h : node ∈ nodes)
    (hcarries : node.carries .declaredType = true) (ty : Ty) :
    RecordsOf nodes ⟨[], [(node.id, ty)], [], []⟩ := by
  apply single .declaredType h hcarries
  intro id other hhas
  cases other <;>
    simp_all [has, typeOf?, declaredTypeOf?, variableOf?, functionOf?, Table.value?]

theorem ofVariable {e : Expr} (h : .expression e ∈ nodes) (hplace : e.isPlace = true)
    (origin : VariableOrigin) : RecordsOf nodes ⟨[], [], [(e.id, origin)], []⟩ := by
  apply single .variableOrigin h hplace
  intro id other hhas
  cases other <;>
    simp_all [has, typeOf?, declaredTypeOf?, variableOf?, functionOf?, Table.value?, Node.id]

theorem ofFunction {e : Expr} (h : .expression e ∈ nodes) (hcall : e.isCall = true)
    (origin : FunctionOrigin) : RecordsOf nodes ⟨[], [], [], [(e.id, origin)]⟩ := by
  apply single .functionOrigin h hcall
  intro id other hhas
  cases other <;>
    simp_all [has, typeOf?, declaredTypeOf?, variableOf?, functionOf?, Table.value?, Node.id]

end Annotations.RecordsOf

namespace Check

variable {α β : Type}

/-! ## Elementary checks -/

/-- Looks a variable up. -/
def knownVariable (name : String) : Check VariableInfo := do
  match (← get).scopes.findVariable? name with
  | none => throw (.variableNotDeclared name)
  | some info => return info

/-- Looks a function up. -/
def knownFunction (signature : Signature) : Check FunctionInfo := do
  match (← get).scopes.findFunction? signature with
  | none => throw (.functionNotDeclared signature.name signature.arity)
  | some info => return info

/-- A value of the type can be returned. -/
def returning (ty : Ty) : Check Unit := do
  let typing ← get
  lift (Ty.requireAssignable typing.returnType ty)

theorem visibleVariable_eq (id : NodeId) (name : String) :
    visibleVariable id name = (do
      let info ← knownVariable name
      record (·.recordVariable id info.origin)
      return info) := by
  unfold visibleVariable knownVariable
  rw [bind_assoc]
  congr 1
  funext typing
  cases typing.scopes.findVariable? name <;> rfl

theorem expression_call (id : NodeId) (name : String) (arguments : List Expr) :
    expression (.call id name arguments) = (do
      let info ← knownFunction ⟨name, arguments.length⟩
      passed arguments info.parameterTypes
      record (·.recordFunction id info.origin)
      record (·.recordType id info.returnType)
      return info.returnType) := by
  unfold expression knownFunction
  rw [bind_assoc]
  congr 1
  funext typing
  cases typing.scopes.findFunction? ⟨name, arguments.length⟩ <;> rfl

/-- The check is put together from elementary checks, which make records for the given nodes. The
type that a return must fit matters to it only if it `returns`. -/
inductive Composed (nodes : List Node) (returns : Bool) : {α : Type} → Check α → Prop
  | pure {α : Type} (result : α) : Composed nodes returns (pure result : Check α)
  | throw {α : Type} (cause : Cause) : Composed nodes returns (throw cause : Check α)
  | bind {α β : Type} {check : Check α} {next : α → Check β} :
      Composed nodes returns check → (∀ result, Composed nodes returns (next result)) →
        Composed nodes returns (check >>= next)
  | inBlock {α : Type} {check : Check α} :
      Composed nodes returns check → Composed nodes returns (inBlock check)
  | record {batch : Annotations} :
      batch.RecordsOf nodes → Composed nodes returns (record (batch ++ ·))
  | knownVariable (name : String) : Composed nodes returns (knownVariable name)
  | knownFunction (signature : Signature) : Composed nodes returns (knownFunction signature)
  | returning {ty : Ty} : returns = true → Composed nodes returns (returning ty)
  | declareVariable (name : String) (info : VariableInfo) :
      Composed nodes returns (declareVariable name info)

namespace Composed

variable {nodes : List Node} {returns : Bool}

theorem lift (result : Except Cause α) : Composed nodes returns (lift result) := by
  cases result with
  | ok value => exact .pure value
  | error cause => exact .throw cause

theorem resolve (name : String) : Composed nodes returns (resolve name) :=
  lift _

/-- The type of an expression is recorded and handed on. -/
theorem recordType {e : Expr} (h : .expression e ∈ nodes) (ty : Ty) :
    Composed nodes returns (do
      Check.record (·.recordType e.id ty)
      return ty) :=
  (Composed.record (.ofType h ty)).bind fun _ => .pure ty

theorem recordDeclaration {node : Node} (h : node ∈ nodes)
    (hcarries : node.carries .declaredType = true) (ty : Ty) :
    Composed nodes returns (Check.record (·.recordDeclaration node.id ty)) :=
  .record (.ofDeclaredType h hcarries ty)

theorem recordFunction {e : Expr} (h : .expression e ∈ nodes) (hcall : e.isCall = true)
    (origin : FunctionOrigin) :
    Composed nodes returns (Check.record (·.recordFunction e.id origin)) :=
  .record (.ofFunction h hcall origin)

theorem visibleVariable {e : Expr} (h : .expression e ∈ nodes) (hplace : e.isPlace = true)
    (name : String) : Composed nodes returns (visibleVariable e.id name) := by
  rw [visibleVariable_eq]
  apply (Composed.knownVariable name).bind
  intro info
  exact (Composed.record (.ofVariable h hplace info.origin)).bind fun _ => .pure info

/-! ## Expressions -/

theorem fits (elementType : Option Ty) (ty : Ty) :
    Composed nodes returns (fits elementType ty) := by
  cases elementType with
  | some target => exact lift _
  | none => exact .pure ()

mutual

theorem expression : ∀ e : Expr, e.nodes ⊆ nodes → Composed nodes returns (expression e)
  | .literal id value, h => by
      simp only [Check.expression]
      apply (lift _).bind
      intro ty
      exact recordType (h (Expr.self_mem_nodes _)) ty
  | .group id inner, h => by
      simp only [Check.expression]
      split
      · apply (expression inner fun _ hnode => h (List.mem_append_left _ hnode)).bind
        intro ty
        exact recordType (h (Expr.self_mem_nodes _)) ty
      · exact .throw _
  | .binary id operator left right, h => by
      simp only [Check.expression]
      simp only [Expr.nodes, List.append_subset] at h
      apply (expression left h.1.1).bind
      intro leftType
      apply (expression right h.1.2).bind
      intro rightType
      apply (lift _).bind
      intro ty
      exact recordType (h.2 List.mem_cons_self) ty
  | .access id name, h => by
      simp only [Check.expression]
      apply (visibleVariable (h (Expr.self_mem_nodes _)) rfl name).bind
      intro info
      exact recordType (h (Expr.self_mem_nodes _)) _
  | .element id name index, h => by
      simp only [Check.expression]
      apply (visibleVariable (h (Expr.self_mem_nodes _)) rfl name).bind
      intro info
      apply (expression index fun _ hnode => h (List.mem_append_left _ hnode)).bind
      intro indexType
      apply (lift _).bind
      intro _
      split
      · exact recordType (h (Expr.self_mem_nodes _)) _
      · exact .throw _
  | .call id name arguments, h => by
      rw [expression_call]
      apply (Composed.knownFunction _).bind
      intro info
      apply (passed arguments info.parameterTypes fun _ hnode =>
        h (List.mem_append_left _ hnode)).bind
      intro _
      apply (recordFunction (h (Expr.self_mem_nodes _)) rfl info.origin).bind
      intro _
      exact recordType (h (Expr.self_mem_nodes _)) info.returnType
  | .list id elements, h => by
      simp only [Check.expression]
      apply (held none elements fun _ hnode => h (List.mem_append_left _ hnode)).bind
      intro _
      exact recordType (h (Expr.self_mem_nodes _)) .any

theorem passed : ∀ (arguments : List Expr) (parameters : List Ty),
    Expr.listNodes arguments ⊆ nodes → Composed nodes returns (passed arguments parameters)
  | [], parameters, _ => by
      simp only [Check.passed]
      exact .pure ()
  | argument :: arguments, [], _ => by
      simp only [Check.passed]
      exact .pure ()
  | argument :: arguments, parameter :: parameters, h => by
      simp only [Check.passed]
      simp only [Expr.listNodes, List.append_subset] at h
      apply (expression argument h.1).bind
      intro ty
      apply (lift _).bind
      intro _
      exact passed arguments parameters h.2

theorem held (elementType : Option Ty) : ∀ elements : List Expr,
    Expr.listNodes elements ⊆ nodes → Composed nodes returns (held elementType elements)
  | [], _ => by
      simp only [Check.held]
      exact .pure ()
  | element :: elements, h => by
      simp only [Check.held]
      simp only [Expr.listNodes, List.append_subset] at h
      apply (expression element h.1).bind
      intro ty
      apply (fits elementType ty).bind
      intro _
      exact held elementType elements h.2

end

/-! ## Statements -/

theorem condition (e : Expr) (h : e.nodes ⊆ nodes) : Composed nodes returns (condition e) :=
  (expression e h).bind fun _ => lift _

theorem givenType (initial : Option Expr) (h : Expr.optionNodes initial ⊆ nodes) :
    Composed nodes returns (givenType initial) := by
  cases initial with
  | some e => exact (expression e h).bind fun _ => .pure _
  | none => exact .pure none

theorem declaredType (typeName : Option String) :
    Composed nodes returns (declaredType typeName) := by
  cases typeName with
  | some name => exact (resolve name).bind fun _ => .pure _
  | none => exact .pure none

theorem declaration (id : NodeId) (name : String) (typeName : Option String)
    (initial : Option Expr) (h : Stmt.nodes (.declaration id name typeName initial) ⊆ nodes) :
    Composed nodes returns (declaration id name typeName initial) := by
  rw [Stmt.nodes, List.append_subset] at h
  apply (declaredType typeName).bind
  intro declared
  apply (givenType initial h.1).bind
  intro given
  apply (lift _).bind
  intro ty
  have hnode : Node.declaration id name typeName initial ∈ nodes := h.2 List.mem_cons_self
  exact (recordDeclaration hnode rfl ty).bind fun _ => .declareVariable _ _

theorem assignment (receiver value : Expr) (h : receiver.nodes ++ value.nodes ⊆ nodes) :
    Composed nodes returns (assignment receiver value) := by
  rw [List.append_subset] at h
  have hplace : Composed nodes returns (do
      let target ← Check.expression receiver
      let ty ← Check.expression value
      Check.lift (Ty.requireAssignable target ty)) := by
    apply (expression receiver h.1).bind
    intro target
    exact (expression value h.2).bind fun _ => lift _
  cases receiver with
  | access id name => exact hplace
  | element id name index => exact hplace
  | _ => exact .throw _

theorem armValue (subject : Ty) (value : Option Expr) (h : Expr.optionNodes value ⊆ nodes) :
    Composed nodes returns (armValue subject value) := by
  cases value with
  | some e => exact (expression e h).bind fun _ => lift _
  | none => exact .pure ()

mutual

theorem statement : ∀ s : Stmt, s.nodes ⊆ nodes → Composed nodes true (statement s)
  | .expression value, h => by
      simp only [Check.statement]
      exact (expression value h).bind fun _ => .pure _
  | .declaration id name typeName initial, h => by
      simp only [Check.statement]
      exact declaration id name typeName initial h
  | .assignment receiver value, h => by
      simp only [Check.statement]
      exact assignment receiver value h
  | .branch test thenBlock elseBlock, h => by
      simp only [Check.statement]
      simp only [Stmt.nodes, List.append_subset] at h
      apply (condition test h.1.1).bind
      intro _
      split
      · exact .throw _
      · exact (block thenBlock h.1.2).inBlock.bind fun _ => (block elseBlock h.2).inBlock
  | .switch subject arms, h => by
      simp only [Check.statement]
      simp only [Stmt.nodes, List.append_subset] at h
      apply (expression subject h.1).bind
      intro ty
      split
      · exact cases ty arms h.2
      · exact .throw _
  | .loop test body, h => by
      simp only [Check.statement]
      simp only [Stmt.nodes, List.append_subset] at h
      exact (condition test h.1).bind fun _ => (block body h.2).inBlock
  | .ret value, h => by
      simp only [Check.statement]
      exact (expression value h).bind fun ty => .returning rfl

theorem block : ∀ statements : List Stmt, Stmt.blockNodes statements ⊆ nodes →
    Composed nodes true (block statements)
  | [], _ => by
      simp only [Check.block]
      exact .pure ()
  | first :: rest, h => by
      simp only [Check.block]
      simp only [Stmt.blockNodes, List.append_subset] at h
      exact (statement first h.1).bind fun _ => block rest h.2

theorem cases (subject : Ty) : ∀ arms : List Case, Stmt.caseNodes arms ⊆ nodes →
    Composed nodes true (cases subject arms)
  | [], _ => by
      simp only [Check.cases]
      exact .pure ()
  | .mk value body :: rest, h => by
      simp only [Check.cases]
      simp only [Stmt.caseNodes, List.append_subset] at h
      apply (armValue subject value h.1.1).bind
      intro _
      exact (block body h.1.2).inBlock.bind fun _ => cases subject rest h.2

end

/-! ## Parts of programs -/

theorem initialValue (g : Global) (ty : Ty) (h : Expr.optionNodes g.initial ⊆ nodes) :
    Composed nodes returns (initialValue g ty) := by
  unfold Check.initialValue
  split
  next id elements hinitial =>
    rw [hinitial, Expr.optionNodes, Expr.nodes, List.append_subset] at h
    have hnode : Node.expression (.list id elements) ∈ nodes := h.2 List.mem_cons_self
    exact (held (some ty) elements h.1).bind fun _ => .record (.ofType hnode .any)
  next initial _ hinitial =>
    rw [hinitial] at h
    exact (expression initial h).bind fun _ => lift _
  next =>
    split
    · exact .pure ()
    · exact .throw _

theorem global (g : Global) (h : g.nodes ⊆ nodes) : Composed nodes returns (global g) := by
  rw [Global.nodes, List.append_subset] at h
  apply (resolve g.typeName).bind
  intro ty
  apply (initialValue g ty h.1).bind
  intro _
  have hnode : Node.global g ∈ nodes := h.2 List.mem_cons_self
  exact (recordDeclaration hnode rfl ty).bind fun _ => .declareVariable _ _

theorem globals : ∀ globals : List Global, (∀ g ∈ globals, g.nodes ⊆ nodes) →
    Composed nodes returns (each Check.global globals)
  | [], _ => .pure ()
  | g :: rest, h => by
      obtain ⟨hfirst, hrest⟩ := List.forall_mem_cons.mp h
      exact (global g hfirst).bind fun _ => globals rest hrest

theorem parameters (function index : Nat) (names typeNames : List String) :
    Composed nodes returns (parameters function index names typeNames) := by
  induction names generalizing index typeNames with
  | nil => exact .pure ()
  | cons name names ih =>
      cases typeNames with
      | nil => exact .pure ()
      | cons typeName typeNames =>
          apply (resolve typeName).bind
          intro ty
          exact (Composed.declareVariable _ _).bind fun _ => ih _ _

theorem resolveReturn (returnType : Option String) :
    Composed nodes returns (resolveReturn returnType) := by
  cases returnType with
  | some name => exact resolve name
  | none => exact .pure Ty.nil

end Composed

end Check

end Scriptlet
