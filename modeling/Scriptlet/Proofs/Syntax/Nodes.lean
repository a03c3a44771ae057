import Scriptlet.Syntax.Tree

/-! # Nodes of a program

The nodes that carry an identifier, in the order in which they end: children stand before their
parents, in the order of the text.
-/

namespace Scriptlet

/-- A part of a program that carries an identifier. -/
inductive Node where
  | expression (e : Expr)
  | declaration (id : NodeId) (name : String) (typeName : Option String) (initial : Option Expr)
  | global (g : Global)
  | function (f : Function)

def Node.id : Node → NodeId
  | expression e => e.id
  | declaration id _ _ _ => id
  | global g => g.id
  | function f => f.id

mutual

/-- The nodes of an expression, itself the last of them. -/
def Expr.nodes : Expr → List Node
  | e@(.literal _ _) => [.expression e]
  | e@(.group _ inner) => inner.nodes ++ [.expression e]
  | e@(.binary _ _ left right) => left.nodes ++ right.nodes ++ [.expression e]
  | e@(.access _ _) => [.expression e]
  | e@(.element _ _ index) => index.nodes ++ [.expression e]
  | e@(.call _ _ arguments) => Expr.listNodes arguments ++ [.expression e]
  | e@(.list _ elements) => Expr.listNodes elements ++ [.expression e]

def Expr.listNodes : List Expr → List Node
  | [] => []
  | first :: rest => first.nodes ++ Expr.listNodes rest

end

def Expr.optionNodes : Option Expr → List Node
  | none => []
  | some e => e.nodes

mutual

/-- The nodes of a statement. Only a declaration is a node itself. -/
def Stmt.nodes : Stmt → List Node
  | .expression value => value.nodes
  | .declaration id name typeName initial =>
      Expr.optionNodes initial ++ [.declaration id name typeName initial]
  | .assignment receiver value => receiver.nodes ++ value.nodes
  | .branch condition thenBlock elseBlock =>
      condition.nodes ++ Stmt.blockNodes thenBlock ++ Stmt.blockNodes elseBlock
  | .switch condition cases => condition.nodes ++ Stmt.caseNodes cases
  | .loop condition body => condition.nodes ++ Stmt.blockNodes body
  | .ret value => value.nodes

def Stmt.blockNodes : List Stmt → List Node
  | [] => []
  | first :: rest => first.nodes ++ Stmt.blockNodes rest

def Stmt.caseNodes : List Case → List Node
  | [] => []
  | .mk value body :: rest =>
      Expr.optionNodes value ++ Stmt.blockNodes body ++ Stmt.caseNodes rest

end

def Global.nodes (g : Global) : List Node :=
  Expr.optionNodes g.initial ++ [.global g]

def Function.nodes (f : Function) : List Node :=
  Stmt.blockNodes f.body ++ [.function f]

def Program.nodes (p : Program) : List Node :=
  p.globals.flatMap Global.nodes ++ p.functions.flatMap Function.nodes

theorem Expr.listNodes_eq_flatMap (es : List Expr) :
    Expr.listNodes es = es.flatMap Expr.nodes := by
  induction es with
  | nil => simp [Expr.listNodes]
  | cons first rest ih => simp [Expr.listNodes, ih]

theorem Stmt.caseNodes_append (first second : List Case) :
    Stmt.caseNodes (first ++ second) = Stmt.caseNodes first ++ Stmt.caseNodes second := by
  induction first with
  | nil => simp [Stmt.caseNodes]
  | cons arm rest ih =>
      cases arm
      simp [Stmt.caseNodes, ih]

/-- An expression is among its own nodes. -/
theorem Expr.self_mem_nodes (e : Expr) : .expression e ∈ e.nodes := by
  cases e <;> simp [Expr.nodes]

/-- The nodes inside a function or a first value. -/
def Node.isInner : Node → Bool
  | expression _ | declaration _ _ _ _ => true
  | global _ | function _ => false

mutual

theorem Expr.isInner_of_mem : ∀ (e : Expr), ∀ node ∈ e.nodes, node.isInner = true
  | .literal _ _ | .access _ _ => by simp [Expr.nodes, Node.isInner]
  | .group _ inner => by
      simp only [Expr.nodes, List.forall_mem_append, List.forall_mem_singleton]
      exact ⟨Expr.isInner_of_mem inner, rfl⟩
  | .binary _ _ left right => by
      simp only [Expr.nodes, List.forall_mem_append, List.forall_mem_singleton]
      exact ⟨⟨Expr.isInner_of_mem left, Expr.isInner_of_mem right⟩, rfl⟩
  | .element _ _ index => by
      simp only [Expr.nodes, List.forall_mem_append, List.forall_mem_singleton]
      exact ⟨Expr.isInner_of_mem index, rfl⟩
  | .call _ _ arguments => by
      simp only [Expr.nodes, List.forall_mem_append, List.forall_mem_singleton]
      exact ⟨Expr.isInner_of_mem_list arguments, rfl⟩
  | .list _ elements => by
      simp only [Expr.nodes, List.forall_mem_append, List.forall_mem_singleton]
      exact ⟨Expr.isInner_of_mem_list elements, rfl⟩

theorem Expr.isInner_of_mem_list :
    ∀ (es : List Expr), ∀ node ∈ Expr.listNodes es, node.isInner = true
  | [] => by simp [Expr.listNodes]
  | first :: rest => by
      simp only [Expr.listNodes, List.forall_mem_append]
      exact ⟨Expr.isInner_of_mem first, Expr.isInner_of_mem_list rest⟩

end

theorem Expr.isInner_of_mem_option (initial : Option Expr) :
    ∀ node ∈ Expr.optionNodes initial, node.isInner = true := by
  cases initial with
  | none => simp [Expr.optionNodes]
  | some e => exact Expr.isInner_of_mem e

mutual

theorem Stmt.isInner_of_mem : ∀ (s : Stmt), ∀ node ∈ s.nodes, node.isInner = true
  | .expression value | .ret value => by
      simp only [Stmt.nodes]
      exact Expr.isInner_of_mem value
  | .declaration _ _ _ initial => by
      simp only [Stmt.nodes, List.forall_mem_append, List.forall_mem_singleton]
      exact ⟨Expr.isInner_of_mem_option initial, rfl⟩
  | .assignment receiver value => by
      simp only [Stmt.nodes, List.forall_mem_append]
      exact ⟨Expr.isInner_of_mem receiver, Expr.isInner_of_mem value⟩
  | .branch test thenBlock elseBlock => by
      simp only [Stmt.nodes, List.forall_mem_append]
      exact ⟨⟨Expr.isInner_of_mem test, Stmt.isInner_of_mem_block thenBlock⟩,
        Stmt.isInner_of_mem_block elseBlock⟩
  | .switch subject arms => by
      simp only [Stmt.nodes, List.forall_mem_append]
      exact ⟨Expr.isInner_of_mem subject, Stmt.isInner_of_mem_cases arms⟩
  | .loop test body => by
      simp only [Stmt.nodes, List.forall_mem_append]
      exact ⟨Expr.isInner_of_mem test, Stmt.isInner_of_mem_block body⟩

theorem Stmt.isInner_of_mem_block :
    ∀ (statements : List Stmt), ∀ node ∈ Stmt.blockNodes statements, node.isInner = true
  | [] => by simp [Stmt.blockNodes]
  | first :: rest => by
      simp only [Stmt.blockNodes, List.forall_mem_append]
      exact ⟨Stmt.isInner_of_mem first, Stmt.isInner_of_mem_block rest⟩

theorem Stmt.isInner_of_mem_cases :
    ∀ (arms : List Case), ∀ node ∈ Stmt.caseNodes arms, node.isInner = true
  | [] => by simp [Stmt.caseNodes]
  | .mk value body :: rest => by
      simp only [Stmt.caseNodes, List.forall_mem_append]
      exact ⟨⟨Expr.isInner_of_mem_option value, Stmt.isInner_of_mem_block body⟩,
        Stmt.isInner_of_mem_cases rest⟩

end

theorem Program.mem_nodes_of_global {p : Program} {g : Global} {node : Node} (hg : g ∈ p.globals)
    (h : node ∈ g.nodes) : node ∈ p.nodes :=
  List.mem_append_left _ (List.mem_flatMap_of_mem hg h)

theorem Program.mem_nodes_of_function {p : Program} {f : Function} {node : Node}
    (hf : f ∈ p.functions) (h : node ∈ f.nodes) : node ∈ p.nodes :=
  List.mem_append_right _ (List.mem_flatMap_of_mem hf h)

theorem Program.mem_globals_of_mem_nodes {p : Program} {g : Global} (h : .global g ∈ p.nodes) :
    g ∈ p.globals := by
  simp only [Program.nodes, List.mem_append, List.mem_flatMap, Global.nodes, Function.nodes,
    List.mem_singleton] at h
  obtain ⟨other, hother, hnode | hnode⟩ | ⟨f, _, hnode | hnode⟩ := h
  · exact nomatch Expr.isInner_of_mem_option _ _ hnode
  · cases hnode
    exact hother
  · exact nomatch Stmt.isInner_of_mem_block _ _ hnode
  · cases hnode

theorem Program.mem_functions_of_mem_nodes {p : Program} {f : Function}
    (h : .function f ∈ p.nodes) : f ∈ p.functions := by
  simp only [Program.nodes, List.mem_append, List.mem_flatMap, Global.nodes, Function.nodes,
    List.mem_singleton] at h
  obtain ⟨g, _, hnode | hnode⟩ | ⟨other, hother, hnode | hnode⟩ := h
  · exact nomatch Expr.isInner_of_mem_option _ _ hnode
  · cases hnode
  · exact nomatch Stmt.isInner_of_mem_block _ _ hnode
  · cases hnode
    exact hother

end Scriptlet
