import Scriptlet.Syntax.Tree

/-! # Trees up to their numbering

The identifiers of nodes are given by whoever makes a tree. Two trees that differ in nothing else
are equal once all identifiers are left out.
-/

namespace Scriptlet

mutual

/-- The expression with zero for every identifier. -/
def Expr.unnumbered : Expr → Expr
  | .literal _ value => .literal 0 value
  | .group _ inner => .group 0 inner.unnumbered
  | .binary _ operator left right => .binary 0 operator left.unnumbered right.unnumbered
  | .access _ name => .access 0 name
  | .element _ name index => .element 0 name index.unnumbered
  | .call _ name arguments => .call 0 name (Expr.unnumberedList arguments)
  | .list _ elements => .list 0 (Expr.unnumberedList elements)

def Expr.unnumberedList : List Expr → List Expr
  | [] => []
  | first :: rest => first.unnumbered :: Expr.unnumberedList rest

end

mutual

/-- The statement with zero for every identifier. -/
def Stmt.unnumbered : Stmt → Stmt
  | .expression value => .expression value.unnumbered
  | .declaration _ name typeName initial =>
      .declaration 0 name typeName (initial.map Expr.unnumbered)
  | .assignment receiver value => .assignment receiver.unnumbered value.unnumbered
  | .branch condition thenBlock elseBlock =>
      .branch condition.unnumbered (Stmt.unnumberedBlock thenBlock)
        (Stmt.unnumberedBlock elseBlock)
  | .switch condition cases => .switch condition.unnumbered (Stmt.unnumberedCases cases)
  | .loop condition body => .loop condition.unnumbered (Stmt.unnumberedBlock body)
  | .ret value => .ret value.unnumbered

def Stmt.unnumberedBlock : List Stmt → List Stmt
  | [] => []
  | first :: rest => first.unnumbered :: Stmt.unnumberedBlock rest

def Stmt.unnumberedCases : List Case → List Case
  | [] => []
  | .mk value body :: rest =>
      .mk (value.map Expr.unnumbered) (Stmt.unnumberedBlock body) :: Stmt.unnumberedCases rest

end

def Global.unnumbered (g : Global) : Global :=
  { g with id := 0, initial := g.initial.map Expr.unnumbered }

def Function.unnumbered (f : Function) : Function :=
  { f with id := 0, body := Stmt.unnumberedBlock f.body }

/-- The program with zero for every identifier. -/
def Program.unnumbered (p : Program) : Program where
  globals := p.globals.map Global.unnumbered
  functions := p.functions.map Function.unnumbered

theorem Expr.unnumberedList_eq_map (es : List Expr) :
    Expr.unnumberedList es = es.map Expr.unnumbered := by
  induction es with
  | nil => simp [Expr.unnumberedList]
  | cons first rest ih => simp [Expr.unnumberedList, ih]

theorem Stmt.unnumberedCases_append (first second : List Case) :
    Stmt.unnumberedCases (first ++ second) =
      Stmt.unnumberedCases first ++ Stmt.unnumberedCases second := by
  induction first with
  | nil => simp [Stmt.unnumberedCases]
  | cons arm rest ih =>
      cases arm
      simp [Stmt.unnumberedCases, ih]

end Scriptlet
