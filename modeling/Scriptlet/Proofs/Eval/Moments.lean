import Scriptlet.Proofs.Eval.Checked

/-! # Moments of a run

Evaluation works on parts of a program, and on parts of those, each from the machine that the parts
before it left. A moment is the start of such a part. What a discipline says of a machine holds at
every moment of every run of a checked program.
-/

namespace Scriptlet

variable {σ : Type}

/-- What a machine can be at work on. -/
inductive Task where
  | expression (e : Expr)
  | expressions (es : List Expr)
  | call (name : String) (arguments : List Value)
  | statement (s : Stmt)
  | block (statements : List Stmt)
  /-- A loop that may make so many more rounds. -/
  | rounds (count : Nat) (test : Expr) (body : List Stmt)
  /-- The arms of a switch that are still to be tried. -/
  | cases (subject : Value) (arms : List Case)

/-- A machine that begins a task, within a limit on nested calls. -/
structure Moment (σ : Type) where
  limit : Nat
  task : Task
  machine : Machine σ

section

variable (policy : Division)

/-- The value of an expression, within a limit on nested calls. -/
def Eval.value (limit : Nat) (e : Expr) : Eval σ Value :=
  expression policy (call policy limit) e

/-- The values of expressions, within a limit on nested calls. -/
def Eval.values (limit : Nat) (es : List Expr) : Eval σ (List Value) :=
  expressions policy (call policy limit) es

/-- The second moment begins a part of the task that the first begins. There is one rule for each
place at which evaluation of one thing calls for the evaluation of another. That the rules are those
of evaluation shows in where runs halt, see `Program.run_outOfFuel_iff`. -/
inductive Moment.Starts : Moment σ → Moment σ → Prop
  -- Expressions.
  | group {limit : Nat} {machine : Machine σ} {id : NodeId} {inner : Expr} :
      Starts ⟨limit, .expression (.group id inner), machine⟩ ⟨limit, .expression inner, machine⟩
  | left {limit : Nat} {machine : Machine σ} {id : NodeId} {operator : Operator}
      {left right : Expr} :
      Starts ⟨limit, .expression (.binary id operator left right), machine⟩
        ⟨limit, .expression left, machine⟩
  | right {limit : Nat} {machine middle : Machine σ} {id : NodeId} {operator : Operator}
      {left right : Expr} {first : Value} :
      Eval.value policy limit left machine = .ok first middle →
        (∀ verdict, operator.deciding? = some verdict → first.truth = .ok (!verdict)) →
        Starts ⟨limit, .expression (.binary id operator left right), machine⟩
          ⟨limit, .expression right, middle⟩
  | index {limit : Nat} {machine : Machine σ} {id : NodeId} {name : String} {index : Expr} :
      Starts ⟨limit, .expression (.element id name index), machine⟩
        ⟨limit, .expression index, machine⟩
  | arguments {limit : Nat} {machine : Machine σ} {id : NodeId} {name : String}
      {arguments : List Expr} :
      Starts ⟨limit, .expression (.call id name arguments), machine⟩
        ⟨limit, .expressions arguments, machine⟩
  | call {limit : Nat} {machine middle : Machine σ} {id : NodeId} {name : String}
      {arguments : List Expr} {values : List Value} :
      Eval.values policy limit arguments machine = .ok values middle →
        Starts ⟨limit, .expression (.call id name arguments), machine⟩
          ⟨limit, .call name values, middle⟩
  | elements {limit : Nat} {machine : Machine σ} {id : NodeId} {elements : List Expr} :
      Starts ⟨limit, .expression (.list id elements), machine⟩
        ⟨limit, .expressions elements, machine⟩
  | head {limit : Nat} {machine : Machine σ} {first : Expr} {rest : List Expr} :
      Starts ⟨limit, .expressions (first :: rest), machine⟩ ⟨limit, .expression first, machine⟩
  | tail {limit : Nat} {machine middle : Machine σ} {first : Expr} {rest : List Expr}
      {value : Value} :
      Eval.value policy limit first machine = .ok value middle →
        Starts ⟨limit, .expressions (first :: rest), machine⟩ ⟨limit, .expressions rest, middle⟩
  | body {limit : Nat} {machine middle : Machine σ} {name : String} {arguments : List Value}
      {f : Function} :
      machine.scopes.findFunction? ⟨name, arguments.length⟩ = some (.user f) →
        Eval.parameters f.id 0 f.parameterNames f.parameterTypes arguments machine.enterFunction =
          .ok () middle →
        Starts ⟨limit + 1, .call name arguments, machine⟩ ⟨limit, .block f.body, middle⟩
  -- Statements.
  | alone {limit : Nat} {machine : Machine σ} {value : Expr} :
      Starts ⟨limit, .statement (.expression value), machine⟩ ⟨limit, .expression value, machine⟩
  | initial {limit : Nat} {machine : Machine σ} {id : NodeId} {name : String}
      {typeName : Option String} {initial : Expr} :
      Starts ⟨limit, .statement (.declaration id name typeName (some initial)), machine⟩
        ⟨limit, .expression initial, machine⟩
  | assigned {limit : Nat} {machine : Machine σ} {id : NodeId} {name : String} {value : Expr} :
      Starts ⟨limit, .statement (.assignment (.access id name) value), machine⟩
        ⟨limit, .expression value, machine⟩
  | assignedIndex {limit : Nat} {machine : Machine σ} {id : NodeId} {name : String}
      {index value : Expr} :
      Starts ⟨limit, .statement (.assignment (.element id name index) value), machine⟩
        ⟨limit, .expression index, machine⟩
  | assignedElement {limit : Nat} {machine middle : Machine σ} {id : NodeId} {name : String}
      {index value : Expr} {i : Value} :
      Eval.value policy limit index machine = .ok i middle →
        Starts ⟨limit, .statement (.assignment (.element id name index) value), machine⟩
          ⟨limit, .expression value, middle⟩
  | test {limit : Nat} {machine : Machine σ} {test : Expr} {thenBlock elseBlock : List Stmt} :
      Starts ⟨limit, .statement (.branch test thenBlock elseBlock), machine⟩
        ⟨limit, .expression test, machine⟩
  | branch {limit : Nat} {machine middle : Machine σ} {test : Expr}
      {thenBlock elseBlock : List Stmt} {holds : Bool} :
      Eval.value policy limit test machine = .ok (.boolean holds) middle →
        Starts ⟨limit, .statement (.branch test thenBlock elseBlock), machine⟩
          ⟨limit, .block (if holds then thenBlock else elseBlock), middle.enter⟩
  | subject {limit : Nat} {machine : Machine σ} {subject : Expr} {arms : List Case} :
      Starts ⟨limit, .statement (.switch subject arms), machine⟩
        ⟨limit, .expression subject, machine.enter⟩
  | cases {limit : Nat} {machine middle : Machine σ} {subject : Expr} {arms : List Case}
      {value : Value} :
      Eval.value policy limit subject machine.enter = .ok value middle →
        Starts ⟨limit, .statement (.switch subject arms), machine⟩
          ⟨limit, .cases value arms, middle⟩
  | loop {limit : Nat} {machine : Machine σ} {test : Expr} {body : List Stmt} :
      Starts ⟨limit, .statement (.loop test body), machine⟩
        ⟨limit, .rounds limit test body, machine⟩
  | returned {limit : Nat} {machine : Machine σ} {value : Expr} :
      Starts ⟨limit, .statement (.ret value), machine⟩ ⟨limit, .expression value, machine⟩
  | first {limit : Nat} {machine : Machine σ} {first : Stmt} {rest : List Stmt} :
      Starts ⟨limit, .block (first :: rest), machine⟩ ⟨limit, .statement first, machine⟩
  | next {limit : Nat} {machine middle : Machine σ} {first : Stmt} {rest : List Stmt} :
      Eval.statement policy (Eval.call policy limit) limit first machine = .ok .next middle →
        Starts ⟨limit, .block (first :: rest), machine⟩ ⟨limit, .block rest, middle⟩
  | roundTest {limit count : Nat} {machine : Machine σ} {test : Expr} {body : List Stmt} :
      Starts ⟨limit, .rounds (count + 1) test body, machine⟩ ⟨limit, .expression test, machine⟩
  | round {limit count : Nat} {machine middle : Machine σ} {test : Expr} {body : List Stmt} :
      Eval.value policy limit test machine = .ok (.boolean true) middle →
        Starts ⟨limit, .rounds (count + 1) test body, machine⟩ ⟨limit, .block body, middle.enter⟩
  | nextRound {limit count : Nat} {machine middle finish : Machine σ} {test : Expr}
      {body : List Stmt} :
      Eval.value policy limit test machine = .ok (.boolean true) middle →
        Eval.inBlock (Eval.block policy (Eval.call policy limit) limit body) middle =
          .ok .next finish →
        Starts ⟨limit, .rounds (count + 1) test body, machine⟩
          ⟨limit, .rounds count test body, finish⟩
  | armValue {limit : Nat} {machine : Machine σ} {subject : Value} {value : Expr}
      {body : List Stmt} {rest : List Case} :
      Starts ⟨limit, .cases subject (.mk (some value) body :: rest), machine⟩
        ⟨limit, .expression value, machine⟩
  | arm {limit : Nat} {machine middle : Machine σ} {subject : Value} {value : Expr}
      {body : List Stmt} {rest : List Case} {v : Value} :
      Eval.value policy limit value machine = .ok v middle →
        middle.heap.equal v subject = true →
        Starts ⟨limit, .cases subject (.mk (some value) body :: rest), machine⟩
          ⟨limit, .block body, middle.enter⟩
  | nextArm {limit : Nat} {machine middle : Machine σ} {subject : Value} {value : Expr}
      {body : List Stmt} {rest : List Case} {v : Value} :
      Eval.value policy limit value machine = .ok v middle →
        middle.heap.equal v subject = false →
        Starts ⟨limit, .cases subject (.mk (some value) body :: rest), machine⟩
          ⟨limit, .cases subject rest, middle⟩
  | default {limit : Nat} {machine : Machine σ} {subject : Value} {body : List Stmt}
      {rest : List Case} :
      Starts ⟨limit, .cases subject (.mk none body :: rest), machine⟩
        ⟨limit, .block body, machine.enter⟩

/-- The moments of a run of a program: the first values of globals, the call of `main`, and all
that these start. -/
inductive Program.Reaches (p : Program) (builtins : List (Builtin σ)) (limit : Nat) (host : σ) :
    Moment σ → Prop
  | global {before after : List Global} {g : Global} {initial : Expr} {scopes : RunScopes σ}
      {machine : Machine σ} :
      p.globals = before ++ g :: after → g.initial = some initial →
        Builtin.runScopes builtins = .ok scopes →
        Eval.each (Eval.global policy limit) before ⟨scopes, .empty, host⟩ = .ok () machine →
        Reaches p builtins limit host ⟨limit, .expression initial, machine⟩
  | main {scopes : RunScopes σ} {middle machine : Machine σ} :
      Builtin.runScopes builtins = .ok scopes →
        Eval.each (Eval.global policy limit) p.globals ⟨scopes, .empty, host⟩ = .ok () middle →
        Eval.each Eval.declareFunction p.functions middle = .ok () machine →
        Reaches p builtins limit host ⟨limit, .call "main" [], machine⟩
  | step {moment next : Moment σ} :
      Reaches p builtins limit host moment → Moment.Starts policy moment next →
        Reaches p builtins limit host next

end

namespace Discipline

variable {notes : Annotations} {policy : Division} {builtins : List (Builtin σ)}
variable (D : Discipline σ notes policy builtins)

/-- The task is typed by what the typing sees at the moment, and the machine is in order. -/
inductive InOrder : Moment σ → Prop
  | expression {limit : Nat} {e : Expr} {machine : Machine σ} {w : D.World}
      {scopes : StaticScopes} {ty : Ty} :
      e.Typed notes scopes ty → (∀ node ∈ e.nodes, D.admits node) →
        D.Ready scopes machine.outline → D.Holds w machine →
        InOrder ⟨limit, .expression e, machine⟩
  | expressions {limit : Nat} {es : List Expr} {machine : Machine σ} {w : D.World}
      {scopes : StaticScopes} {types : List Ty} :
      Expr.Passed notes scopes es types → (∀ node ∈ Expr.listNodes es, D.admits node) →
        D.Ready scopes machine.outline → D.Holds w machine →
        InOrder ⟨limit, .expressions es, machine⟩
  | call {limit : Nat} {name : String} {arguments : List Value} {machine : Machine σ}
      {w : D.World} {scopes : StaticScopes} {info : FunctionInfo} :
      scopes.findFunction? ⟨name, arguments.length⟩ = some info →
        List.Forall₂ (D.fits w) info.parameterTypes arguments →
        D.Ready scopes machine.outline → D.Holds w machine →
        InOrder ⟨limit, .call name arguments, machine⟩
  | statement {limit : Nat} {s : Stmt} {machine : Machine σ} {w : D.World}
      {scopes scopes' : StaticScopes} {result : Ty} :
      Stmt.Typed notes result scopes s scopes' → (∀ node ∈ s.nodes, D.admits node) →
        D.Inside scopes machine.outline → D.Holds w machine →
        InOrder ⟨limit, .statement s, machine⟩
  | block {limit : Nat} {statements : List Stmt} {machine : Machine σ} {w : D.World}
      {scopes scopes' : StaticScopes} {result : Ty} :
      Stmt.BlockTyped notes result scopes statements scopes' →
        (∀ node ∈ Stmt.blockNodes statements, D.admits node) →
        D.Inside scopes machine.outline → D.Holds w machine →
        InOrder ⟨limit, .block statements, machine⟩
  | rounds {limit count : Nat} {test : Expr} {body : List Stmt} {machine : Machine σ}
      {w : D.World} {scopes scopes' : StaticScopes} {result : Ty} :
      test.Typed notes scopes .boolean →
        Stmt.BlockTyped notes result scopes.enter body scopes' →
        (∀ node ∈ test.nodes, D.admits node) → (∀ node ∈ Stmt.blockNodes body, D.admits node) →
        D.Ready scopes machine.outline → D.Holds w machine →
        InOrder ⟨limit, .rounds count test body, machine⟩
  | cases {limit : Nat} {subject : Value} {arms : List Case} {machine : Machine σ} {w : D.World}
      {scopes : StaticScopes} {ty result : Ty} :
      (∀ arm ∈ arms, Case.Typed notes result scopes ty arm) →
        (∀ node ∈ Stmt.caseNodes arms, D.admits node) →
        D.Ready scopes machine.outline → D.Holds w machine →
        InOrder ⟨limit, .cases subject arms, machine⟩

variable {D}
variable {limit : Nat} {scopes : StaticScopes} {w : D.World} {machine middle : Machine σ}

/-- The machine stays in order while the value of an expression is computed. -/
theorem Ready.after_value {e : Expr} {ty : Ty} {value : Value} (htyped : e.Typed notes scopes ty)
    (hadmits : ∀ node ∈ e.nodes, D.admits node) (hready : D.Ready scopes machine.outline)
    (hholds : D.Holds w machine) (h : Eval.value policy limit e machine = .ok value middle) :
    ∃ w', D.later w w' ∧ D.Ready scopes middle.outline ∧ D.Holds w' middle ∧
      D.fits w' ty value := by
  obtain ⟨w', hlater, houtline, hholds, hfits⟩ :=
    Ensures.of_ok (expression_kept (call_kept limit) e htyped hadmits hready hholds) h
  exact ⟨w', hlater, houtline ▸ hready, hholds, hfits⟩

/-- The machine stays in order while the values of expressions are computed. -/
theorem Ready.after_values {es : List Expr} {types : List Ty} {values : List Value}
    (hpassed : Expr.Passed notes scopes es types)
    (hadmits : ∀ node ∈ Expr.listNodes es, D.admits node)
    (hready : D.Ready scopes machine.outline) (hholds : D.Holds w machine)
    (h : Eval.values policy limit es machine = .ok values middle) :
    ∃ w', D.later w w' ∧ D.Ready scopes middle.outline ∧ D.Holds w' middle ∧
      List.Forall₂ (D.fits w') types values := by
  obtain ⟨w', hlater, houtline, hholds, hfits⟩ :=
    Ensures.of_ok (expressions_kept (call_kept limit) es hpassed hadmits hready hholds) h
  exact ⟨w', hlater, houtline ▸ hready, hholds, hfits⟩

/-! ## One step -/

namespace InOrder

variable {next : Moment σ}

theorem of_expression {e : Expr} (h : D.InOrder ⟨limit, .expression e, machine⟩)
    (hstarts : Moment.Starts policy ⟨limit, .expression e, machine⟩ next) : D.InOrder next := by
  cases h with
  | expression htyped hadmits hready hholds =>
      cases hstarts with
      | group =>
          simp only [Expr.nodes, List.forall_mem_append] at hadmits
          cases htyped with
          | group hinner _ => exact .expression hinner hadmits.1 hready hholds
      | left =>
          simp only [Expr.nodes, List.forall_mem_append] at hadmits
          cases htyped with
          | binary hleft _ _ _ => exact .expression hleft hadmits.1.1 hready hholds
      | right hvalue _ =>
          simp only [Expr.nodes, List.forall_mem_append] at hadmits
          cases htyped with
          | binary hleft hright _ _ =>
              obtain ⟨w', _, hready, hholds, _⟩ :=
                hready.after_value hleft hadmits.1.1 hholds hvalue
              exact .expression hright hadmits.1.2 hready hholds
      | index =>
          simp only [Expr.nodes, List.forall_mem_append] at hadmits
          cases htyped with
          | element _ hindex _ _ _ => exact .expression hindex hadmits.1 hready hholds
      | arguments =>
          simp only [Expr.nodes, List.forall_mem_append] at hadmits
          cases htyped with
          | call _ hpassed _ _ => exact .expressions hpassed hadmits.1 hready hholds
      | call hvalues =>
          simp only [Expr.nodes, List.forall_mem_append] at hadmits
          cases htyped with
          | call hfind hpassed _ _ =>
              obtain ⟨w', _, hready, hholds, hfits⟩ :=
                hready.after_values hpassed hadmits.1 hholds hvalues
              have hlength := hfits.length_eq.symm.trans hpassed.length_eq.symm
              exact .call (hlength ▸ hfind) hfits hready hholds
      | elements =>
          simp only [Expr.nodes, List.forall_mem_append] at hadmits
          cases htyped with
          | list hpassed _ => exact .expressions hpassed hadmits.1 hready hholds

theorem of_expressions {es : List Expr} (h : D.InOrder ⟨limit, .expressions es, machine⟩)
    (hstarts : Moment.Starts policy ⟨limit, .expressions es, machine⟩ next) : D.InOrder next := by
  cases h with
  | expressions hpassed hadmits hready hholds =>
      cases hstarts with
      | head =>
          simp only [Expr.listNodes, List.forall_mem_append] at hadmits
          cases hpassed with
          | cons hfirst _ _ => exact .expression hfirst hadmits.1 hready hholds
      | tail hvalue =>
          simp only [Expr.listNodes, List.forall_mem_append] at hadmits
          cases hpassed with
          | cons hfirst _ hrest =>
              obtain ⟨w', _, hready, hholds, _⟩ :=
                hready.after_value hfirst hadmits.1 hholds hvalue
              exact .expressions hrest hadmits.2 hready hholds

/-- The body of a function starts with its parameters declared. -/
theorem of_call {name : String} {arguments : List Value}
    (h : D.InOrder ⟨limit, .call name arguments, machine⟩)
    (hstarts : Moment.Starts policy ⟨limit, .call name arguments, machine⟩ next) :
    D.InOrder next := by
  cases h with
  | call hfind hfits hready hholds =>
      cases hstarts with
      | body huser hparameters =>
          obtain ⟨htyped, hadmits⟩ := hready.body huser
          -- The body was typed once and for all, the arguments fit what is known of the function.
          obtain ⟨callable, hcallable, hdescribed⟩ := hready.exists_callable hfind
          obtain rfl := Option.some.inj (hcallable.symm.trans huser)
          simp only [Function.nodes, List.forall_mem_append] at hadmits
          generalize (⟨name, arguments.length⟩ : Signature) = signature at hdescribed
          cases hdescribed with
          | user hinfo _ =>
              cases htyped with
              | mk _ hdeclared hbody =>
                  obtain ⟨hholds, hinside⟩ := (parameters_runs hdeclared hinfo.parameters hfits
                    hready.enterFunction hholds.enterFunction).of_ok hparameters
                  exact .block hbody hadmits.1 hinside hholds

theorem of_statement {s : Stmt} (h : D.InOrder ⟨limit, .statement s, machine⟩)
    (hstarts : Moment.Starts policy ⟨limit, .statement s, machine⟩ next) : D.InOrder next := by
  cases h with
  | statement htyped hadmits hinside hholds =>
      have hready := hinside.ready
      cases hstarts with
      | alone =>
          cases htyped with
          | expression hvalue => exact .expression hvalue hadmits hready hholds
      | initial =>
          simp only [Stmt.nodes, List.forall_mem_append] at hadmits
          cases htyped with
          | typed _ hinitial _ _ _ => exact .expression hinitial hadmits.1 hready hholds
          | inferred hinitial _ _ => exact .expression hinitial hadmits.1 hready hholds
      | assigned =>
          simp only [Stmt.nodes, List.forall_mem_append] at hadmits
          cases htyped with
          | assignment _ _ hvalue _ => exact .expression hvalue hadmits.2 hready hholds
      | assignedIndex =>
          simp only [Stmt.nodes, Expr.nodes, List.forall_mem_append] at hadmits
          cases htyped with
          | assignment _ hreceiver _ _ =>
              cases hreceiver with
              | element _ hindex _ _ _ => exact .expression hindex hadmits.1.1 hready hholds
      | assignedElement hi =>
          simp only [Stmt.nodes, Expr.nodes, List.forall_mem_append] at hadmits
          cases htyped with
          | assignment _ hreceiver hvalue _ =>
              cases hreceiver with
              | element _ hindex _ _ _ =>
                  obtain ⟨w', _, hready, hholds, _⟩ :=
                    hready.after_value hindex hadmits.1.1 hholds hi
                  exact .expression hvalue hadmits.2 hready hholds
      | test =>
          simp only [Stmt.nodes, List.forall_mem_append] at hadmits
          cases htyped with
          | branch htest _ _ => exact .expression htest hadmits.1.1 hready hholds
      | @branch _ _ _ _ _ _ holds hvalue =>
          simp only [Stmt.nodes, List.forall_mem_append] at hadmits
          cases htyped with
          | branch htest hthen helse =>
              obtain ⟨w', _, hready, hholds, _⟩ :=
                hready.after_value htest hadmits.1.1 hholds hvalue
              cases holds with
              | true => exact .block hthen hadmits.1.2 hready.enter hholds.enter
              | false => exact .block helse hadmits.2 hready.enter hholds.enter
      | subject =>
          simp only [Stmt.nodes, List.forall_mem_append] at hadmits
          cases htyped with
          | switch hsubject _ =>
              exact .expression hsubject hadmits.1 hready.blank hholds.enter
      | cases hvalue =>
          simp only [Stmt.nodes, List.forall_mem_append] at hadmits
          cases htyped with
          | switch hsubject harms =>
              obtain ⟨w', _, hready, hholds, _⟩ :=
                hready.blank.after_value hsubject hadmits.1 hholds.enter hvalue
              exact .cases harms hadmits.2 hready hholds
      | loop =>
          simp only [Stmt.nodes, List.forall_mem_append] at hadmits
          cases htyped with
          | loop htest hbody => exact .rounds htest hbody hadmits.1 hadmits.2 hready hholds
      | returned =>
          cases htyped with
          | ret hvalue _ => exact .expression hvalue hadmits hready hholds

theorem of_block {statements : List Stmt} (h : D.InOrder ⟨limit, .block statements, machine⟩)
    (hstarts : Moment.Starts policy ⟨limit, .block statements, machine⟩ next) :
    D.InOrder next := by
  cases h with
  | block htyped hadmits hinside hholds =>
      cases hstarts with
      | first =>
          simp only [Stmt.blockNodes, List.forall_mem_append] at hadmits
          cases htyped with
          | cons hfirst _ => exact .statement hfirst hadmits.1 hinside hholds
      | @next _ _ _ first _ hnext =>
          simp only [Stmt.blockNodes, List.forall_mem_append] at hadmits
          cases htyped with
          | cons hfirst hrest =>
              obtain ⟨w', _, hholds, _, hinside⟩ := Ensures.of_ok (statement_runs limit
                (Eval.call_steady policy limit) (call_kept limit) first hfirst hadmits.1 hinside
                hholds) hnext
              exact .block hrest hadmits.2 (hinside rfl) hholds

/-- Every round starts from a machine in order, as the first does. -/
theorem of_rounds {count : Nat} {test : Expr} {body : List Stmt}
    (h : D.InOrder ⟨limit, .rounds count test body, machine⟩)
    (hstarts : Moment.Starts policy ⟨limit, .rounds count test body, machine⟩ next) :
    D.InOrder next := by
  cases h with
  | rounds htest hbody hadmitsTest hadmitsBody hready hholds =>
      cases hstarts with
      | roundTest => exact .expression htest hadmitsTest hready hholds
      | round hvalue =>
          obtain ⟨w', _, hready, hholds, _⟩ := hready.after_value htest hadmitsTest hholds hvalue
          exact .block hbody hadmitsBody hready.enter hholds.enter
      | nextRound hvalue hnext =>
          obtain ⟨w1, _, hready, hholds, _⟩ := hready.after_value htest hadmitsTest hholds hvalue
          have hruns := block_runs limit (Eval.call_steady policy limit) (call_kept limit) body
            hbody hadmitsBody hready.enter hholds.enter
          obtain ⟨w2, _, houtline, hholds, _⟩ := Ensures.of_ok (hruns.inBlock
            (Eval.block_growing policy limit (Eval.call_steady policy limit) body)) hnext
          exact .rounds htest hbody hadmitsTest hadmitsBody (houtline ▸ hready) hholds

theorem of_cases {subject : Value} {arms : List Case}
    (h : D.InOrder ⟨limit, .cases subject arms, machine⟩)
    (hstarts : Moment.Starts policy ⟨limit, .cases subject arms, machine⟩ next) :
    D.InOrder next := by
  cases h with
  | cases htyped hadmits hready hholds =>
      cases hstarts with
      | armValue =>
          simp only [Stmt.caseNodes, List.forall_mem_append] at hadmits
          cases htyped _ List.mem_cons_self with
          | value hvalue _ => exact .expression hvalue hadmits.1.1 hready hholds
      | arm hv _ =>
          simp only [Stmt.caseNodes, List.forall_mem_append] at hadmits
          cases htyped _ List.mem_cons_self with
          | value hvalue hbody =>
              obtain ⟨w', _, hready, hholds, _⟩ :=
                hready.after_value hvalue hadmits.1.1 hholds hv
              exact .block hbody hadmits.1.2 hready.enter hholds.enter
      | nextArm hv _ =>
          simp only [Stmt.caseNodes, List.forall_mem_append] at hadmits
          obtain ⟨hfirst, hrest⟩ := List.forall_mem_cons.mp htyped
          cases hfirst with
          | value hvalue _ =>
              obtain ⟨w', _, hready, hholds, _⟩ :=
                hready.after_value hvalue hadmits.1.1 hholds hv
              exact .cases hrest hadmits.2 hready hholds
      | default =>
          simp only [Stmt.caseNodes, List.forall_mem_append] at hadmits
          cases htyped _ List.mem_cons_self with
          | default hbody => exact .block hbody hadmits.1.2 hready.enter hholds.enter

/-- What a moment in order starts is in order. -/
theorem step {moment : Moment σ} (h : D.InOrder moment)
    (hstarts : Moment.Starts policy moment next) : D.InOrder next := by
  obtain ⟨limit, task, machine⟩ := moment
  cases task with
  | expression e => exact h.of_expression hstarts
  | expressions es => exact h.of_expressions hstarts
  | call name arguments => exact h.of_call hstarts
  | statement s => exact h.of_statement hstarts
  | block statements => exact h.of_block hstarts
  | rounds count test body => exact h.of_rounds hstarts
  | cases subject arms => exact h.of_cases hstarts

end InOrder

/-! ## Runs -/

/-- Every moment of a run of a checked program is in order. -/
theorem inOrder_of_reaches {p : Program} (hchecked : Checked builtins p notes)
    (hadmits : ∀ node ∈ p.nodes, D.admits node) {host : σ} (hstore : D.store w .empty host)
    {moment : Moment σ} (h : p.Reaches policy builtins limit host moment) : D.InOrder moment := by
  obtain ⟨start, middle, finish, run, htyped, hrun, htop, hholds⟩ := D.exists_start hchecked hstore
  have hadmitsGlobal (g : Global) (hg : g ∈ p.globals) (node : Node) (hnode : node ∈ g.nodes) :=
    hadmits node (Program.mem_nodes_of_global hg hnode)
  induction h with
  | @global before after g initial scopes machine hglobals hinitial hscopes heach =>
      obtain rfl := Except.ok.inj (hrun.symm.trans hscopes)
      -- The globals before it are made in step with the typing, up to the scopes it is typed in.
      have hchain := htyped.globals
      rw [hglobals] at hchain hadmitsGlobal
      obtain ⟨scopes, scopes', hbefore, hg⟩ := hchain.split
      have hruns := globals_runs limit hbefore
        (fun g hg => hadmitsGlobal g (List.mem_append_left _ hg)) htop hholds
      obtain ⟨w', _, hholds, htop⟩ := hruns.of_ok heach
      have hadmitsInitial := hadmitsGlobal g (List.mem_append_right _ List.mem_cons_self)
      simp only [Global.nodes, List.forall_mem_append, hinitial, Expr.optionNodes] at hadmitsInitial
      cases hg with
      | mk _ hfirst _ _ =>
          rw [hinitial] at hfirst
          obtain ⟨ty, hfirst⟩ := hfirst.typed
          exact .expression hfirst hadmitsInitial.1 htop.ready hholds
  | main hscopes hglobals hfunctions =>
      obtain rfl := Except.ok.inj (hrun.symm.trans hscopes)
      have hruns := globals_runs limit htyped.globals hadmitsGlobal htop hholds
      obtain ⟨w1, _, hholds, htop⟩ := hruns.of_ok hglobals
      have hruns := functions_runs htyped (fun f hf node hnode =>
        hadmits node (Program.mem_nodes_of_function hf hnode)) hchecked.parameters htop hholds
      obtain ⟨w2, hholds, hready⟩ := hruns.of_ok hfunctions
      obtain ⟨info, hmain, hnone, _⟩ := hready.exists_main htyped
      exact .call hmain (hnone ▸ .nil) hready hholds
  | step _ hstarts ih => exact ih.step hstarts

end Discipline

end Scriptlet
