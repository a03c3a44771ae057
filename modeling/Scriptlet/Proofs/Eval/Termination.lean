import Scriptlet.Proofs.Eval.Halting
import Scriptlet.Proofs.Eval.History
import Scriptlet.Proofs.Eval.Limit
import Scriptlet.Proofs.Scope.Contents
import Scriptlet.Proofs.Syntax.CallGraph

/-! # Programs that end

A program without loops, whose functions do not call each other in a circle, ends with a value or an
error, whatever else is wrong with it. Calls nest no deeper than functions have height in the call
graph, because what a name is looked up to at run time is a function of the program that the call
names.
-/

namespace Scriptlet

variable {σ α β : Type}

/-- The program has the function, and calls of that signature name it. -/
def Program.Has (p : Program) (signature : Signature) (f : Function) : Prop :=
  f ∈ p.functions ∧ ⟨f.name, f.arity⟩ = signature

/-- What can be called is the host's or a function of the program under its own name, now and
from a new activation. -/
structure Machine.Knows (machine : Machine σ) (p : Program) : Prop where
  visible : ∀ signature f, machine.scopes.findFunction? signature = some (.user f) →
    p.Has signature f
  global : ∀ signature f, machine.scopes.globals.funs.value? signature = some (.user f) →
    p.Has signature f

namespace Machine.Knows

variable {p : Program} {machine finish : Machine σ}

theorem enter (h : machine.Knows p) : machine.enter.Knows p := by
  refine ⟨?_, h.global⟩
  intro signature f hfind
  rw [Machine.enter, Scopes.findFunction?_enter] at hfind
  exact h.visible signature f hfind

theorem enterFunction (h : machine.Knows p) : machine.enterFunction.Knows p := by
  refine ⟨?_, h.global⟩
  intro signature f hfind
  rw [Machine.enterFunction, Scopes.findFunction?_enterFunction] at hfind
  exact h.global signature f hfind

theorem of_grows (h : machine.Knows p) (hgrows : machine.outline.Grows finish.outline) :
    finish.Knows p := by
  constructor
  · intro signature f hfind
    rw [← Machine.findFunction?_outline, hgrows.findFunction?_eq,
      Machine.findFunction?_outline] at hfind
    exact h.visible signature f hfind
  · intro signature f hvalue
    have hfuns : finish.scopes.globals.funs = machine.scopes.globals.funs := hgrows.globalFuns_eq
    rw [hfuns] at hvalue
    exact h.global signature f hvalue

/-- Where only functions of the host are declared, none of the program is found. -/
theorem of_hostOnly {builtins : List (Builtin σ)}
    (h : Scopes.HostOnly builtins machine.scopes) : machine.Knows p := by
  have hnone (signature : Signature) (f : Function) :
      machine.scopes.globals.funs.value? signature ≠ some (.user f) := by
    intro hvalue
    obtain ⟨builtin, _, hnative⟩ := h.funs _ (Table.mem_of_value? hvalue)
    cases hnative
  have hfind (signature : Signature) : machine.scopes.findFunction? signature =
      machine.scopes.globals.funs.value? signature := by
    simp [Scopes.findFunction?, Scopes.visible, h.blocks]
  constructor
  · intro signature f hvisible
    rw [hfind] at hvisible
    exact absurd hvisible (hnone signature f)
  · intro signature f hvalue
    exact absurd hvalue (hnone signature f)

/-- Declaring a function of the program keeps what is known within the program. -/
theorem declareFunction (h : machine.Knows p) {f : Function} (hf : f ∈ p.functions)
    {scopes : RunScopes σ}
    (hdeclare : machine.scopes.declareFunction ⟨f.name, f.arity⟩ (.user f) = .ok scopes) :
    Machine.Knows { machine with scopes } p := by
  constructor
  · intro signature g hfind
    rw [Scopes.findFunction?_declareFunction hdeclare] at hfind
    split at hfind
    next hsame =>
      cases hfind
      exact ⟨hf, hsame⟩
    next => exact h.visible signature g hfind
  · intro signature g hvalue
    obtain ⟨_, rfl⟩ := Scopes.declareFunction_eq_ok.mp hdeclare
    cases hblocks : machine.scopes.blocks with
    | nil =>
        simp only [Scopes.setCurrent, Scopes.current, hblocks, List.headD_nil,
          Table.value?_bind] at hvalue
        split at hvalue
        next hsame =>
          cases hvalue
          exact ⟨hf, hsame⟩
        next => exact h.global signature g hvalue
    | cons block blocks =>
        simp only [Scopes.setCurrent, hblocks] at hvalue
        exact h.global signature g hvalue

end Machine.Knows

namespace Eval

variable {p : Program}

/-- The step at most declares variables in the current frame. Where only the program's functions
are known it does not run out of fuel. -/
structure Ends (p : Program) (step : Eval σ α) : Prop where
  growing : Growing step
  ends : ∀ machine, machine.Knows p → Ensures step machine (fun _ finish => finish.Knows p)
    fun halt _ => halt ≠ .outOfFuel

namespace Ends

theorem of_growing {step : Eval σ α} (hgrowing : Growing step)
    (h : ∀ machine, machine.Knows p → Ensures step machine (fun _ _ => True)
      fun halt _ => halt ≠ .outOfFuel) : Ends p step := by
  refine ⟨hgrowing, ?_⟩
  intro machine hknows
  refine ((hgrowing machine).both (h machine hknows)).weaken ?_ ?_
  · intro _ finish hfinish
    exact hknows.of_grows hfinish.1
  · intro _ finish hfinish
    exact hfinish.2

/-- A step that uses no fuel ends whatever is known. -/
theorem of_lasts {step : Eval σ α} (hgrowing : Growing step) (h : Lasts step) : Ends p step :=
  .of_growing hgrowing fun machine _ => h.ensures machine

theorem pure (result : α) : Ends p (pure result : Eval σ α) :=
  .of_lasts (Steady.pure result).growing (.pure result)

theorem fail (cause : Cause) : Ends p (fail cause : Eval σ α) :=
  .of_lasts (Steady.fail cause).growing (.fail cause)

theorem lift (result : Except Cause α) : Ends p (lift result : Eval σ α) :=
  .of_lasts (Steady.lift result).growing (.lift result)

/-- Two steps in sequence, of which the second is taken only with certain results. -/
theorem bind_of {step : Eval σ α} {next : α → Eval σ β} {good : α → Prop} (hstep : Ends p step)
    (hgood : ∀ machine, Gives step machine fun result _ => good result)
    (hgrowing : ∀ result, Growing (next result))
    (hnext : ∀ result, good result → Ends p (next result)) : Ends p (step >>= next) := by
  refine ⟨hstep.growing.bind hgrowing, ?_⟩
  intro machine hknows
  apply Ensures.bind (((hstep.ends machine hknows).both (hgood machine)).weaken
    (fun _ _ h => h) fun _ _ h => h.1)
  intro result finish hfinish
  exact (hnext result hfinish.2).ends finish hfinish.1

theorem bind {step : Eval σ α} {next : α → Eval σ β} (hstep : Ends p step)
    (hnext : ∀ result, Ends p (next result)) : Ends p (step >>= next) := by
  have hany (machine : Machine σ) : Gives step machine fun _ _ => True :=
    .of_forall fun _ _ _ => trivial
  exact hstep.bind_of hany (fun result => (hnext result).growing) fun result _ => hnext result

theorem get_bind {next : Machine σ → Eval σ β} (hnext : ∀ machine, Ends p (next machine)) :
    Ends p (get >>= next) :=
  ⟨fun machine => (hnext machine).growing machine,
    fun machine hknows => (hnext machine).ends machine hknows⟩

theorem inBlock {step : Eval σ α} (h : Ends p step) : Ends p (inBlock step) := by
  apply of_growing h.growing.inBlock.growing
  intro machine hknows
  apply inBlock_ensures
  exact (h.ends machine.enter hknows.enter).imp fun _ _ _ => trivial

theorem inFunction {step : Eval σ α} (h : Ends p step) : Ends p (inFunction step) := by
  apply of_growing h.growing.inFunction.growing
  intro machine hknows
  apply inFunction_ensures
  exact (h.ends machine.enterFunction hknows.enterFunction).imp fun _ _ _ => trivial

end Ends

/-! ## Elementary steps -/

theorem slot_ends (name : String) : Ends p (slot name : Eval σ Slot) :=
  .of_lasts (slot_steady name).growing (slot_lasts name)

theorem store_ends (name : String) (value : Value) : Ends p (store name value : Eval σ Unit) :=
  .of_lasts (store_steady name value).growing (store_lasts name value)

theorem createList_ends (elements : List Value) : Ends p (createList elements : Eval σ Value) :=
  .of_lasts (createList_steady elements).growing (createList_lasts elements)

theorem elementAt_ends (address : Address) (index : Value) :
    Ends p (elementAt address index : Eval σ Value) :=
  .of_lasts (elementAt_steady address index).growing (elementAt_lasts address index)

theorem storeElement_ends (address : Address) (index value : Value) :
    Ends p (storeElement address index value : Eval σ Unit) :=
  .of_lasts (storeElement_steady address index value).growing
    (storeElement_lasts address index value)

theorem require_ends (target : Ty) (value : Value) : Ends p (require target value : Eval σ Unit) :=
  .lift _

theorem requireIf_ends (checked : Bool) (target : Ty) (value : Value) :
    Ends p (requireIf checked target value : Eval σ Unit) :=
  .of_lasts (requireIf_steady checked target value).growing
    (requireIf_lasts checked target value)

theorem resolve_ends (name : String) : Ends p (resolve name : Eval σ Ty) := .lift _

theorem declare_ends (name : String) (slot : Slot) : Ends p (declare name slot : Eval σ Unit) :=
  .of_lasts (declare_growing name slot) (declare_lasts name slot)

/-! ## Expressions -/

variable (policy : Division) {call : String → List Value → Eval σ Value}

/-- There are as many values as expressions. -/
theorem expressions_length (es : List Expr) (machine : Machine σ) :
    Gives (expressions policy call es) machine fun values _ => values.length = es.length := by
  induction es generalizing machine with
  | nil =>
      simp only [expressions]
      exact Ensures.pure rfl
  | cons first rest ih =>
      simp only [expressions]
      have hfirst : Gives (expression policy call first) machine fun _ _ => True :=
        .of_forall fun _ _ _ => trivial
      apply hfirst.bind
      intro value middle _
      apply (ih middle).bind
      intro values finish hlength
      exact Ensures.pure (congrArg Nat.succ hlength)

/-- Calls leave the frames as they are, and those of allowed functions end. -/
structure CallsEnd (p : Program) (allowed : Signature → Prop)
    (call : String → List Value → Eval σ Value) : Prop where
  steady : ∀ name arguments, Steady (call name arguments)
  ends : ∀ name arguments, allowed ⟨name, arguments.length⟩ → Ends p (call name arguments)

variable {allowed : Signature → Prop}

mutual

theorem expression_ends (hcall : CallsEnd p allowed call) :
    ∀ e : Expr, (∀ node ∈ e.nodes, node.CallsOnly allowed) → Ends p (expression policy call e)
  | .literal _ _, _ => by
      simp only [expression]
      exact .pure _
  | .group _ inner, h => by
      simp only [Expr.nodes, List.forall_mem_append] at h
      simp only [expression]
      exact expression_ends hcall inner h.1
  | .binary _ operator left right, h => by
      simp only [Expr.nodes, List.forall_mem_append] at h
      simp only [expression]
      apply (expression_ends hcall left h.1.1).bind
      intro first
      split
      · apply (Ends.lift _).bind
        intro truth
        split
        · exact .pure _
        · apply (expression_ends hcall right h.1.2).bind
          intro second
          exact (Ends.lift _).bind fun _ => .pure _
      · apply (expression_ends hcall right h.1.2).bind
        intro second
        exact .get_bind fun _ => .lift _
  | .access _ name, _ => by
      simp only [expression]
      exact (slot_ends name).bind fun _ => .pure _
  | .element _ name index, h => by
      simp only [Expr.nodes, List.forall_mem_append] at h
      simp only [expression]
      apply (expression_ends hcall index h.1).bind
      intro position
      apply (slot_ends name).bind
      intro slot
      exact (Ends.lift _).bind fun _ => elementAt_ends _ _
  | .call _ name arguments, h => by
      simp only [Expr.nodes, List.forall_mem_append, List.forall_mem_singleton] at h
      simp only [expression]
      -- The call is made with as many values as it has arguments in the text.
      apply (expressions_ends hcall arguments h.1).bind_of (expressions_length policy arguments)
      · intro values
        exact (hcall.steady name values).growing
      · intro values hlength
        apply hcall.ends
        rw [hlength]
        exact h.2 _ rfl
  | .list _ elements, h => by
      simp only [Expr.nodes, List.forall_mem_append] at h
      simp only [expression]
      exact (expressions_ends hcall elements h.1).bind fun _ => createList_ends _

theorem expressions_ends (hcall : CallsEnd p allowed call) :
    ∀ es : List Expr, (∀ node ∈ Expr.listNodes es, node.CallsOnly allowed) →
      Ends p (expressions policy call es)
  | [], _ => by
      simp only [expressions]
      exact .pure _
  | first :: rest, h => by
      simp only [Expr.listNodes, List.forall_mem_append] at h
      simp only [expressions]
      apply (expression_ends hcall first h.1).bind
      intro value
      exact (expressions_ends hcall rest h.2).bind fun _ => .pure _

end

theorem condition_ends (hcall : CallsEnd p allowed call) (e : Expr)
    (h : ∀ node ∈ e.nodes, node.CallsOnly allowed) : Ends p (condition policy call e) :=
  (expression_ends policy hcall e h).bind fun _ => .lift _

/-! ## Statements -/

theorem initialValue_ends (hcall : CallsEnd p allowed call) (initial : Option Expr)
    (h : ∀ node ∈ Expr.optionNodes initial, node.CallsOnly allowed) :
    Ends p (initialValue policy call initial) := by
  cases initial with
  | some e => exact expression_ends policy hcall e h
  | none => exact .pure _

theorem slotType_ends (value : Value) (typeName : Option String) :
    Ends p (slotType value typeName : Eval σ Ty) :=
  .of_lasts (slotType_steady value typeName).growing (slotType_lasts value typeName)

theorem declaration_ends (hcall : CallsEnd p allowed call) (id : NodeId) (name : String)
    (typeName : Option String) (initial : Option Expr)
    (h : ∀ node ∈ Expr.optionNodes initial, node.CallsOnly allowed) :
    Ends p (declaration policy call id name typeName initial) := by
  apply (initialValue_ends policy hcall initial h).bind
  intro value
  apply (slotType_ends value typeName).bind
  intro ty
  exact (requireIf_ends initial.isSome ty value).bind fun _ => declare_ends _ _

theorem assignment_ends (hcall : CallsEnd p allowed call) (receiver value : Expr)
    (hreceiver : ∀ node ∈ receiver.nodes, node.CallsOnly allowed)
    (hvalue : ∀ node ∈ value.nodes, node.CallsOnly allowed) :
    Ends p (assignment policy call receiver value) := by
  cases receiver with
  | access id name =>
      apply (expression_ends policy hcall value hvalue).bind
      intro value
      apply (slot_ends name).bind
      intro slot
      apply (require_ends _ _).bind
      intro _
      split
      · exact store_ends _ _
      · exact .fail _
  | element id name index =>
      simp only [Expr.nodes, List.forall_mem_append] at hreceiver
      apply (expression_ends policy hcall index hreceiver.1).bind
      intro position
      apply (expression_ends policy hcall value hvalue).bind
      intro value
      apply (slot_ends name).bind
      intro slot
      apply (require_ends _ _).bind
      intro _
      exact (Ends.lift _).bind fun _ => storeElement_ends _ _ _
  | literal | group | binary | call | list => exact .fail _

variable (limit : Nat)

mutual

/-- A statement without loops ends if what it calls does, however many rounds a loop may make. -/
theorem statement_ends (hcall : CallsEnd p allowed call) :
    ∀ s : Stmt, s.isLoopFree = true → (∀ node ∈ s.nodes, node.CallsOnly allowed) →
      Ends p (statement policy call limit s)
  | .expression value, _, h => by
      simp only [Stmt.nodes] at h
      simp only [statement]
      exact (expression_ends policy hcall value h).bind fun _ => .pure _
  | .declaration id name typeName initial, _, h => by
      simp only [Stmt.nodes, List.forall_mem_append] at h
      simp only [statement]
      exact (declaration_ends policy hcall id name typeName initial h.1).bind fun _ => .pure _
  | .assignment receiver value, _, h => by
      simp only [Stmt.nodes, List.forall_mem_append] at h
      simp only [statement]
      exact (assignment_ends policy hcall receiver value h.1 h.2).bind fun _ => .pure _
  | .branch test thenBlock elseBlock, hloops, h => by
      simp only [Stmt.isLoopFree, Bool.and_eq_true] at hloops
      simp only [Stmt.nodes, List.forall_mem_append] at h
      simp only [statement]
      apply (condition_ends policy hcall test h.1.1).bind
      intro holds
      split
      · exact (block_ends hcall thenBlock hloops.1 h.1.2).inBlock
      · exact (block_ends hcall elseBlock hloops.2 h.2).inBlock
  | .switch subject arms, hloops, h => by
      simp only [Stmt.isLoopFree] at hloops
      simp only [Stmt.nodes, List.forall_mem_append] at h
      simp only [statement]
      apply Ends.inBlock
      apply (expression_ends policy hcall subject h.1).bind
      intro value
      exact cases_ends hcall value arms hloops h.2
  | .loop _ _, hloops, _ => by
      simp only [Stmt.isLoopFree, Bool.false_eq_true] at hloops
  | .ret value, _, h => by
      simp only [Stmt.nodes] at h
      simp only [statement]
      exact (expression_ends policy hcall value h).bind fun _ => .pure _

theorem block_ends (hcall : CallsEnd p allowed call) :
    ∀ statements : List Stmt, Stmt.isBlockLoopFree statements = true →
      (∀ node ∈ Stmt.blockNodes statements, node.CallsOnly allowed) →
      Ends p (block policy call limit statements)
  | [], _, _ => by
      simp only [block]
      exact .pure _
  | first :: rest, hloops, h => by
      simp only [Stmt.isBlockLoopFree, Bool.and_eq_true] at hloops
      simp only [Stmt.blockNodes, List.forall_mem_append] at h
      simp only [block]
      apply (statement_ends hcall first hloops.1 h.1).bind
      intro flow
      cases flow with
      | next => exact block_ends hcall rest hloops.2 h.2
      | returning value => exact .pure _

theorem cases_ends (hcall : CallsEnd p allowed call) (subject : Value) :
    ∀ arms : List Case, Stmt.areCasesLoopFree arms = true →
      (∀ node ∈ Stmt.caseNodes arms, node.CallsOnly allowed) →
      Ends p (cases policy call limit subject arms)
  | [], _, _ => by
      simp only [cases]
      exact .pure _
  | .mk none body :: _, hloops, h => by
      simp only [Stmt.areCasesLoopFree, Bool.and_eq_true] at hloops
      simp only [Stmt.caseNodes, List.forall_mem_append] at h
      simp only [cases]
      exact (block_ends hcall body hloops.1 h.1.2).inBlock
  | .mk (some value) body :: rest, hloops, h => by
      simp only [Stmt.areCasesLoopFree, Bool.and_eq_true] at hloops
      simp only [Stmt.caseNodes, List.forall_mem_append, Expr.optionNodes] at h
      simp only [cases]
      apply (expression_ends policy hcall value h.1.1).bind
      intro value
      apply Ends.get_bind
      intro machine
      split
      · exact (block_ends hcall body hloops.1 h.1.2).inBlock
      · exact cases_ends hcall subject rest hloops.2 h.2

end

/-! ## Calls -/

theorem parameters_ends (function index : Nat) (names typeNames : List String)
    (values : List Value) :
    Ends p (parameters function index names typeNames values : Eval σ Unit) :=
  .of_lasts (parameters_growing function index names typeNames values)
    (parameters_lasts function index names typeNames values)

theorem returned_ends (f : Function) (flow : Flow) : Ends p (returned f flow : Eval σ Value) :=
  .of_lasts (returned_steady f flow).growing (returned_lasts f flow)

/-- A call ends if the limit leaves room for the height of what it may name. -/
theorem call_ends (hloops : p.isLoopFree = true) (hacyclic : p.Acyclic) {limit : Nat}
    (hlimit : 0 < limit) (name : String) (arguments : List Value)
    (hheight : ∀ f, p.Has ⟨name, arguments.length⟩ f → p.height f + 1 < limit) :
    Ends p (Eval.call policy limit name arguments : Eval σ Value) := by
  induction limit generalizing name arguments with
  | zero => exact absurd hlimit (Nat.lt_irrefl 0)
  | succ limit ih =>
      apply Ends.of_growing (call_steady policy (limit + 1) name arguments).growing
      intro machine hknows
      apply Ensures.get_bind
      cases hfind : machine.scopes.findFunction? ⟨name, arguments.length⟩ with
      | none => exact ((Ends.fail _).ends machine hknows).imp fun _ _ _ => trivial
      | some callable =>
          cases callable with
          -- A function of the host always has an answer.
          | native run => exact trivial
          | user f =>
              obtain ⟨hf, hsignature⟩ := hknows.visible _ f hfind
              have hroom : p.height f < limit :=
                Nat.lt_of_succ_lt_succ (hheight f ⟨hf, hsignature⟩)
              -- What the body calls is lower than the function itself.
              have hcall : CallsEnd p (fun signature => signature ∈ f.callees)
                  (Eval.call policy limit : String → List Value → Eval σ Value) := by
                refine ⟨call_steady policy limit, ?_⟩
                intro name arguments hcallee
                apply ih (Nat.zero_lt_of_lt hroom)
                intro g hg
                have hcalls : p.Calls f g := ⟨hf, hg.1, hg.2 ▸ hcallee⟩
                exact Nat.lt_of_le_of_lt (hacyclic.height_lt hcalls) hroom
              have hbody := block_ends policy limit hcall f.body
                (List.all_eq_true.mp hloops f hf) (by
                  intro node hnode signature hcallee
                  exact List.mem_filterMap.mpr ⟨node, List.mem_append_left _ hnode, hcallee⟩)
              have hrun := ((parameters_ends f.id 0 f.parameterNames f.parameterTypes
                arguments).bind fun _ => hbody).inFunction.bind (returned_ends f)
              exact (hrun.ends machine hknows).imp fun _ _ _ => trivial

/-- With a limit above the number of functions, all calls end. -/
theorem callsEnd_of_lt (hloops : p.isLoopFree = true) (hacyclic : p.Acyclic) {limit : Nat}
    (hlimit : p.functions.length < limit) :
    CallsEnd p (fun _ => True)
      (Eval.call policy limit : String → List Value → Eval σ Value) := by
  refine ⟨call_steady policy limit, ?_⟩
  intro name arguments _
  apply call_ends policy hloops hacyclic (Nat.zero_lt_of_lt hlimit)
  intro f hf
  exact Nat.lt_of_le_of_lt (hacyclic.height_lt_length hf.1) hlimit

/-! ## Programs -/

theorem requireAll_ends (target : Ty) (values : List Value) :
    Ends p (requireAll target values : Eval σ Unit) := by
  induction values with
  | nil => exact .pure _
  | cons value values ih => exact (require_ends target value).bind fun _ => ih

theorem requireInitial_ends (g : Global) (ty : Ty) (value : Value) :
    Ends p (requireInitial g ty value : Eval σ Unit) := by
  unfold requireInitial
  split
  · exact .get_bind fun _ => requireAll_ends _ _
  · exact requireIf_ends _ _ _

theorem global_ends (hcall : CallsEnd p (fun _ => True)
      (Eval.call policy limit : String → List Value → Eval σ Value)) (g : Global) :
    Ends p (global policy limit g : Eval σ Unit) := by
  apply (resolve_ends g.typeName).bind
  intro ty
  apply (initialValue_ends policy hcall g.initial fun _ _ _ _ => trivial).bind
  intro value
  exact (requireInitial_ends g ty value).bind fun _ => declare_ends _ _

theorem globals_ends (hcall : CallsEnd p (fun _ => True)
      (Eval.call policy limit : String → List Value → Eval σ Value)) (globals : List Global) :
    Ends p (each (global policy limit) globals : Eval σ Unit) := by
  induction globals with
  | nil => exact .pure _
  | cons g globals ih => exact (global_ends policy limit hcall g).bind fun _ => ih

/-- After functions of the program have been declared, still no others are known. A function that
is declared twice is an error. -/
theorem declareFunctions_ensures {functions : List Function}
    (hfunctions : ∀ f ∈ functions, f ∈ p.functions) {machine : Machine σ}
    (hknows : machine.Knows p) :
    Ensures (each declareFunction functions) machine (fun _ finish => finish.Knows p)
      fun halt _ => halt ≠ .outOfFuel := by
  induction functions generalizing machine with
  | nil => exact hknows
  | cons f functions ih =>
      obtain ⟨hf, hfunctions⟩ := List.forall_mem_cons.mp hfunctions
      have hfirst : Ensures (declareFunction f) machine (fun _ finish => finish.Knows p)
          fun halt _ => halt ≠ .outOfFuel := by
        apply Ensures.get_bind
        cases hdeclare : machine.scopes.declareFunction ⟨f.name, f.arity⟩ (.user f) with
        | ok scopes => exact hknows.declareFunction hf hdeclare
        | error cause =>
            intro houtOfFuel
            cases houtOfFuel
      apply hfirst.bind
      intro _ finish hfinish
      exact ih hfunctions hfinish

theorem program_ensures (hloops : p.isLoopFree = true) (hacyclic : p.Acyclic) {limit : Nat}
    (hlimit : p.functions.length < limit) {machine : Machine σ} (hknows : machine.Knows p) :
    Ensures (program policy limit p) machine (fun _ _ => True) fun halt _ => halt ≠ .outOfFuel := by
  have hcall : CallsEnd p (fun _ => True)
      (Eval.call policy limit : String → List Value → Eval σ Value) :=
    callsEnd_of_lt policy hloops hacyclic hlimit
  apply ((globals_ends policy limit hcall p.globals).ends machine hknows).bind
  intro _ middle hmiddle
  apply (declareFunctions_ensures (fun _ hf => hf) hmiddle).bind
  intro _ finish hfinish
  exact ((hcall.ends "main" [] trivial).ends finish hfinish).imp fun _ _ _ => trivial

end Eval

/-- A program without loops and without a circle of calls ends with a value or an error, the same
under every limit above the number of its functions. -/
theorem Program.run_ends_of_acyclic (p : Program) (hloops : p.isLoopFree = true)
    (hacyclic : p.Acyclic) (builtins : List (Builtin σ)) (policy : Division) (host : σ) :
    ∃ result : Run σ,
      ((∃ value, result.outcome = .value value) ∨ ∃ error, result.outcome = .error error) ∧
      ∀ limit, p.functions.length < limit → p.run builtins policy limit host = result := by
  let result := p.run builtins policy (p.functions.length + 1) host
  have hends : result.outcome ≠ .outOfFuel := by
    simp only [result, Program.run]
    split
    · intro houtOfFuel
      cases houtOfFuel
    next scopes hscopes =>
      intro houtOfFuel
      obtain ⟨finish, hout⟩ := Run.outcome_ofResult_eq_outOfFuel.mp houtOfFuel
      have hknows : Machine.Knows ⟨scopes, .empty, host⟩ p := .of_hostOnly (.of_runScopes hscopes)
      exact (Eval.program_ensures policy hloops hacyclic (Nat.lt_succ_self _) hknows).of_error
        hout rfl
  refine ⟨result, ?_, ?_⟩
  · cases houtcome : result.outcome with
    | value value => exact .inl ⟨value, rfl⟩
    | error error => exact .inr ⟨error, rfl⟩
    | outOfFuel => exact absurd houtcome hends
  · intro limit hlimit
    exact p.run_eq_of_le builtins policy host hlimit hends

/-- Two functions of one name, of which the first calls the second with one argument more. -/
def Program.overloads : Program where
  globals := []
  functions := [
    ⟨8, "main", [], [], some "Integer",
      [.branch (.literal 0 (.boolean true))
        [.ret (.call 2 "next" [.literal 1 (.integer 20)])] []]⟩,
    ⟨6, "next", ["n"], ["Integer"], some "Integer",
      [.ret (.call 5 "next" [.access 3 "n", .literal 4 (.integer 1)])]⟩,
    ⟨11, "next", ["n", "step"], ["Integer", "Integer"], some "Integer",
      [.ret (.binary 10 .add (.access 7 "n") (.access 9 "step"))]⟩]

/-- Every call in the program has more arguments than the function it stands in. -/
theorem Program.overloads_acyclic : overloads.Acyclic := by
  have hrank : ∀ f ∈ overloads.functions, ∀ g ∈ overloads.functions,
      ⟨g.name, g.arity⟩ ∈ f.callees → 2 - g.arity < 2 - f.arity := by decide
  rw [acyclic_iff_exists_rank]
  refine ⟨fun f => 2 - f.arity, ?_⟩
  intro f g hcall
  exact hrank f hcall.1 g hcall.2.1 hcall.2.2

theorem Program.run_ends_of_acyclic_overloads :
    overloads.isLoopFree = true ∧ overloads.Acyclic ∧
      ∃ result : Run Unit,
        ((∃ value, result.outcome = .value value) ∨ ∃ error, result.outcome = .error error) ∧
        ∀ limit, 3 < limit → overloads.run [] .unscaled limit () = result :=
  ⟨by decide, overloads_acyclic,
    run_ends_of_acyclic overloads (by decide) overloads_acyclic [] .unscaled ()⟩

end Scriptlet
