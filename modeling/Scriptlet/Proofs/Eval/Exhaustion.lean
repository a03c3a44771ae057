import Scriptlet.Proofs.Eval.Halting
import Scriptlet.Proofs.Eval.Limit
import Scriptlet.Proofs.Eval.Moments

/-! # Where runs halt

The moments of a run are those that its evaluation comes to. A moment that halts makes the one that
starts it halt for the same reason, and so the whole run. A moment that runs out of fuel starts one
that does, until a call or a loop is reached for which nothing is left. So a run is out of fuel just
if such a call or loop is one of its moments.
-/

namespace Scriptlet

variable {σ : Type}

section

variable (policy : Division)

/-- Evaluation of the task that the moment begins has no result, for the given reason. -/
def Moment.Halts : Moment σ → Halt → Prop
  | ⟨limit, .expression e, machine⟩, halt =>
      Eval.Halts (Eval.value policy limit e) machine halt
  | ⟨limit, .expressions es, machine⟩, halt =>
      Eval.Halts (Eval.values policy limit es) machine halt
  | ⟨limit, .call name arguments, machine⟩, halt =>
      Eval.Halts (Eval.call policy limit name arguments) machine halt
  | ⟨limit, .statement s, machine⟩, halt =>
      Eval.Halts (Eval.statement policy (Eval.call policy limit) limit s) machine halt
  | ⟨limit, .block statements, machine⟩, halt =>
      Eval.Halts (Eval.block policy (Eval.call policy limit) limit statements) machine halt
  | ⟨limit, .rounds count test body, machine⟩, halt =>
      Eval.Halts (Eval.repeatWhile (Eval.condition policy (Eval.call policy limit) test)
        (Eval.inBlock (Eval.block policy (Eval.call policy limit) limit body)) count) machine halt
  | ⟨limit, .cases subject arms, machine⟩, halt =>
      Eval.Halts (Eval.cases policy (Eval.call policy limit) limit subject arms) machine halt

end

/-- The limit leaves nothing for the call or for the round that the moment begins. -/
inductive Moment.Exhausted : Moment σ → Prop
  | call {name : String} {arguments : List Value} {machine : Machine σ} :
      Exhausted ⟨0, .call name arguments, machine⟩
  | rounds {limit : Nat} {test : Expr} {body : List Stmt} {machine : Machine σ} :
      Exhausted ⟨limit, .rounds 0 test body, machine⟩

variable {policy : Division} {limit : Nat} {machine middle : Machine σ} {halt : Halt}

theorem Eval.condition_eq_ok {test : Expr} {holds : Bool} :
    Eval.condition policy (Eval.call policy limit) test machine = .ok holds middle ↔
      Eval.value policy limit test machine = .ok (.boolean holds) middle := by
  constructor
  · intro h
    obtain ⟨value, finish, hvalue, htruth⟩ := bind_eq_ok.mp h
    cases value with
    | boolean =>
        cases htruth
        exact hvalue
    | nil | integer | decimal | character | string | list => cases htruth
  · intro h
    exact bind_of_ok h

variable {moment next : Moment σ}

namespace Moment

/-! ## What is started takes part -/

namespace Starts

theorem halts_expression {e : Expr} (h : Starts policy ⟨limit, .expression e, machine⟩ next)
    (hnext : next.Halts policy halt) : Halts policy ⟨limit, .expression e, machine⟩ halt := by
  simp only [Moment.Halts, Eval.value]
  cases h with
  | group =>
      simp only [Eval.expression]
      exact hnext
  | left =>
      simp only [Eval.expression]
      exact .bind hnext
  | @right _ _ _ _ operator _ _ first hfirst hopen =>
      simp only [Eval.expression]
      apply Eval.Halts.after hfirst
      cases hdeciding : operator.deciding? with
      | none => exact .bind hnext
      | some verdict =>
          -- The left operand did not decide, so the right one is looked at.
          rw [hopen verdict hdeciding]
          apply Eval.Halts.after (Eval.lift_eq_ok.mpr ⟨rfl, rfl⟩)
          rw [if_neg (by simp)]
          exact .bind hnext
  | index =>
      simp only [Eval.expression]
      exact .bind hnext
  | arguments =>
      simp only [Eval.expression]
      exact .bind hnext
  | call hvalues =>
      simp only [Eval.expression]
      exact .after hvalues hnext
  | elements =>
      simp only [Eval.expression]
      exact .bind hnext

theorem halts_statement {s : Stmt} (h : Starts policy ⟨limit, .statement s, machine⟩ next)
    (hnext : next.Halts policy halt) : Halts policy ⟨limit, .statement s, machine⟩ halt := by
  simp only [Moment.Halts]
  cases h with
  | alone =>
      simp only [Eval.statement]
      exact .bind hnext
  | initial =>
      simp only [Eval.statement]
      exact .bind (.bind hnext)
  | assigned =>
      simp only [Eval.statement]
      exact .bind (.bind hnext)
  | assignedIndex =>
      simp only [Eval.statement]
      exact .bind (.bind hnext)
  | assignedElement hi =>
      simp only [Eval.statement]
      exact .bind (.after hi (.bind hnext))
  | test =>
      simp only [Eval.statement]
      exact .bind (.bind hnext)
  | @branch _ _ _ _ _ _ holds hvalue =>
      simp only [Eval.statement]
      apply Eval.Halts.after (Eval.condition_eq_ok.mpr hvalue)
      cases holds with
      | true => exact Eval.halts_inBlock.mpr hnext
      | false => exact Eval.halts_inBlock.mpr hnext
  | subject =>
      simp only [Eval.statement]
      exact Eval.halts_inBlock.mpr (.bind hnext)
  | cases hvalue =>
      simp only [Eval.statement]
      exact Eval.halts_inBlock.mpr (.after hvalue hnext)
  | loop =>
      simp only [Eval.statement]
      exact hnext
  | returned =>
      simp only [Eval.statement]
      exact .bind hnext

theorem halts_expressions {es : List Expr}
    (h : Starts policy ⟨limit, .expressions es, machine⟩ next) (hnext : next.Halts policy halt) :
    Halts policy ⟨limit, .expressions es, machine⟩ halt := by
  simp only [Moment.Halts, Eval.values]
  cases h with
  | head =>
      simp only [Eval.expressions]
      exact .bind hnext
  | tail hvalue =>
      simp only [Eval.expressions]
      exact .after hvalue (.bind hnext)

theorem halts_call {name : String} {arguments : List Value}
    (h : Starts policy ⟨limit, .call name arguments, machine⟩ next)
    (hnext : next.Halts policy halt) :
    Halts policy ⟨limit, .call name arguments, machine⟩ halt := by
  cases h with
  | body huser hparameters =>
      simp only [Moment.Halts, Eval.call]
      rw [Eval.halts_get_bind, huser]
      exact .bind (Eval.halts_inFunction.mpr (.after hparameters hnext))

theorem halts_block {statements : List Stmt}
    (h : Starts policy ⟨limit, .block statements, machine⟩ next)
    (hnext : next.Halts policy halt) : Halts policy ⟨limit, .block statements, machine⟩ halt := by
  simp only [Moment.Halts]
  cases h with
  | first =>
      simp only [Eval.block]
      exact .bind hnext
  | next hfirst =>
      simp only [Eval.block]
      exact .after hfirst hnext

theorem halts_rounds {count : Nat} {test : Expr} {body : List Stmt}
    (h : Starts policy ⟨limit, .rounds count test body, machine⟩ next)
    (hnext : next.Halts policy halt) :
    Halts policy ⟨limit, .rounds count test body, machine⟩ halt := by
  simp only [Moment.Halts]
  cases h with
  | roundTest =>
      simp only [Eval.repeatWhile]
      exact .bind (.bind hnext)
  | round hvalue =>
      simp only [Eval.repeatWhile]
      exact .after (Eval.condition_eq_ok.mpr hvalue) (.bind (Eval.halts_inBlock.mpr hnext))
  | nextRound hvalue hround =>
      simp only [Eval.repeatWhile]
      exact .after (Eval.condition_eq_ok.mpr hvalue) (.after hround hnext)

theorem halts_cases {subject : Value} {arms : List Case}
    (h : Starts policy ⟨limit, .cases subject arms, machine⟩ next)
    (hnext : next.Halts policy halt) : Halts policy ⟨limit, .cases subject arms, machine⟩ halt := by
  simp only [Moment.Halts]
  cases h with
  | armValue =>
      simp only [Eval.cases]
      exact .bind hnext
  | arm hvalue hequal =>
      simp only [Eval.cases]
      apply Eval.Halts.after hvalue
      rw [Eval.halts_get_bind, if_pos hequal]
      exact Eval.halts_inBlock.mpr hnext
  | nextArm hvalue hequal =>
      simp only [Eval.cases]
      apply Eval.Halts.after hvalue
      rw [Eval.halts_get_bind, if_neg (Bool.not_eq_true _ ▸ hequal)]
      exact hnext
  | default =>
      simp only [Eval.cases]
      exact Eval.halts_inBlock.mpr hnext

/-- A moment halts if one that it starts does, and for the same reason. -/
theorem halts (h : Starts policy moment next) (hnext : next.Halts policy halt) :
    moment.Halts policy halt := by
  obtain ⟨limit, task, machine⟩ := moment
  cases task with
  | expression e => exact h.halts_expression hnext
  | expressions es => exact h.halts_expressions hnext
  | call name arguments => exact h.halts_call hnext
  | statement s => exact h.halts_statement hnext
  | block statements => exact h.halts_block hnext
  | rounds count test body => exact h.halts_rounds hnext
  | cases subject arms => exact h.halts_cases hnext

end Starts

/-! ## What runs out of fuel -/

/-- The moment starts one that runs out of fuel. -/
def PassesOn (policy : Division) (moment : Moment σ) : Prop :=
  ∃ next, Starts policy moment next ∧ next.Halts policy .outOfFuel

/-- The right operand runs out of fuel only where the left one does not decide. -/
theorem passesOn_binary {id : NodeId} {operator : Operator} {left right : Expr}
    (h : Halts policy ⟨limit, .expression (.binary id operator left right), machine⟩ .outOfFuel) :
    PassesOn policy ⟨limit, .expression (.binary id operator left right), machine⟩ := by
  simp only [Moment.Halts, Eval.value, Eval.expression] at h
  obtain h | ⟨first, middle, hfirst, h⟩ := Eval.halts_bind.mp h
  · exact ⟨_, .left, h⟩
  cases hdeciding : operator.deciding? with
  | none =>
      simp only [hdeciding] at h
      refine ⟨_, .right hfirst ?_, h.of_bind fun _ => .get_bind fun _ => .lift _⟩
      intro verdict hverdict
      cases hdeciding.symm.trans hverdict
  | some verdict =>
      simp only [hdeciding] at h
      obtain h | ⟨truth, finish, hlift, hrest⟩ := Eval.halts_bind.mp h
      · exact absurd h (Eval.Lasts.lift _ middle)
      obtain ⟨htruth, rfl⟩ := Eval.lift_eq_ok.mp hlift
      split at hrest
      next => exact absurd hrest (Eval.Lasts.pure _ finish)
      next hopen =>
        refine ⟨_, .right hfirst ?_, hrest.of_bind fun _ =>
          (Eval.Lasts.lift _).bind fun _ => .pure _⟩
        intro verdict' hverdict
        obtain rfl := Option.some.inj (hdeciding.symm.trans hverdict)
        rw [htruth, Bool.eq_not.mpr hopen]

theorem passesOn_expression {e : Expr}
    (h : Halts policy ⟨limit, .expression e, machine⟩ .outOfFuel) :
    PassesOn policy ⟨limit, .expression e, machine⟩ := by
  simp only [Moment.Halts, Eval.value] at h
  cases e with
  | literal id value =>
      simp only [Eval.expression] at h
      exact absurd h (Eval.Lasts.pure _ machine)
  | group id inner =>
      simp only [Eval.expression] at h
      exact ⟨_, .group, h⟩
  | binary id operator left right => exact passesOn_binary h
  | access id name =>
      simp only [Eval.expression] at h
      exact absurd (h.of_bind fun _ => .pure _) (Eval.slot_lasts name machine)
  | element id name index =>
      simp only [Eval.expression] at h
      refine ⟨_, .index, h.of_bind fun position => (Eval.slot_lasts name).bind fun slot => ?_⟩
      exact (Eval.Lasts.lift _).bind fun _ => Eval.elementAt_lasts _ _
  | call id name arguments =>
      simp only [Eval.expression] at h
      obtain h | ⟨values, middle, hvalues, h⟩ := Eval.halts_bind.mp h
      · exact ⟨_, .arguments, h⟩
      · exact ⟨_, .call hvalues, h⟩
  | list id elements =>
      simp only [Eval.expression] at h
      exact ⟨_, .elements, h.of_bind Eval.createList_lasts⟩

theorem passesOn_assignment {receiver value : Expr}
    (h : Halts policy ⟨limit, .statement (.assignment receiver value), machine⟩ .outOfFuel) :
    PassesOn policy ⟨limit, .statement (.assignment receiver value), machine⟩ := by
  simp only [Moment.Halts, Eval.statement] at h
  have h := h.of_bind fun _ => .pure _
  cases receiver with
  | access id name =>
      refine ⟨_, .assigned, h.of_bind fun value => ?_⟩
      apply (Eval.slot_lasts name).bind
      intro slot
      apply (Eval.require_lasts _ value).bind
      intro _
      split
      · exact Eval.store_lasts _ _
      · exact .fail _
  | element id name index =>
      obtain h | ⟨position, middle, hposition, h⟩ := Eval.halts_bind.mp h
      · exact ⟨_, .assignedIndex, h⟩
      · refine ⟨_, .assignedElement hposition, h.of_bind fun value => ?_⟩
        apply (Eval.slot_lasts name).bind
        intro slot
        apply (Eval.require_lasts _ value).bind
        intro _
        exact (Eval.Lasts.lift _).bind fun _ => Eval.storeElement_lasts _ _ _
  | literal | group | binary | call | list => exact absurd h (Eval.Lasts.fail _ machine)

theorem passesOn_statement {s : Stmt}
    (h : Halts policy ⟨limit, .statement s, machine⟩ .outOfFuel) :
    PassesOn policy ⟨limit, .statement s, machine⟩ := by
  simp only [Moment.Halts] at h
  cases s with
  | expression value =>
      simp only [Eval.statement] at h
      exact ⟨_, .alone, h.of_bind fun _ => .pure _⟩
  | declaration id name typeName initial =>
      simp only [Eval.statement] at h
      have h := h.of_bind fun _ => .pure _
      have hinitial := h.of_bind fun value => (Eval.slotType_lasts value typeName).bind fun ty =>
        (Eval.requireIf_lasts _ ty value).bind fun _ => Eval.declare_lasts _ _
      cases initial with
      | none => exact absurd hinitial (Eval.Lasts.pure _ machine)
      | some initial => exact ⟨_, .initial, hinitial⟩
  | assignment receiver value => exact passesOn_assignment h
  | branch test thenBlock elseBlock =>
      simp only [Eval.statement] at h
      obtain h | ⟨holds, middle, hholds, h⟩ := Eval.halts_bind.mp h
      · exact ⟨_, .test, h.of_bind fun _ => .lift _⟩
      · refine ⟨_, .branch (Eval.condition_eq_ok.mp hholds), ?_⟩
        cases holds with
        | true => exact Eval.halts_inBlock.mp h
        | false => exact Eval.halts_inBlock.mp h
  | switch subject arms =>
      simp only [Eval.statement] at h
      obtain h | ⟨value, middle, hvalue, h⟩ := Eval.halts_bind.mp (Eval.halts_inBlock.mp h)
      · exact ⟨_, .subject, h⟩
      · exact ⟨_, .cases hvalue, h⟩
  | loop test body =>
      simp only [Eval.statement] at h
      exact ⟨_, .loop, h⟩
  | ret value =>
      simp only [Eval.statement] at h
      exact ⟨_, .returned, h.of_bind fun _ => .pure _⟩

theorem passesOn_block {statements : List Stmt}
    (h : Halts policy ⟨limit, .block statements, machine⟩ .outOfFuel) :
    PassesOn policy ⟨limit, .block statements, machine⟩ := by
  simp only [Moment.Halts] at h
  cases statements with
  | nil =>
      simp only [Eval.block] at h
      exact absurd h (Eval.Lasts.pure _ machine)
  | cons first rest =>
      simp only [Eval.block] at h
      obtain h | ⟨flow, middle, hflow, h⟩ := Eval.halts_bind.mp h
      · exact ⟨_, .first, h⟩
      · cases flow with
        | next => exact ⟨_, .next hflow, h⟩
        | returning value => exact absurd h (Eval.Lasts.pure _ middle)

theorem passesOn_rounds {count : Nat} {test : Expr} {body : List Stmt}
    (h : Halts policy ⟨limit, .rounds (count + 1) test body, machine⟩ .outOfFuel) :
    PassesOn policy ⟨limit, .rounds (count + 1) test body, machine⟩ := by
  simp only [Moment.Halts, Eval.repeatWhile] at h
  obtain h | ⟨holds, middle, hholds, h⟩ := Eval.halts_bind.mp h
  · exact ⟨_, .roundTest, h.of_bind fun _ => .lift _⟩
  cases holds with
  | false => exact absurd h (Eval.Lasts.pure _ middle)
  | true =>
      obtain h | ⟨flow, finish, hflow, h⟩ := Eval.halts_bind.mp h
      · exact ⟨_, .round (Eval.condition_eq_ok.mp hholds), Eval.halts_inBlock.mp h⟩
      · cases flow with
        | next => exact ⟨_, .nextRound (Eval.condition_eq_ok.mp hholds) hflow, h⟩
        | returning value => exact absurd h (Eval.Lasts.pure _ finish)

theorem passesOn_cases {subject : Value} {arms : List Case}
    (h : Halts policy ⟨limit, .cases subject arms, machine⟩ .outOfFuel) :
    PassesOn policy ⟨limit, .cases subject arms, machine⟩ := by
  simp only [Moment.Halts] at h
  match arms with
  | [] =>
      simp only [Eval.cases] at h
      exact absurd h (Eval.Lasts.pure _ machine)
  | .mk none body :: rest =>
      simp only [Eval.cases] at h
      exact ⟨_, .default, Eval.halts_inBlock.mp h⟩
  | .mk (some value) body :: rest =>
      simp only [Eval.cases] at h
      obtain h | ⟨v, middle, hv, h⟩ := Eval.halts_bind.mp h
      · exact ⟨_, .armValue, h⟩
      rw [Eval.halts_get_bind] at h
      split at h
      next hequal => exact ⟨_, .arm hv hequal, Eval.halts_inBlock.mp h⟩
      next hequal => exact ⟨_, .nextArm hv (Bool.eq_false_iff.mpr hequal), h⟩

theorem passesOn_call {name : String} {arguments : List Value}
    (h : Halts policy ⟨limit + 1, .call name arguments, machine⟩ .outOfFuel) :
    PassesOn policy ⟨limit + 1, .call name arguments, machine⟩ := by
  simp only [Moment.Halts, Eval.call] at h
  rw [Eval.halts_get_bind] at h
  split at h
  · exact absurd h (Eval.Lasts.fail _ machine)
  · exact absurd h (Eval.runNative_lasts _ _ machine)
  next f huser =>
    have h := Eval.halts_inFunction.mp (h.of_bind (Eval.returned_lasts f))
    obtain h | ⟨_, middle, hparameters, h⟩ := Eval.halts_bind.mp h
    · exact absurd h (Eval.parameters_lasts _ _ _ _ _ _)
    · exact ⟨_, .body huser hparameters, h⟩

theorem passesOn_expressions {es : List Expr}
    (h : Halts policy ⟨limit, .expressions es, machine⟩ .outOfFuel) :
    PassesOn policy ⟨limit, .expressions es, machine⟩ := by
  simp only [Moment.Halts, Eval.values] at h
  cases es with
  | nil =>
      simp only [Eval.expressions] at h
      exact absurd h (Eval.Lasts.pure _ machine)
  | cons first rest =>
      simp only [Eval.expressions] at h
      obtain h | ⟨value, middle, hvalue, h⟩ := Eval.halts_bind.mp h
      · exact ⟨_, .head, h⟩
      · exact ⟨_, .tail hvalue, h.of_bind fun _ => .pure _⟩

/-- A moment that runs out of fuel has none left, or it starts one that runs out. -/
theorem exhausted_or_passesOn (h : moment.Halts policy .outOfFuel) :
    moment.Exhausted ∨ moment.PassesOn policy := by
  obtain ⟨limit, task, machine⟩ := moment
  cases task with
  | expression e => exact .inr (passesOn_expression h)
  | expressions es => exact .inr (passesOn_expressions h)
  | call name arguments =>
      cases limit with
      | zero => exact .inl .call
      | succ limit => exact .inr (passesOn_call h)
  | statement s => exact .inr (passesOn_statement h)
  | block statements => exact .inr (passesOn_block h)
  | rounds count test body =>
      cases count with
      | zero => exact .inl .rounds
      | succ count => exact .inr (passesOn_rounds h)
  | cases subject arms => exact .inr (passesOn_cases h)

theorem Exhausted.halts (h : moment.Exhausted) : moment.Halts policy .outOfFuel := by
  cases h with
  | call => exact ⟨_, rfl⟩
  | rounds => exact ⟨_, rfl⟩

end Moment

/-! ## Moments only start smaller ones -/

/-- Twice the size of what there is to evaluate, and the rounds that a loop may still make. The
rounds of a loop are smaller than the loop, and larger than its test and its body. -/
noncomputable def Task.size : Task → Nat × Nat
  | .expression e => (2 * sizeOf e, 0)
  | .expressions es => (2 * sizeOf es, 0)
  | .call _ _ => (0, 0)
  | .statement s => (2 * sizeOf s, 0)
  | .block statements => (2 * sizeOf statements, 0)
  | .rounds count test body => (2 * (sizeOf test + sizeOf body) + 1, count)
  | .cases _ arms => (2 * sizeOf arms, 0)

namespace Moment

theorem Starts.smaller (h : Starts policy moment next) :
    Prod.Lex (· < ·) (Prod.Lex (· < ·) (· < ·)) (next.limit, next.task.size)
      (moment.limit, moment.task.size) := by
  cases h with
  -- What a function does has nothing in common with its call but the limit.
  | body => exact .left _ _ (Nat.lt_succ_self _)
  | nextRound => exact .right _ (.right _ (Nat.lt_succ_self _))
  | roundTest | round => exact .right _ (.left _ _ (by omega))
  | @branch _ _ _ _ _ _ holds _ =>
      refine .right _ (.left _ _ ?_)
      rw [Stmt.branch.sizeOf_spec]
      cases holds with
      | true =>
          rw [if_pos rfl]
          omega
      | false =>
          rw [if_neg Bool.false_ne_true]
          omega
  | _ =>
      refine .right _ (.left _ _ ?_)
      simp only [Expr.group.sizeOf_spec, Expr.binary.sizeOf_spec, Expr.element.sizeOf_spec,
        Expr.call.sizeOf_spec, Expr.list.sizeOf_spec, Expr.access.sizeOf_spec,
        Stmt.expression.sizeOf_spec, Stmt.declaration.sizeOf_spec, Stmt.assignment.sizeOf_spec,
        Stmt.branch.sizeOf_spec, Stmt.switch.sizeOf_spec, Stmt.loop.sizeOf_spec,
        Stmt.ret.sizeOf_spec, Case.mk.sizeOf_spec, List.cons.sizeOf_spec,
        Option.some.sizeOf_spec]
      omega

/-- Moments do not start others for ever. -/
theorem starts_wellFounded (policy : Division) :
    WellFounded fun next moment : Moment σ => Starts policy moment next := by
  have hsizes : WellFounded (Prod.Lex (· < ·) (Prod.Lex (· < ·) (· < ·)) :
      Nat × Nat × Nat → Nat × Nat × Nat → Prop) :=
    (Prod.lex Nat.lt_wfRel (Prod.lex Nat.lt_wfRel Nat.lt_wfRel)).wf
  exact Subrelation.wf Starts.smaller
    (InvImage.wf (fun moment : Moment σ => (moment.limit, moment.task.size)) hsizes)

end Moment

/-! ## Runs -/

variable {p : Program} {builtins : List (Builtin σ)} {notes : Annotations} {host : σ}

/-- The type of a global of a checked program has a meaning. -/
theorem Checked.exists_ofName (h : Checked builtins p notes) {g : Global} (hg : g ∈ p.globals) :
    ∃ ty, Ty.ofName g.typeName = .ok ty := by
  obtain ⟨_, _, _, _, htyped⟩ := Program.typed_of_check h.checked h.distinct h.parameters
  have hchain := htyped.globals
  obtain ⟨before, after, hsplit⟩ := List.append_of_mem hg
  rw [hsplit] at hchain
  obtain ⟨_, _, _, hglobal⟩ := hchain.split
  cases hglobal with
  | mk hty _ _ _ => exact ⟨_, hty⟩

namespace Program.Reaches

theorem program_halts (h : p.Reaches policy builtins limit host moment)
    (hchecked : Checked builtins p notes) (hhalts : moment.Halts policy halt) :
    ∃ scopes, Builtin.runScopes builtins = .ok scopes ∧
      Eval.Halts (Eval.program policy limit p) ⟨scopes, .empty, host⟩ halt := by
  induction h with
  | @global before after g initial scopes machine hglobals hinitial hscopes hbefore =>
      refine ⟨scopes, hscopes, .bind (Eval.halts_each.mpr ?_)⟩
      refine ⟨before, g, after, machine, hglobals, hbefore, ?_⟩
      -- The type of a global is looked up before its first value is computed.
      obtain ⟨ty, hty⟩ := hchecked.exists_ofName (hglobals ▸ List.mem_append_cons_self)
      apply Eval.Halts.after (Eval.lift_eq_ok.mpr ⟨hty, rfl⟩)
      rw [hinitial]
      exact .bind hhalts
  | main hscopes hglobals hfunctions =>
      exact ⟨_, hscopes, .after hglobals (.after hfunctions hhalts)⟩
  | step _ hstarts ih => exact ih (hstarts.halts hhalts)

/-- A run halts if one of its moments does, and for the same reason. -/
theorem run_eq (h : p.Reaches policy builtins limit host moment)
    (hchecked : Checked builtins p notes) (hhalts : moment.Halts policy halt) :
    ∃ finish, p.run builtins policy limit host = .ofResult (.error halt finish) := by
  obtain ⟨scopes, hscopes, finish, hprogram⟩ := h.program_halts hchecked hhalts
  refine ⟨finish, ?_⟩
  rw [Program.run, hscopes, ← hprogram]

/-- From a moment that runs out of fuel, the run comes to one for which none is left. -/
theorem exists_exhausted (h : p.Reaches policy builtins limit host moment)
    (hhalts : moment.Halts policy .outOfFuel) :
    ∃ last, p.Reaches policy builtins limit host last ∧ last.Exhausted := by
  induction moment using (Moment.starts_wellFounded policy).induction with
  | _ moment ih =>
      obtain hexhausted | ⟨next, hstarts, hnext⟩ := Moment.exhausted_or_passesOn hhalts
      · exact ⟨moment, h, hexhausted⟩
      · exact ih next hstarts (h.step hstarts) hnext

end Program.Reaches

/-- Of what a global takes, only its first value needs fuel. -/
theorem Eval.exists_initial_halts {g : Global}
    (h : Halts (Eval.global policy limit g) machine .outOfFuel) :
    ∃ initial, g.initial = some initial ∧
      Halts (Eval.value policy limit initial) machine .outOfFuel := by
  obtain hresolve | ⟨ty, finish, hty, hrest⟩ := halts_bind.mp h
  · exact absurd hresolve (resolve_lasts _ machine)
  obtain ⟨_, rfl⟩ := lift_eq_ok.mp hty
  have hinitial := hrest.of_bind fun value =>
    (requireInitial_lasts g ty value).bind fun _ => declare_lasts _ _
  cases hg : g.initial with
  | none =>
      rw [hg] at hinitial
      exact absurd hinitial (Lasts.pure _ finish)
  | some initial =>
      rw [hg] at hinitial
      exact ⟨initial, rfl, hinitial⟩

/-- A run that is out of fuel has come to a moment that runs out. -/
theorem Program.exists_reaches {scopes : RunScopes σ}
    (hscopes : Builtin.runScopes builtins = .ok scopes)
    (h : Eval.Halts (Eval.program policy limit p) ⟨scopes, .empty, host⟩ .outOfFuel) :
    ∃ moment, p.Reaches policy builtins limit host moment ∧ moment.Halts policy .outOfFuel := by
  obtain h | ⟨_, middle, hglobals, h⟩ := Eval.halts_bind.mp h
  · obtain ⟨before, g, after, machine, hsplit, hbefore, h⟩ := Eval.halts_each.mp h
    obtain ⟨initial, hinitial, h⟩ := Eval.exists_initial_halts h
    exact ⟨_, .global hsplit hinitial hscopes hbefore, h⟩
  · obtain h | ⟨_, machine, hfunctions, h⟩ := Eval.halts_bind.mp h
    · obtain ⟨_, f, _, _, _, _, h⟩ := Eval.halts_each.mp h
      exact absurd h (Eval.declareFunction_lasts f _)
    · exact ⟨_, .main hscopes hglobals hfunctions, h⟩

/-- A checked program runs out of fuel just if it comes to a call or to a round of a loop for which
none is left. -/
theorem Program.run_outOfFuel_iff (hchecked : Checked builtins p notes) :
    (p.run builtins policy limit host).outcome = .outOfFuel ↔
      ∃ moment, p.Reaches policy builtins limit host moment ∧ moment.Exhausted := by
  constructor
  · intro h
    unfold Program.run at h
    cases hscopes : Builtin.runScopes builtins with
    | error cause =>
        rw [hscopes] at h
        cases h
    | ok scopes =>
        simp only [hscopes] at h
        obtain ⟨moment, hreaches, hhalts⟩ :=
          Program.exists_reaches hscopes (Run.outcome_ofResult_eq_outOfFuel.mp h)
        exact hreaches.exists_exhausted hhalts
  · rintro ⟨moment, hreaches, hexhausted⟩
    obtain ⟨finish, hrun⟩ := hreaches.run_eq hchecked hexhausted.halts
    rw [hrun]
    rfl

end Scriptlet
