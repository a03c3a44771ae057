import Scriptlet.Host
import Scriptlet.Proofs.Ensures

/-! # Larger limits

The limit on nested calls and on rounds of a loop only ever cuts a run short. A run that ends before
the limit is reached is the same under every larger limit.
-/

namespace Scriptlet

variable {σ α β : Type}

namespace Eval

/-- From every machine the second step does what the first does, unless the first runs out of
fuel. -/
def Refines (step step' : Eval σ α) : Prop :=
  ∀ machine, step' machine = step machine ∨ ∃ finish, step machine = .error .outOfFuel finish

namespace Refines

theorem refl (step : Eval σ α) : Refines step step := fun _ => .inl rfl

theorem outOfFuel (step : Eval σ α) : Refines (throw .outOfFuel) step :=
  fun machine => .inr ⟨machine, rfl⟩

theorem bind {step step' : Eval σ α} {next next' : α → Eval σ β} (hstep : Refines step step')
    (hnext : ∀ result, Refines (next result) (next' result)) :
    Refines (step >>= next) (step' >>= next') := by
  intro machine
  rcases hstep machine with hsame | ⟨finish, hout⟩
  · cases hresult : step machine with
    | ok result middle =>
        rw [bind_of_ok hresult, bind_of_ok (hsame.trans hresult)]
        exact hnext result middle
    | error halt finish =>
        rw [bind_of_error hresult, bind_of_error (hsame.trans hresult)]
        exact .inl rfl
  · exact .inr ⟨finish, bind_of_error hout⟩

theorem within {enter leave : RunScopes σ → RunScopes σ} {step step' : Eval σ α}
    (h : Refines step step') : Refines (within enter leave step) (within enter leave step') := by
  intro machine
  unfold Eval.within
  rcases h { machine with scopes := enter machine.scopes } with hsame | ⟨finish, hout⟩
  · rw [hsame]
    exact .inl rfl
  · rw [hout]
    exact .inr ⟨_, rfl⟩

end Refines

/-! ## Expressions -/

variable (policy : Division) {call call' : String → List Value → Eval σ Value}

mutual

theorem expression_refines
    (hcall : ∀ name arguments, Refines (call name arguments) (call' name arguments)) :
    ∀ e : Expr, Refines (expression policy call e) (expression policy call' e)
  | .literal _ _ => by
      simp only [expression]
      exact .refl _
  | .group _ inner => by
      simp only [expression]
      exact expression_refines hcall inner
  | .binary _ operator left right => by
      simp only [expression]
      apply (expression_refines hcall left).bind
      intro first
      split
      · apply (Refines.refl _).bind
        intro truth
        split
        · exact .refl _
        · exact (expression_refines hcall right).bind fun _ => .refl _
      · exact (expression_refines hcall right).bind fun _ => .refl _
  | .access _ _ => by
      simp only [expression]
      exact .refl _
  | .element _ _ index => by
      simp only [expression]
      exact (expression_refines hcall index).bind fun _ => .refl _
  | .call _ name arguments => by
      simp only [expression]
      exact (expressions_refines hcall arguments).bind fun values => hcall name values
  | .list _ elements => by
      simp only [expression]
      exact (expressions_refines hcall elements).bind fun _ => .refl _

theorem expressions_refines
    (hcall : ∀ name arguments, Refines (call name arguments) (call' name arguments)) :
    ∀ es : List Expr, Refines (expressions policy call es) (expressions policy call' es)
  | [] => by
      simp only [expressions]
      exact .refl _
  | first :: rest => by
      simp only [expressions]
      apply (expression_refines hcall first).bind
      intro value
      exact (expressions_refines hcall rest).bind fun _ => .refl _

end

theorem condition_refines
    (hcall : ∀ name arguments, Refines (call name arguments) (call' name arguments)) (e : Expr) :
    Refines (condition policy call e) (condition policy call' e) :=
  (expression_refines policy hcall e).bind fun _ => .refl _

/-! ## Statements -/

/-- More rounds are allowed, and the test and the round themselves may get further. -/
theorem repeatWhile_refines {test test' : Eval σ Bool} {step step' : Eval σ Flow}
    (htest : Refines test test') (hstep : Refines step step') {limit limit' : Nat}
    (hlimit : limit ≤ limit') :
    Refines (repeatWhile test step limit) (repeatWhile test' step' limit') := by
  induction limit generalizing limit' with
  | zero => exact .outOfFuel _
  | succ limit ih =>
      obtain ⟨limit', rfl⟩ := Nat.exists_eq_add_one_of_ne_zero (Nat.ne_zero_of_lt hlimit)
      apply htest.bind
      intro holds
      cases holds with
      | false => exact .refl _
      | true =>
          apply hstep.bind
          intro flow
          cases flow with
          | next => exact ih (Nat.le_of_succ_le_succ hlimit)
          | returning value => exact .refl _

theorem initialValue_refines
    (hcall : ∀ name arguments, Refines (call name arguments) (call' name arguments))
    (initial : Option Expr) :
    Refines (initialValue policy call initial) (initialValue policy call' initial) := by
  cases initial with
  | some e => exact expression_refines policy hcall e
  | none => exact .refl _

theorem assignment_refines
    (hcall : ∀ name arguments, Refines (call name arguments) (call' name arguments))
    (receiver value : Expr) :
    Refines (assignment policy call receiver value) (assignment policy call' receiver value) := by
  cases receiver with
  | access id name => exact (expression_refines policy hcall value).bind fun _ => .refl _
  | element id name index =>
      apply (expression_refines policy hcall index).bind
      intro position
      exact (expression_refines policy hcall value).bind fun _ => .refl _
  | literal | group | binary | call | list => exact .refl _

variable {limit limit' : Nat}

mutual

theorem statement_refines
    (hcall : ∀ name arguments, Refines (call name arguments) (call' name arguments))
    (hlimit : limit ≤ limit') :
    ∀ s : Stmt, Refines (statement policy call limit s) (statement policy call' limit' s)
  | .expression value => by
      simp only [statement]
      exact (expression_refines policy hcall value).bind fun _ => .refl _
  | .declaration id name typeName initial => by
      simp only [statement]
      exact ((initialValue_refines policy hcall initial).bind fun _ => .refl _).bind
        fun _ => .refl _
  | .assignment receiver value => by
      simp only [statement]
      exact (assignment_refines policy hcall receiver value).bind fun _ => .refl _
  | .branch test thenBlock elseBlock => by
      simp only [statement]
      apply (condition_refines policy hcall test).bind
      intro holds
      split
      · exact (block_refines hcall hlimit thenBlock).within
      · exact (block_refines hcall hlimit elseBlock).within
  | .switch subject arms => by
      simp only [statement]
      apply Refines.within
      apply (expression_refines policy hcall subject).bind
      intro value
      exact cases_refines hcall hlimit value arms
  | .loop test body => by
      simp only [statement]
      exact repeatWhile_refines (condition_refines policy hcall test)
        (block_refines hcall hlimit body).within hlimit
  | .ret value => by
      simp only [statement]
      exact (expression_refines policy hcall value).bind fun _ => .refl _

theorem block_refines
    (hcall : ∀ name arguments, Refines (call name arguments) (call' name arguments))
    (hlimit : limit ≤ limit') :
    ∀ statements : List Stmt,
      Refines (block policy call limit statements) (block policy call' limit' statements)
  | [] => by
      simp only [block]
      exact .refl _
  | first :: rest => by
      simp only [block]
      apply (statement_refines hcall hlimit first).bind
      intro flow
      cases flow with
      | next => exact block_refines hcall hlimit rest
      | returning value => exact .refl _

theorem cases_refines
    (hcall : ∀ name arguments, Refines (call name arguments) (call' name arguments))
    (hlimit : limit ≤ limit') (subject : Value) :
    ∀ arms : List Case,
      Refines (cases policy call limit subject arms) (cases policy call' limit' subject arms)
  | [] => by
      simp only [cases]
      exact .refl _
  | .mk none body :: _ => by
      simp only [cases]
      exact (block_refines hcall hlimit body).within
  | .mk (some value) body :: rest => by
      simp only [cases]
      apply (expression_refines policy hcall value).bind
      intro value
      apply (Refines.refl _).bind
      intro machine
      split
      · exact (block_refines hcall hlimit body).within
      · exact cases_refines hcall hlimit subject rest

end

/-! ## Calls and programs -/

theorem call_refines (hlimit : limit ≤ limit') (name : String) (arguments : List Value) :
    Refines (Eval.call policy limit name arguments : Eval σ Value)
      (Eval.call policy limit' name arguments) := by
  induction limit generalizing limit' name arguments with
  | zero => exact .outOfFuel _
  | succ limit ih =>
      obtain ⟨limit', rfl⟩ := Nat.exists_eq_add_one_of_ne_zero (Nat.ne_zero_of_lt hlimit)
      have hlimit : limit ≤ limit' := Nat.le_of_succ_le_succ hlimit
      apply (Refines.refl _).bind
      intro machine
      -- Both calls find the same function, and only a body can tell the limits apart.
      split
      · exact .refl _
      · exact .refl _
      next f _ =>
        have hbody := block_refines policy (fun name arguments => ih hlimit name arguments) hlimit
          f.body
        exact ((Refines.refl _).bind fun _ => hbody).within.bind fun _ => .refl _

theorem global_refines (hlimit : limit ≤ limit') (g : Global) :
    Refines (global policy limit g : Eval σ Unit) (global policy limit' g) := by
  apply (Refines.refl _).bind
  intro ty
  exact (initialValue_refines policy (call_refines policy hlimit) g.initial).bind fun _ => .refl _

theorem each_refines {step step' : α → Eval σ Unit}
    (h : ∀ item, Refines (step item) (step' item)) (items : List α) :
    Refines (each step items) (each step' items) := by
  induction items with
  | nil => exact .refl _
  | cons first rest ih => exact (h first).bind fun _ => ih

theorem program_refines (hlimit : limit ≤ limit') (p : Program) :
    Refines (program policy limit p : Eval σ Value) (program policy limit' p) := by
  apply (each_refines (global_refines policy hlimit) p.globals).bind
  intro _
  exact (Refines.refl _).bind fun _ => call_refines policy hlimit "main" []

end Eval

theorem Run.outcome_ofResult_eq_outOfFuel {result : EStateM.Result Halt (Machine σ) Value} :
    (Run.ofResult result).outcome = .outOfFuel ↔
      ∃ finish, result = .error .outOfFuel finish := by
  constructor
  · intro h
    match result with
    | .ok _ _ => cases h
    | .error (.error _) _ => cases h
    | .error .outOfFuel finish => exact ⟨finish, rfl⟩
  · rintro ⟨finish, rfl⟩
    rfl

/-- A run that does not run out of fuel is the same under every larger limit. -/
theorem Program.run_eq_of_le (p : Program) (builtins : List (Builtin σ)) (policy : Division)
    (host : σ) {limit limit' : Nat} (hlimit : limit ≤ limit')
    (hends : (p.run builtins policy limit host).outcome ≠ .outOfFuel) :
    p.run builtins policy limit' host = p.run builtins policy limit host := by
  unfold Program.run at hends ⊢
  split
  · rfl
  next scopes hscopes =>
    simp only [hscopes] at hends
    rcases Eval.program_refines policy hlimit p ⟨scopes, .empty, host⟩ with hsame | hout
    · rw [hsame]
    · exact absurd (Run.outcome_ofResult_eq_outOfFuel.2 hout) hends

end Scriptlet
