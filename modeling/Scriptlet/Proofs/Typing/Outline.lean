import Scriptlet.Proofs.Ensures
import Scriptlet.Proofs.Scope.Outline
import Scriptlet.Typing.Statement

/-! # What checking leaves of the scopes

Checking an expression changes nothing about the scopes, whether it succeeds or fails. Of the
statements only a local declaration does, and only if it succeeds: it declares its variable in the
current frame.
-/

namespace Scriptlet.Check

variable {α β : Type}

/-- The check leaves the scopes as they are, however it ends. -/
def Steady (check : Check α) : Prop :=
  ∀ typing, Ensures check typing (fun _ finish => finish.scopes = typing.scopes)
    fun _ finish => finish.scopes = typing.scopes

/-- The check at most declares variables in the current frame, however it ends. -/
def Growing (check : Check α) : Prop :=
  ∀ typing, Ensures check typing (fun _ finish => typing.scopes.Grows finish.scopes)
    fun _ finish => typing.scopes.Grows finish.scopes

namespace Steady

theorem pure (result : α) : Steady (pure result) := fun _ => rfl

theorem throw (cause : Cause) : Steady (throw cause : Check α) := fun _ => rfl

theorem lift (result : Except Cause α) : Steady (lift result) := by
  cases result with
  | ok _ => exact pure _
  | error _ => exact throw _

theorem bind {check : Check α} {next : α → Check β} (hcheck : Steady check)
    (hnext : ∀ result, Steady (next result)) : Steady (check >>= next) := by
  intro typing
  exact (hcheck typing).bind_trans hnext fun hfirst hsecond => hsecond.trans hfirst

theorem get_bind {next : Typing → Check β} (hnext : ∀ typing, Steady (next typing)) :
    Steady (get >>= next) :=
  fun typing => hnext typing typing

theorem record (change : Annotations → Annotations) : Steady (record change) := fun _ => rfl

theorem growing {check : Check α} (h : Steady check) : Growing check := by
  intro typing
  exact (h typing).weaken (fun _ _ heq => heq ▸ .refl) fun _ _ heq => heq ▸ .refl

end Steady

namespace Growing

theorem bind {check : Check α} {next : α → Check β} (hcheck : Growing check)
    (hnext : ∀ result, Growing (next result)) : Growing (check >>= next) := by
  intro typing
  exact (hcheck typing).bind_trans hnext Scopes.Grows.trans

/-- What a check declares in a frame of its own is gone after it. -/
theorem within {check : Check α} {enter leave : StaticScopes → StaticScopes} (h : Growing check)
    (hleave : ∀ {scopes finish}, (enter scopes).Grows finish → leave finish = scopes) :
    Steady (within enter leave check) := by
  intro typing
  have hinside := h { typing with scopes := enter typing.scopes }
  unfold Ensures at hinside ⊢
  unfold Check.within
  split at hinside
  next hok =>
    simp only [hok]
    exact hleave hinside
  next herror =>
    simp only [herror]
    exact hleave hinside

theorem inBlock {check : Check α} (h : Growing check) : Steady (inBlock check) :=
  h.within Scopes.Grows.leaveBlock_eq

theorem inFunction {check : Check α} (h : Growing check) : Steady (inFunction check) :=
  h.within Scopes.Grows.leaveFunction_eq

end Growing

/-! ## Expressions -/

theorem visibleVariable_steady (id : NodeId) (name : String) :
    Steady (visibleVariable id name) := by
  apply Steady.get_bind
  intro typing
  split
  · exact .throw _
  · exact (Steady.record _).bind fun _ => .pure _

theorem fits_steady (elementType : Option Ty) (ty : Ty) : Steady (fits elementType ty) := by
  cases elementType with
  | some target => exact .lift _
  | none => exact .pure _

mutual

theorem expression_steady : ∀ e : Expr, Steady (expression e)
  | .literal _ _ => by
      simp only [expression]
      exact (Steady.lift _).bind fun _ => (Steady.record _).bind fun _ => .pure _
  | .group _ inner => by
      simp only [expression]
      split
      · exact (expression_steady inner).bind fun _ => (Steady.record _).bind fun _ => .pure _
      · exact .throw _
  | .binary _ _ left right => by
      simp only [expression]
      apply (expression_steady left).bind
      intro leftType
      apply (expression_steady right).bind
      intro rightType
      exact (Steady.lift _).bind fun _ => (Steady.record _).bind fun _ => .pure _
  | .access id name => by
      simp only [expression]
      apply (visibleVariable_steady id name).bind
      intro info
      exact (Steady.record _).bind fun _ => .pure _
  | .element id name index => by
      simp only [expression]
      apply (visibleVariable_steady id name).bind
      intro info
      apply (expression_steady index).bind
      intro indexType
      apply (Steady.lift _).bind
      intro _
      split
      · exact (Steady.record _).bind fun _ => .pure _
      · exact .throw _
  | .call _ _ arguments => by
      simp only [expression]
      apply Steady.get_bind
      intro typing
      split
      · exact .throw _
      · apply (passed_steady arguments _).bind
        intro _
        exact (Steady.record _).bind fun _ => (Steady.record _).bind fun _ => .pure _
  | .list _ elements => by
      simp only [expression]
      apply (held_steady none elements).bind
      intro _
      exact (Steady.record _).bind fun _ => .pure _

theorem passed_steady : ∀ (arguments : List Expr) (parameters : List Ty),
    Steady (passed arguments parameters)
  | [], parameters => by
      simp only [passed]
      exact .pure _
  | _ :: _, [] => by
      simp only [passed]
      exact .pure _
  | argument :: arguments, parameter :: parameters => by
      simp only [passed]
      apply (expression_steady argument).bind
      intro ty
      exact (Steady.lift _).bind fun _ => passed_steady arguments parameters

theorem held_steady (elementType : Option Ty) : ∀ elements : List Expr,
    Steady (held elementType elements)
  | [] => by
      simp only [held]
      exact .pure _
  | element :: elements => by
      simp only [held]
      apply (expression_steady element).bind
      intro ty
      exact (fits_steady elementType ty).bind fun _ => held_steady elementType elements

end

/-! ## Statements -/

theorem condition_steady (e : Expr) : Steady (condition e) :=
  (expression_steady e).bind fun _ => .lift _

theorem givenType_steady (initial : Option Expr) : Steady (givenType initial) := by
  cases initial with
  | some e => exact (expression_steady e).bind fun _ => .pure _
  | none => exact .pure _

theorem declaredType_steady (typeName : Option String) : Steady (declaredType typeName) := by
  cases typeName with
  | some name => exact (Steady.lift _).bind fun _ => .pure _
  | none => exact .pure _

theorem assignment_steady (receiver value : Expr) : Steady (assignment receiver value) := by
  unfold assignment
  split
  · apply (expression_steady _).bind
    intro target
    exact (expression_steady value).bind fun _ => .lift _
  · apply (expression_steady _).bind
    intro target
    exact (expression_steady value).bind fun _ => .lift _
  · exact .throw _

theorem armValue_steady (subject : Ty) (value : Option Expr) :
    Steady (armValue subject value) := by
  cases value with
  | some e => exact (expression_steady e).bind fun _ => .lift _
  | none => exact .pure _

/-- A local variable is declared in the current frame, or nothing has changed. -/
theorem declaration_outline (id : NodeId) (name : String) (typeName : Option String)
    (initial : Option Expr) (typing : Typing) :
    Ensures (declaration id name typeName initial) typing
      (fun _ finish => ∃ info, typing.scopes.declareVariable name info = .ok finish.scopes)
      fun _ finish => finish.scopes = typing.scopes := by
  apply (declaredType_steady typeName typing).bind
  intro declared t1 h1
  apply Ensures.bind ((givenType_steady initial t1).weaken (fun _ _ h => h.trans h1)
    fun _ _ h => h.trans h1)
  intro given t2 h2
  apply Ensures.bind ((Steady.lift (localType name declared given) t2).weaken
    (fun _ _ h => h.trans h2) fun _ _ h => h.trans h2)
  intro ty t3 h3
  apply Ensures.bind ((Steady.record _ t3).weaken (fun _ _ h => h.trans h3)
    fun _ _ h => h.trans h3)
  intro _ t4 h4
  apply Ensures.get_bind
  rw [← h4]
  cases hdeclare : t4.scopes.declareVariable name
      { ty, mutable := true, isList := false, origin := .declaration id } with
  | ok scopes => exact ⟨_, hdeclare⟩
  | error cause => exact rfl

/-- What a statement that passes adds to the scopes: a declaration one variable, all others
nothing. -/
def Declares (statement : Stmt) (before after : StaticScopes) : Prop :=
  match statement with
  | .declaration _ name _ _ => ∃ info, before.declareVariable name info = .ok after
  | _ => after = before

theorem Declares.grows {statement : Stmt} {before after : StaticScopes}
    (h : Declares statement before after) : before.Grows after := by
  unfold Declares at h
  split at h
  · obtain ⟨info, hdeclare⟩ := h
    exact .declare .refl hdeclare
  · exact h ▸ .refl

mutual

/-- A statement that passes adds to the scopes what it declares, and one that fails nothing. -/
theorem statement_outline : ∀ (s : Stmt) (typing : Typing),
    Ensures (statement s) typing
      (fun _ finish => Declares s typing.scopes finish.scopes)
      fun _ finish => finish.scopes = typing.scopes
  | .expression value, typing => by
      simp only [statement]
      exact ((expression_steady value).bind fun _ => .pure _) typing
  | .declaration id name typeName initial, typing => by
      simp only [statement]
      exact declaration_outline id name typeName initial typing
  | .assignment receiver value, typing => by
      simp only [statement]
      exact assignment_steady receiver value typing
  | .branch test thenBlock elseBlock, typing => by
      simp only [statement]
      refine ((condition_steady test).bind fun _ => ?_) typing
      split
      · exact .throw _
      · apply (block_growing thenBlock).inBlock.bind
        intro _
        exact (block_growing elseBlock).inBlock
  | .switch subject arms, typing => by
      simp only [statement]
      refine ((expression_steady subject).bind fun ty => ?_) typing
      split
      · exact cases_steady ty arms
      · exact .throw _
  | .loop test body, typing => by
      simp only [statement]
      exact ((condition_steady test).bind fun _ => (block_growing body).inBlock) typing
  | .ret value, typing => by
      simp only [statement]
      exact ((expression_steady value).bind fun _ => .get_bind fun _ => .lift _) typing

/-- A block grows the current frame and nothing else. -/
theorem block_growing : ∀ statements : List Stmt, Growing (block statements)
  | [] => by
      simp only [block]
      exact (Steady.pure _).growing
  | first :: rest => by
      simp only [block]
      have hfirst : Growing (statement first) := fun typing =>
        (statement_outline first typing).weaken (fun _ _ h => h.grows) fun _ _ h => h ▸ .refl
      exact hfirst.bind fun _ => block_growing rest

theorem cases_steady (subject : Ty) : ∀ arms : List Case, Steady (cases subject arms)
  | [] => by
      simp only [cases]
      exact .pure _
  | .mk value body :: rest => by
      simp only [cases]
      apply (armValue_steady subject value).bind
      intro _
      exact (block_growing body).inBlock.bind fun _ => cases_steady subject rest

end

end Scriptlet.Check
