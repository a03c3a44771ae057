import Scriptlet.Proofs.Ensures
import Scriptlet.Syntax.Parse.Program

/-! # Causes of errors in reading

Reading tokens fails because one of them stands where it should not, or because a literal among them
has no meaning. There is no other cause.
-/

namespace Scriptlet

/-- A token that stands where it should not, or that is missing. -/
inductive Cause.OfOrder : Cause → Prop
  | token {token expected : String} : OfOrder (.unexpectedToken token expected)
  | finish {expected : String} : OfOrder (.unexpectedEnd expected)
  | comma : OfOrder .trailingComma
  | default : OfOrder .misplacedDefault

namespace Parse

variable {α β : Type}

/-- The step reads tokens from the front. Where it fails, the cause is one of order or that of a
literal among the tokens. -/
def Explains (step : Parse α) : Prop :=
  ∀ start, Ensures step start (fun _ finish => finish.tokens <:+ start.tokens)
    fun error _ => error.cause.OfOrder ∨ ∃ token ∈ start.tokens, token.literal = .error error.cause

namespace Explains

variable {step : Parse α} {next : α → Parse β}

theorem pure (result : α) : Explains (pure result) :=
  fun _ => List.suffix_rfl

theorem bind (hstep : Explains step) (hnext : ∀ result, Explains (next result)) :
    Explains (step >>= next) := by
  intro start
  apply (hstep start).bind
  intro result middle hmiddle
  refine (hnext result middle).weaken ?_ ?_
  · intro _ finish hfinish
    exact hfinish.trans hmiddle
  · intro error _ herror
    rcases herror with horder | ⟨token, htoken, hliteral⟩
    · exact .inl horder
    · exact .inr ⟨token, hmiddle.subset htoken, hliteral⟩

theorem get_bind {next : Cursor → Parse β} (h : ∀ cursor, Explains (next cursor)) :
    Explains (MonadState.get >>= next) :=
  fun start => (h start start).get_bind

theorem bounded {step : Nat → Parse α} (h : ∀ limit, Explains (step limit)) :
    Explains (bounded step) :=
  fun start => h _ start

theorem failWith {cause : Cause} (h : cause.OfOrder) : Explains (failWith cause : Parse α) :=
  fun _ => .inl h

theorem fail (expected : String) : Explains (fail expected : Parse α) := by
  intro start
  left
  unfold Cursor.unexpected
  split
  · exact .finish
  · exact .token

theorem throw {error : Error} (h : error.cause.OfOrder) : Explains (throw error : Parse α) :=
  fun _ => .inl h

end Explains

theorem advance_ensures (expected : String) (start : Cursor) :
    Ensures (advance expected) start
      (fun token finish => start.tokens = token :: finish.tokens)
      fun error _ => error.cause.OfOrder := by
  obtain ⟨tokens, finish, id⟩ := start
  cases tokens with
  | nil => exact .finish
  | cons token rest => rfl

theorem advance_explains (expected : String) : Explains (advance expected) := by
  intro start
  refine (advance_ensures expected start).weaken ?_ ?_
  · intro token finish htokens
    rw [htokens]
    exact List.suffix_cons token _
  · intro error _ horder
    exact .inl horder

theorem freshId_explains : Explains freshId :=
  fun _ => List.suffix_rfl

theorem numbered_explains (result : NodeId → α) :
    Explains (do let id ← freshId; return result id) :=
  freshId_explains.bind fun id => .pure (result id)

theorem tryOperator_explains (symbol : String) : Explains (tryOperator symbol) := by
  apply Explains.get_bind
  intro cursor
  split
  · exact (advance_explains _).bind fun _ => .pure true
  · exact .pure false

theorem tryKeyword_explains (keyword : Keyword) (expected : String) :
    Explains (tryKeyword keyword expected) := by
  apply Explains.get_bind
  intro cursor
  split
  · exact (advance_explains _).bind fun _ => .pure true
  · exact .pure false

theorem expectOperator_explains (symbol : String) : Explains (expectOperator symbol) := by
  apply Explains.get_bind
  intro cursor
  split
  · exact advance_explains _
  · exact .fail _

theorem expectKeyword_explains (keyword : Keyword) (expected : String) :
    Explains (expectKeyword keyword expected) := by
  apply Explains.get_bind
  intro cursor
  split
  · exact advance_explains _
  · exact .fail _

theorem expectName_explains (expected : String) : Explains (expectName expected) := by
  apply Explains.get_bind
  intro cursor
  split
  · exact (advance_explains _).bind fun token => .pure token.text
  · exact .fail _

theorem toEnd_explains {step : Parse α} (hstep : Explains step) (expected : String) :
    Explains (step.toEnd expected) := by
  apply hstep.bind
  intro result
  apply Explains.get_bind
  intro cursor
  split
  · exact .pure _
  · exact .fail _

section

variable {item : Parse α} (hitem : Explains item)

include hitem

theorem separated_explains (closing : String) (limit : Nat) :
    Explains (separated item closing limit) := by
  induction limit with
  | zero => exact .fail _
  | succ limit ih =>
      apply hitem.bind
      intro first
      apply (tryOperator_explains ",").bind
      intro more
      split
      · apply Explains.get_bind
        intro cursor
        split
        · exact .failWith .comma
        · exact ih.bind fun rest => .pure _
      · exact (expectOperator_explains closing).bind fun _ => .pure _

theorem whileAt_explains (test : Cursor → Bool) (limit : Nat) :
    Explains (whileAt test item limit) := by
  induction limit with
  | zero => exact .fail _
  | succ limit ih =>
      apply Explains.get_bind
      intro cursor
      split
      · apply hitem.bind
        intro first
        exact ih.bind fun rest => .pure _
      · exact .pure _

end

theorem typeAnnotation_explains : Explains typeAnnotation := by
  apply (tryOperator_explains ":").bind
  intro more
  split
  · exact (expectName_explains _).bind fun name => .pure _
  · exact .pure _

/-! ## Expressions -/

/-- The only step with a cause of its own: that of the literal it reads. -/
theorem literal_explains : Explains literal := by
  intro start
  apply ((advance_ensures "a literal" start).weaken (fun _ _ h => h) fun _ _ h => .inl h).bind
  intro token finish htokens
  cases hliteral : token.literal with
  | ok value =>
      refine (numbered_explains (fun id => Expr.literal id value) finish).weaken ?_ ?_
      · intro _ last hlast
        rw [htokens]
        exact hlast.trans (List.suffix_cons token _)
      · rintro error _ (horder | ⟨other, hother, hcause⟩)
        · exact .inl horder
        · exact .inr ⟨other, htokens ▸ List.mem_cons_of_mem token hother, hcause⟩
  | error cause => exact .inr ⟨token, htokens ▸ List.mem_cons_self, hliteral⟩

section

variable {nested : Precedence → Parse Expr} (hnested : ∀ level, Explains (nested level))

include hnested

theorem group_explains : Explains (group nested) := by
  apply Explains.get_bind
  intro cursor
  split
  · apply (advance_explains _).bind
    intro _
    apply (hnested .lowest).bind
    intro inner
    apply (expectOperator_explains ")").bind
    intro _
    exact numbered_explains _
  · exact .fail _

theorem arguments_explains (limit : Nat) : Explains (arguments nested limit) := by
  apply (tryOperator_explains ")").bind
  intro none
  split
  · exact .pure _
  · exact separated_explains (hnested .lowest) ")" limit

theorem reference_explains (limit : Nat) : Explains (reference nested limit) := by
  apply (expectName_explains _).bind
  intro name
  apply (tryOperator_explains "(").bind
  intro call
  split
  · apply (arguments_explains hnested limit).bind
    intro arguments
    exact numbered_explains _
  · apply (tryOperator_explains "[").bind
    intro element
    split
    · apply (hnested .lowest).bind
      intro index
      apply (expectOperator_explains "]").bind
      intro _
      exact numbered_explains _
    · exact numbered_explains _

theorem word_explains (limit : Nat) : Explains (word nested limit) := by
  apply Explains.get_bind
  intro cursor
  split
  · exact reference_explains hnested limit
  · split
    · exact .fail _
    · apply (advance_explains _).bind
      intro _
      exact numbered_explains _

theorem operand_explains (limit : Nat) : Explains (operand nested limit) := by
  apply Explains.get_bind
  intro cursor
  split
  · exact .fail _
  · exact word_explains hnested limit
  · exact group_explains hnested
  · exact literal_explains

theorem binary_explains (left : Expr) (level : Precedence) :
    Explains (binary nested left level) := by
  apply (advance_explains _).bind
  intro token
  split
  · exact .throw .token
  · apply (hnested level).bind
    intro right
    exact numbered_explains _

theorem operators_explains (level : Precedence) (limit : Nat) (left : Expr) :
    Explains (operators nested level limit left) := by
  induction limit generalizing left with
  | zero => exact .fail _
  | succ limit ih =>
      apply Explains.get_bind
      intro cursor
      split
      · exact .pure _
      · split
        · apply (binary_explains hnested left _).bind
          intro left
          exact ih left
        · exact .pure _

end

theorem expression_explains (limit : Nat) (level : Precedence) :
    Explains (expression limit level) := by
  induction limit generalizing level with
  | zero => exact .fail _
  | succ limit ih =>
      apply (operand_explains ih limit).bind
      intro left
      exact operators_explains ih level limit left

theorem expr_explains (level : Precedence) : Explains (expr level) :=
  .bounded fun limit => expression_explains limit level

/-! ## Statements -/

theorem optionalValue_explains : Explains optionalValue := by
  apply (tryOperator_explains "=").bind
  intro more
  split
  · exact (expr_explains .lowest).bind fun value => .pure _
  · exact .pure _

theorem declaration_explains : Explains declaration := by
  apply (expectKeyword_explains .LET _).bind
  intro _
  apply (expectName_explains _).bind
  intro name
  apply typeAnnotation_explains.bind
  intro typeName
  apply optionalValue_explains.bind
  intro initial
  apply (expectOperator_explains ";").bind
  intro _
  exact numbered_explains _

theorem returning_explains : Explains returning := by
  apply (expectKeyword_explains .RETURN _).bind
  intro _
  apply (expr_explains .lowest).bind
  intro value
  exact (expectOperator_explains ";").bind fun _ => .pure _

theorem simple_explains : Explains simple := by
  apply (expr_explains .lowest).bind
  intro receiver
  apply (tryOperator_explains "=").bind
  intro assigns
  split
  · apply (expr_explains .lowest).bind
    intro value
    exact (expectOperator_explains ";").bind fun _ => .pure _
  · exact (expectOperator_explains ";").bind fun _ => .pure _

section

variable {nested : Parse (List Stmt)} (hnested : Explains nested)

include hnested

theorem arms_explains (limit : Nat) : Explains (arms nested limit) := by
  induction limit with
  | zero => exact .fail _
  | succ limit ih =>
      apply (tryKeyword_explains .CASE _).bind
      intro more
      split
      · apply (expr_explains .lowest).bind
        intro value
        apply (expectOperator_explains ":").bind
        intro _
        apply hnested.bind
        intro body
        exact ih.bind fun rest => .pure _
      · exact .pure _

theorem switch_explains (limit : Nat) : Explains (switch nested limit) := by
  apply (expectKeyword_explains .SWITCH _).bind
  intro _
  apply (expr_explains .lowest).bind
  intro condition
  apply (arms_explains hnested limit).bind
  intro arms
  apply (tryKeyword_explains .DEFAULT _).bind
  intro default
  split
  · apply hnested.bind
    intro body
    apply Explains.get_bind
    intro cursor
    split
    · exact .failWith .default
    · exact (expectKeyword_explains .END _).bind fun _ => .pure _
  · exact .failWith .default

theorem alternative_explains : Explains (alternative nested) := by
  apply (tryKeyword_explains .ELSE _).bind
  intro more
  split
  · exact hnested
  · exact .pure _

theorem branch_explains : Explains (branch nested) := by
  apply (expectKeyword_explains .IF _).bind
  intro _
  apply (expr_explains .lowest).bind
  intro condition
  apply (expectKeyword_explains .DO _).bind
  intro _
  apply hnested.bind
  intro thenBlock
  apply (alternative_explains hnested).bind
  intro elseBlock
  exact (expectKeyword_explains .END _).bind fun _ => .pure _

theorem loop_explains : Explains (loop nested) := by
  apply (expectKeyword_explains .WHILE _).bind
  intro _
  apply (expr_explains .lowest).bind
  intro condition
  apply (expectKeyword_explains .DO _).bind
  intro _
  apply hnested.bind
  intro body
  exact (expectKeyword_explains .END _).bind fun _ => .pure _

theorem statement_explains (limit : Nat) : Explains (statement nested limit) := by
  apply Explains.get_bind
  intro cursor
  split
  · exact declaration_explains
  · exact switch_explains hnested limit
  · exact branch_explains hnested
  · exact loop_explains hnested
  · exact returning_explains
  · exact simple_explains

end

theorem statements_explains (limit : Nat) : Explains (statements limit) := by
  induction limit with
  | zero => exact .fail _
  | succ limit ih =>
      apply Explains.get_bind
      intro cursor
      split
      · exact .pure _
      · apply (statement_explains ih limit).bind
        intro first
        exact ih.bind fun rest => .pure _

theorem block_explains : Explains block :=
  .bounded statements_explains

/-! ## Programs -/

theorem elements_explains : Explains elements := by
  apply (Explains.bounded (separated_explains (expr_explains .lowest) "]")).bind
  intro elements
  exact numbered_explains _

theorem initial_explains (isList : Bool) : Explains (initial isList) := by
  cases isList with
  | false => exact optionalValue_explains
  | true =>
      apply (expectOperator_explains "=").bind
      intro _
      apply (expectOperator_explains "[").bind
      intro _
      exact elements_explains.bind fun value => .pure _

theorem global_explains : Explains global := by
  apply Explains.get_bind
  intro cursor
  apply (advance_explains _).bind
  intro _
  apply (expectName_explains _).bind
  intro name
  apply (expectOperator_explains ":").bind
  intro _
  apply (expectName_explains _).bind
  intro typeName
  apply (initial_explains _).bind
  intro initial
  apply (expectOperator_explains ";").bind
  intro _
  exact numbered_explains _

theorem parameter_explains : Explains parameter := by
  apply (expectName_explains _).bind
  intro name
  apply (expectOperator_explains ":").bind
  intro _
  exact (expectName_explains _).bind fun typeName => .pure _

theorem parameters_explains : Explains parameters := by
  apply (tryOperator_explains ")").bind
  intro none
  split
  · exact .pure _
  · exact .bounded (separated_explains parameter_explains ")")

theorem function_explains : Explains function := by
  apply (expectKeyword_explains .FUN _).bind
  intro _
  apply (expectName_explains _).bind
  intro name
  apply (expectOperator_explains "(").bind
  intro _
  apply parameters_explains.bind
  intro parameters
  apply typeAnnotation_explains.bind
  intro returnType
  apply (expectKeyword_explains .DO _).bind
  intro _
  apply block_explains.bind
  intro body
  apply (expectKeyword_explains .END _).bind
  intro _
  exact numbered_explains _

theorem program_explains : Explains program := by
  apply (Explains.bounded (whileAt_explains global_explains atGlobal)).bind
  intro globals
  apply (Explains.bounded (whileAt_explains function_explains _)).bind
  intro functions
  split
  · exact .fail _
  · apply Explains.get_bind
    intro cursor
    split
    · exact .pure _
    · exact .fail _

/-- Reading a sequence of tokens fails for a cause of order, or for that of a literal in it. -/
theorem Explains.of_run {step : Parse α} (hstep : Explains step) {tokens : List Token}
    {error : Error} (h : step.run tokens = .error error) :
    error.cause.OfOrder ∨ ∃ token ∈ tokens, token.literal = .error error.cause := by
  have hensures := hstep (Cursor.start tokens)
  unfold run at h
  split at h
  · cases h
  next hrun =>
    cases h
    exact hensures.of_error hrun

end Parse

end Scriptlet
