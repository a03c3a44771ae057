import Scriptlet.Proofs.Syntax.Reading

/-! # Reading expressions is sound

An expression is read from exactly the tokens it is written with. Two facts about where reading
stops give the precedence of its operators: inside an expression that is read at some level every
operator outside parentheses binds tighter than the level, and the operator that stands behind it,
if there is one, does not.
-/

namespace Scriptlet

theorem Operator.symbol_of_ofSymbol? {text : String} {operator : Operator}
    (h : Operator.ofSymbol? text = some operator) : text = operator.symbol := by
  unfold Operator.ofSymbol? at h
  split at h <;> cases h <;> rfl

namespace Parse

/-- From `start` to `finish` the expression is read, and it is well formed. -/
structure ExprRead (start : Cursor) (e : Expr) (finish : Cursor) : Prop where
  read : ∃ tokens, Reads start tokens e.nodes finish ∧ e.Written tokens
  wellFormed : e.WellFormed

/-- The expression is read as far as operators bind tighter than the level. -/
structure LevelRead (level : Precedence) (start : Cursor) (e : Expr) (finish : Cursor) : Prop
    extends ExprRead start e finish where
  tighter : ∀ inner ∈ e.operator?, level.rank < inner.precedence.rank
  stopped : ∀ behind ∈ nextOperator? finish, behind.precedence.rank ≤ level.rank

theorem literal_gives (start : Cursor) :
    Gives literal start fun e finish => ExprRead start e finish ∧ e.operator? = none := by
  refine (advance_gives _ start).bind fun token middle h => ?_
  split
  next value hvalue =>
    refine freshId_gives ⟨⟨⟨[token], ?_, .literal hvalue⟩, .literal⟩, rfl⟩
    exact h.2.trans (.number (.expression _) rfl)
  · exact throw_gives

section

variable {nested : Precedence → Parse Expr}

/-- The reader of nested expressions reads them as far as their level reaches. -/
def ReadsLevels (nested : Precedence → Parse Expr) : Prop :=
  ∀ level start, Gives (nested level) start fun e finish => LevelRead level start e finish

theorem ReadsLevels.reading (hnested : ReadsLevels nested) (level : Precedence) :
    Reading (nested level) Expr.Written Expr.nodes Expr.WellFormed := by
  intro start
  exact (hnested level start).imp fun e finish h => ⟨h.read, h.wellFormed⟩

theorem group_gives (hnested : ReadsLevels nested) (start : Cursor) :
    Gives (group nested) start fun e finish => ExprRead start e finish ∧ e.operator? = none := by
  apply Ensures.get_bind
  split
  next hat =>
    refine (advance_gives _ start).bind fun opening middle hopening => ?_
    refine (hnested .lowest middle).bind fun inner after hinner => ?_
    refine (expectOperator_gives ")" after).bind fun closing last hclosing => ?_
    obtain ⟨tokens, hreads, hwritten⟩ := hinner.read
    have hbracket := (Cursor.tells_atOperator "(").of_head hat hopening.1
    refine freshId_gives ⟨⟨⟨_, ?_, .group hbracket hwritten hclosing.1⟩,
      .group hinner.wellFormed⟩, rfl⟩
    exact ((hopening.2.trans hreads).trans (hclosing.2.trans
      (.number (.expression (.group last.nextId inner)) rfl))).cast
        (by simp) (by simp [Expr.nodes])
  · exact fail_gives

/-- The arguments of a call are read with the bracket that closes them. -/
theorem arguments_gives (hnested : ReadsLevels nested) (limit : Nat) (start : Cursor) :
    Gives (arguments nested limit) start fun es finish =>
      (∃ tokens bracket, (es = [] ∧ tokens = [] ∨ Separated Expr.Written es tokens) ∧
        Token.IsOperator ")" bracket ∧
        Reads start (tokens ++ [bracket]) (es.flatMap Expr.nodes) finish) ∧
      ∀ e ∈ es, e.WellFormed := by
  refine tryOperator_gives ?_ ?_
  · intro bracket finish hbracket hread
    exact Ensures.pure ⟨⟨[], bracket, .inl ⟨rfl, rfl⟩, hbracket, hread⟩, by simp⟩
  · refine (separated_gives (hnested.reading .lowest) ")" limit start).imp fun es finish h => ?_
    obtain ⟨⟨tokens, bracket, hwritten, hbracket, hread⟩, -, hvalid⟩ := h
    exact ⟨⟨tokens, bracket, .inr hwritten, hbracket, hread⟩, hvalid⟩

theorem reference_gives (hnested : ReadsLevels nested) (limit : Nat) (start : Cursor) :
    Gives (reference nested limit) start fun e finish =>
      ExprRead start e finish ∧ e.operator? = none := by
  refine (expectName_gives _ start).bind fun name middle hname => ?_
  obtain ⟨token, htoken, hread⟩ := hname
  refine tryOperator_gives ?_ (tryOperator_gives ?_ ?_)
  · intro opening after hopening hbracket
    refine (arguments_gives hnested limit after).bind fun es last h => ?_
    obtain ⟨⟨tokens, closing, hwritten, hclosing, hmore⟩, hvalid⟩ := h
    have hreads := ((hread.trans hbracket).trans hmore).trans
      (.number (.expression (.call last.nextId name es)) rfl)
    rcases hwritten with ⟨rfl, rfl⟩ | hwritten
    · refine freshId_gives ⟨⟨⟨_, ?_, .callEmpty htoken hopening hclosing⟩,
        .call htoken.2.2 hvalid⟩, rfl⟩
      exact hreads.cast rfl rfl
    · refine freshId_gives ⟨⟨⟨_, ?_, .call htoken hopening hwritten hclosing⟩,
        .call htoken.2.2 hvalid⟩, rfl⟩
      exact hreads.cast (by simp) (by simp [Expr.nodes, Expr.listNodes_eq_flatMap])
  · intro opening after hopening hbracket
    refine (hnested .lowest after).bind fun index inside hindex => ?_
    refine (expectOperator_gives "]" inside).bind fun closing last hclosing => ?_
    obtain ⟨tokens, hmore, hwritten⟩ := hindex.read
    refine freshId_gives ⟨⟨⟨_, ?_, .element htoken hopening hwritten hclosing.1⟩,
      .element htoken.2.2 hindex.wellFormed⟩, rfl⟩
    exact (((hread.trans hbracket).trans hmore).trans (hclosing.2.trans
      (.number (.expression (.element last.nextId name index)) rfl))).cast
        (by simp) (by simp [Expr.nodes])
  · refine freshId_gives ⟨⟨⟨_, ?_, .access htoken⟩, .access htoken.2.2⟩, rfl⟩
    exact hread.trans (.number (.expression _) rfl)

theorem word_gives (hnested : ReadsLevels nested) (limit : Nat) (start : Cursor) :
    Gives (word nested limit) start fun e finish =>
      ExprRead start e finish ∧ e.operator? = none := by
  apply Ensures.get_bind
  split
  · exact reference_gives hnested limit start
  next keyword hkeyword =>
    split
    · exact fail_gives
    next value hvalue =>
      refine (advance_gives _ start).bind fun token middle h => ?_
      rw [h.1] at hkeyword
      refine freshId_gives ⟨⟨⟨[token], ?_, .word hkeyword hvalue⟩, .literal⟩, rfl⟩
      exact h.2.trans (.number (.expression _) rfl)

theorem operand_gives (hnested : ReadsLevels nested) (limit : Nat) (start : Cursor) :
    Gives (operand nested limit) start fun e finish =>
      ExprRead start e finish ∧ e.operator? = none := by
  apply Ensures.get_bind
  split
  · exact fail_gives
  · exact word_gives hnested limit start
  · exact group_gives hnested start
  · exact literal_gives start

/-- The next token, if it is an operator, is the one with the symbol of that operator. -/
theorem isOperator_of_nextOperator? {cursor : Cursor} {operator : Operator} {token : Token}
    (hnext : nextOperator? cursor = some operator) (hhead : cursor.tokens.head? = some token) :
    token.IsOperator operator.symbol ∧ Operator.ofSymbol? token.text = some operator := by
  unfold nextOperator? at hnext
  split at hnext
  · cases hnext
  next htokens =>
    rw [htokens] at hhead
    cases hhead
    split at hnext
    next hkind => exact ⟨⟨hkind, Operator.symbol_of_ofSymbol? hnext⟩, hnext⟩
    · cases hnext

/-- An operation is read from its left operand on, if no operator of the operand is looser than
the one that stands behind it. -/
theorem binary_gives (hnested : ReadsLevels nested) {start middle : Cursor} {left : Expr}
    {operator : Operator} (hleft : ExprRead start left middle)
    (hoperator : nextOperator? middle = some operator)
    (htighter : ∀ inner ∈ left.operator?, operator.precedence.rank ≤ inner.precedence.rank) :
    Gives (binary nested left operator.precedence) middle fun e finish =>
      ExprRead start e finish ∧ e.operator? = some operator ∧
        ∀ behind ∈ nextOperator? finish, behind.precedence.rank ≤ operator.precedence.rank := by
  refine (advance_gives _ middle).bind fun sign after hsign => ?_
  obtain ⟨hsymbol, hsame⟩ := isOperator_of_nextOperator? hoperator hsign.1
  rw [hsame]
  refine (hnested _ after).bind fun right last hright => ?_
  obtain ⟨tokens, hreads, hwritten⟩ := hleft.read
  obtain ⟨others, hmore, hothers⟩ := hright.read
  refine freshId_gives ⟨⟨⟨_, ?_, .binary hwritten hsymbol hothers⟩,
    .binary hleft.wellFormed hright.wellFormed htighter hright.tighter⟩, rfl, hright.stopped⟩
  exact (((hreads.trans hsign.2).trans hmore).trans
    (.number (.expression (.binary last.nextId operator left right)) rfl)).cast
      (by simp) (by simp [Expr.nodes])

/-- Folding operators to the left keeps that the operator behind the expression is not tighter than
the expression's own. -/
theorem operators_gives (hnested : ReadsLevels nested) (level : Precedence) (limit : Nat)
    {start middle : Cursor} {left : Expr} (hleft : ExprRead start left middle)
    (htighter : ∀ inner ∈ left.operator?, level.rank < inner.precedence.rank)
    (hbehind : ∀ inner ∈ left.operator?, ∀ behind ∈ nextOperator? middle,
      behind.precedence.rank ≤ inner.precedence.rank) :
    Gives (operators nested level limit left) middle fun e finish =>
      LevelRead level start e finish := by
  induction limit generalizing middle left with
  | zero => exact fail_gives
  | succ limit ih =>
      apply Ensures.get_bind
      split
      next hnone =>
        exact Ensures.pure ⟨hleft, htighter, by simp [hnone]⟩
      next operator hoperator =>
        split
        next hlooser =>
          have hlevel : level.rank < operator.precedence.rank := by
            simpa [Precedence.looserThan] using hlooser
          refine (binary_gives hnested hleft hoperator fun inner hinner =>
            hbehind inner hinner operator hoperator).bind fun e after h => ?_
          obtain ⟨hread, hsame, hstopped⟩ := h
          -- The operation becomes the left operand, with the operator that was just read.
          refine ih hread ?_ ?_
          · simpa [hsame] using hlevel
          · simpa [hsame] using hstopped
        next hlooser =>
          refine Ensures.pure ⟨hleft, htighter, ?_⟩
          simpa [hoperator, Precedence.looserThan] using hlooser

end

theorem expression_gives (limit : Nat) : ReadsLevels (expression limit) := by
  induction limit with
  | zero =>
      intro level start
      exact fail_gives
  | succ limit ih =>
      intro level start
      refine (operand_gives ih limit start).bind fun left middle h => ?_
      refine operators_gives ih level limit h.1 ?_ ?_ <;> simp [h.2]

theorem expr_reading (level : Precedence) :
    Reading (expr level) Expr.Written Expr.nodes Expr.WellFormed :=
  fun start => (expression_gives _).reading level start

end Parse

end Scriptlet
