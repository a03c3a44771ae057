import Scriptlet.Proofs.Syntax.Rendering

/-! # Viable prefixes

A sequence of tokens is viable if it can be continued to all that some tree is written with. A step
that fails blames the token behind a viable prefix of what it was given: up to there nothing was
wrong. The productions are followed once more to see this, each failing place being completed by
tokens that the rest of the production accepts.
-/

namespace Scriptlet.Parse

variable {α β : Type}

/-- The tokens can be continued to all that some result is written with. -/
def Viable (Full : α → List Token → Prop) (tokens : List Token) : Prop :=
  ∃ more result, Full result (tokens ++ more)

section

variable {Full : α → List Token → Prop} {Last : β → List Token → Prop} {tokens : List Token}
variable {step : Parse α} {next : α → Parse β} {start : Cursor}

theorem Viable.of_full {result : α} (h : Full result tokens) : Viable Full tokens :=
  ⟨[], result, by rwa [List.append_nil]⟩

/-- What stands in front of a viable prefix is viable. -/
theorem Viable.of_append {more : List Token} (h : Viable Full (tokens ++ more)) :
    Viable Full tokens := by
  obtain ⟨others, result, hfull⟩ := h
  exact ⟨more ++ others, result, by rwa [← List.append_assoc]⟩

/-- The step reads all that its result is written with, or it blames the token behind a viable
prefix. -/
def Follows (step : Parse α) (start : Cursor) (Full : α → List Token → Prop) : Prop :=
  Ensures step start
    (fun result finish => ∃ tokens, start.tokens = tokens ++ finish.tokens ∧ Full result tokens)
    fun error _ => ∃ tokens rest, start.tokens = tokens ++ rest ∧
      (∀ token ∈ rest.head?, error.stage = .parse token.offset) ∧ Viable Full tokens

namespace Follows

theorem imp {Full' : α → List Token → Prop} (h : Follows step start Full)
    (hfull : ∀ result tokens, Full result tokens → Full' result tokens) :
    Follows step start Full' := by
  refine h.weaken ?_ ?_
  · rintro result finish ⟨tokens, htokens, hresult⟩
    exact ⟨tokens, htokens, hfull result tokens hresult⟩
  · rintro error _ ⟨tokens, rest, htokens, hstage, more, result, hresult⟩
    exact ⟨tokens, rest, htokens, hstage, more, result, hfull result _ hresult⟩

/-- Two steps one after the other. All that the first reads has to be viable for both. -/
theorem bind {good : α → Cursor → Prop} (hstep : Follows step start Full)
    (hgives : Gives step start good)
    (hviable : ∀ result tokens, Full result tokens → Viable Last tokens)
    (hnext : ∀ result tokens finish, Full result tokens → good result finish →
      Follows (next result) finish fun final more => Last final (tokens ++ more)) :
    Follows (step >>= next) start Last := by
  refine ((hstep.both hgives).weaken (fun _ _ h => h) ?_).bind ?_
  · rintro error finish ⟨⟨tokens, rest, htokens, hstage, more, result, hresult⟩, -⟩
    exact ⟨tokens, rest, htokens, hstage, (hviable result _ hresult).of_append⟩
  · rintro result finish ⟨⟨tokens, htokens, hresult⟩, hgood⟩
    refine (hnext result tokens finish hresult hgood).weaken ?_ ?_
    · rintro final last ⟨others, hothers, hfinal⟩
      exact ⟨tokens ++ others, by rw [htokens, hothers, List.append_assoc], hfinal⟩
    · rintro error last ⟨others, rest, hothers, hstage, more, final, hfinal⟩
      refine ⟨tokens ++ others, rest, by rw [htokens, hothers, List.append_assoc], hstage, more,
        final, ?_⟩
      rwa [List.append_assoc]

theorem pure {result : α} (h : Full result []) : Follows (pure result) start Full :=
  ⟨[], rfl, h⟩

theorem get_bind {next : Cursor → Parse β} (h : Follows (next start) start Last) :
    Follows (MonadState.get >>= next) start Last := h

theorem fail {expected : String} (h : Viable Full []) : Follows (fail expected) start Full := by
  refine ⟨[], start.tokens, rfl, ?_, h⟩
  intro token htoken
  unfold Cursor.unexpected
  split
  next hnil => simp [hnil] at htoken
  next hcons =>
    rw [hcons] at htoken
    cases htoken
    rfl

theorem failWith {cause : Cause} (h : Viable Full []) : Follows (failWith cause) start Full := by
  refine ⟨[], start.tokens, rfl, ?_, h⟩
  intro token htoken
  unfold Cursor.failure Cursor.offset
  split
  next hnil => simp [hnil] at htoken
  next hcons =>
    rw [hcons] at htoken
    cases htoken
    rfl

theorem advance {expected : String} {IsNext : Token → Prop} (hsome : ∃ token, IsNext token)
    (h : ∀ token ∈ start.tokens.head?, IsNext token) :
    Follows (advance expected) start fun token tokens => IsNext token ∧ tokens = [token] := by
  unfold Follows Ensures Parse.advance
  cases htokens : start.tokens with
  | nil =>
      obtain ⟨token, htoken⟩ := hsome
      exact ⟨[], [], rfl, by simp, [token], token, htoken, rfl⟩
  | cons token rest => exact ⟨[token], rfl, h token (by simp [htokens]), rfl⟩

end Follows

/-- From wherever it starts, the step reads all that its result is written with or fails behind a
viable prefix; and it has a result. -/
structure Guided (step : Parse α) (Full : α → List Token → Prop) : Prop where
  viable : Viable Full []
  follows : ∀ start, Follows step start Full

namespace Guided

theorem imp {Full' : α → List Token → Prop} (h : Guided step Full)
    (hfull : ∀ result tokens, Full result tokens → Full' result tokens) : Guided step Full' := by
  obtain ⟨more, result, hresult⟩ := h.viable
  exact ⟨⟨more, result, hfull result _ hresult⟩, fun start => (h.follows start).imp hfull⟩

theorem bind (hstep : Guided step Full)
    (hnext : ∀ result tokens, Full result tokens →
      Guided (next result) fun final more => Last final (tokens ++ more)) :
    Guided (step >>= next) Last := by
  have hviable : ∀ result tokens, Full result tokens → Viable Last tokens := by
    intro result tokens hresult
    obtain ⟨more, final, hfinal⟩ := (hnext result tokens hresult).viable
    exact ⟨more, final, hfinal⟩
  constructor
  · obtain ⟨more, result, hresult⟩ := hstep.viable
    exact (hviable result _ hresult).of_append
  · intro start
    have hany : Gives step start fun _ _ => True := Ensures.of_forall fun _ _ _ => trivial
    apply (hstep.follows start).bind hany hviable
    intro result tokens finish hresult _
    exact (hnext result tokens hresult).follows finish

theorem pure {result : α} (h : Full result []) : Guided (pure result) Full :=
  ⟨.of_full h, fun _ => .pure h⟩

theorem fail {expected : String} (h : Viable Full []) : Guided (fail expected) Full :=
  ⟨h, fun _ => .fail h⟩

theorem failWith {cause : Cause} (h : Viable Full []) : Guided (failWith cause) Full :=
  ⟨h, fun _ => .failWith h⟩

/-- A step that looks at the cursor may do one thing or another. -/
theorem get_bind {next : Cursor → Parse β} (h : ∀ cursor, Guided (next cursor) Last) :
    Guided (MonadState.get >>= next) Last := by
  constructor
  · exact (h ⟨[], 0, 0⟩).viable
  · intro start
    exact (h start).follows start

theorem bounded {step : Nat → Parse α} (h : ∀ limit, Guided (step limit) Full) :
    Guided (bounded step) Full := by
  constructor
  · exact (h 0).viable
  · intro start
    exact (h _).follows start

end Guided

end

/-- Ending with a node under a fresh identifier reads nothing. -/
theorem freshId_guided {Full : α → List Token → Prop} {result : NodeId → α}
    (h : ∀ id, Full (result id) []) : Guided (do let id ← freshId; return result id) Full := by
  constructor
  · exact .of_full (h 0)
  · intro start
    exact ⟨[], rfl, h start.nextId⟩

/-- Reading a token that is known and going on behind it. -/
theorem Follows.advance_bind {expected : String} {IsNext : Token → Prop} {next : Token → Parse β}
    {start : Cursor} {Last : β → List Token → Prop} (hsome : ∃ token, IsNext token)
    (h : ∀ token ∈ start.tokens.head?, IsNext token)
    (hnext : ∀ token, IsNext token →
      Guided (next token) fun final more => Last final (token :: more)) :
    Follows (Parse.advance expected >>= next) start Last := by
  have hany : Gives (Parse.advance expected) start fun _ _ => True :=
    Ensures.of_forall fun _ _ _ => trivial
  apply (Follows.advance hsome h).bind hany
  · rintro token _ ⟨htoken, rfl⟩
    exact (hnext token htoken).viable
  · rintro token _ finish ⟨htoken, rfl⟩ _
    exact (hnext token htoken).follows finish

section

variable {test : Cursor → Bool} {IsNext : Token → Prop}
variable (htest : Cursor.Tells test IsNext) (hsome : ∃ token, IsNext token)

include htest hsome

/-- Going on behind a token under a test that tells that it is next, or failing. -/
theorem test_guided {expected found : String} {Full : β → List Token → Prop}
    {next : Token → Parse β}
    (hnext : ∀ token, IsNext token →
      Guided (next token) fun final more => Full final (token :: more)) :
    Guided (do if test (← get) then advance found >>= next else fail expected) Full := by
  have hviable : Viable Full [] := by
    obtain ⟨token, htoken⟩ := hsome
    obtain ⟨more, final, hfinal⟩ := (hnext token htoken).viable
    exact ⟨token :: more, final, hfinal⟩
  refine ⟨hviable, fun start => ?_⟩
  apply Follows.get_bind
  split
  next hat =>
    exact Follows.advance_bind hsome (fun token hhead => htest.of_head hat hhead) hnext
  · exact Follows.fail hviable

/-- Reading a token under a test that tells that it is next. -/
theorem expect_guided {expected found : String} :
    Guided (do if test (← get) then advance found else fail expected)
      fun token tokens => IsNext token ∧ tokens = [token] := by
  have hpure : advance found = advance found >>= Pure.pure := (bind_pure _).symm
  rw [hpure]
  apply test_guided htest hsome
  intro token htoken
  exact .pure ⟨htoken, rfl⟩

/-- Reading a token if a test tells that it is next, and going on in one way or another. -/
theorem try_guided {found : String} {Full : β → List Token → Prop} {next : Bool → Parse β}
    (hfound : ∀ token, IsNext token →
      Guided (next true) fun final more => Full final (token :: more))
    (habsent : Viable Full [] → Guided (next false) Full) :
    Guided ((do
      if test (← get) then
        let _ ← advance found
        return true
      else return false) >>= next) Full := by
  have hviable : Viable Full [] := by
    obtain ⟨token, htoken⟩ := hsome
    obtain ⟨more, final, hfinal⟩ := (hfound token htoken).viable
    exact ⟨token :: more, final, hfinal⟩
  refine ⟨hviable, fun start => ?_⟩
  rw [bind_assoc]
  apply Follows.get_bind
  split
  next hat =>
    rw [bind_assoc]
    refine Follows.advance_bind hsome (fun token hhead => htest.of_head hat hhead) ?_
    intro token htoken
    rw [pure_bind]
    exact hfound token htoken
  · rw [pure_bind]
    exact (habsent hviable).follows start

end

section

variable {symbol expected : String} {keyword : Keyword} {Full : β → List Token → Prop}
variable {next : Bool → Parse β}

theorem expectOperator_guided (symbol : String) :
    Guided (expectOperator symbol) fun token tokens => token.IsOperator symbol ∧ tokens = [token] :=
  expect_guided (Cursor.tells_atOperator symbol) (Token.exists_isOperator symbol)

theorem expectKeyword_guided (keyword : Keyword) (expected : String) :
    Guided (expectKeyword keyword expected)
      fun token tokens => token.IsKeyword keyword ∧ tokens = [token] :=
  expect_guided (Cursor.tells_atKeyword keyword) (Token.exists_isKeyword keyword)

theorem tryOperator_guided
    (hfound : ∀ token : Token, token.IsOperator symbol →
      Guided (next true) fun final more => Full final (token :: more))
    (habsent : Viable Full [] → Guided (next false) Full) :
    Guided (tryOperator symbol >>= next) Full :=
  try_guided (Cursor.tells_atOperator symbol) (Token.exists_isOperator symbol) hfound habsent

theorem tryKeyword_guided
    (hfound : ∀ token : Token, token.IsKeyword keyword →
      Guided (next true) fun final more => Full final (token :: more))
    (habsent : Viable Full [] → Guided (next false) Full) :
    Guided (tryKeyword keyword expected >>= next) Full :=
  try_guided (Cursor.tells_atKeyword keyword) (Token.exists_isKeyword keyword) hfound habsent

end

theorem exists_name : ∃ token : Token, token.IsName "x" :=
  Token.exists_isName rfl

theorem expectName_guided (expected : String) :
    Guided (expectName expected)
      fun name tokens => ∃ token : Token, token.IsName name ∧ tokens = [token] := by
  obtain ⟨token, htoken⟩ := exists_name
  apply test_guided Cursor.tells_atName ⟨token, htoken.2.1 ▸ htoken⟩
  intro token htoken
  exact .pure ⟨token, htoken, rfl⟩

/-- What items between commas and the bracket behind them are written with. -/
def Bracketed (Written : α → List Token → Prop) (Valid : α → Prop) (closing : String)
    (items : List α) (tokens : List Token) : Prop :=
  ∃ (inside : List Token) (bracket : Token), Separated Written items inside ∧
    bracket.IsOperator closing ∧ tokens = inside ++ [bracket] ∧ ∀ each ∈ items, Valid each

theorem separated_guided {item : Parse α} {Written : α → List Token → Prop} {Valid : α → Prop}
    (hitem : Guided item fun each tokens => Written each tokens ∧ Valid each) (closing : String)
    (limit : Nat) : Guided (separated item closing limit) (Bracketed Written Valid closing) := by
  have hviable : Viable (Bracketed Written Valid closing) [] := by
    obtain ⟨tokens, each, hwritten, hvalid⟩ := hitem.viable
    obtain ⟨bracket, hbracket⟩ := Token.exists_isOperator closing
    exact ⟨tokens ++ [bracket], [each], tokens, bracket, .one hwritten, hbracket, rfl,
      by simpa using hvalid⟩
  induction limit with
  | zero => exact .fail hviable
  | succ limit ih =>
      apply hitem.bind
      rintro first tokens ⟨hfirst, hvalid⟩
      apply tryOperator_guided
      · intro comma hcomma
        have hothers : Guided (do let rest ← separated item closing limit; return first :: rest)
            fun items more => Bracketed Written Valid closing items (tokens ++ comma :: more) := by
          apply ih.bind
          rintro rest _ ⟨inside, bracket, hrest, hbracket, rfl, hvalids⟩
          apply Guided.pure
          refine ⟨tokens ++ comma :: inside, bracket, .more hfirst hcomma hrest, hbracket, by simp,
            ?_⟩
          simpa using ⟨hvalid, hvalids⟩
        apply Guided.get_bind
        intro cursor
        split
        · exact .failWith hothers.viable
        · exact hothers
      · intro _
        apply (expectOperator_guided closing).bind
        rintro bracket _ ⟨hbracket, rfl⟩
        apply Guided.pure
        exact ⟨tokens, bracket, .one hfirst, hbracket, by simp, by simpa using hvalid⟩

theorem typeAnnotation_guided :
    Guided typeAnnotation fun typeName tokens =>
      TypeWritten typeName tokens ∧ ∀ name ∈ typeName, Keyword.ofText? name = none := by
  apply tryOperator_guided
  · intro colon hcolon
    apply (expectName_guided _).bind
    rintro name _ ⟨token, htoken, rfl⟩
    apply Guided.pure
    exact ⟨.some hcolon htoken, by simpa using htoken.2.2⟩
  · intro _
    exact .pure ⟨.none, by simp⟩

/-- What an expression of the level is written with. -/
def ExprFull (level : Precedence) (e : Expr) (tokens : List Token) : Prop :=
  e.Written tokens ∧ e.WellFormed ∧ ∀ inner ∈ e.operator?, level.rank < inner.precedence.rank

/-- What an expression without an operator of its own is written with. -/
def OperandFull (e : Expr) (tokens : List Token) : Prop :=
  e.Written tokens ∧ e.WellFormed ∧ e.operator? = none

theorem OperandFull.exprFull {level : Precedence} {e : Expr} {tokens : List Token}
    (h : OperandFull e tokens) : ExprFull level e tokens :=
  ⟨h.1, h.2.1, by simp [h.2.2]⟩

theorem operandFull_viable : Viable OperandFull [] := by
  obtain ⟨token, htoken⟩ := exists_name
  exact ⟨[token], .access 0 "x", .access htoken, .access htoken.2.2, rfl⟩

theorem literal_guided : Guided literal OperandFull := by
  refine ⟨operandFull_viable, fun start => ?_⟩
  by_cases hread : ∀ token ∈ start.tokens.head?, ∃ value, token.literal = .ok value
  · refine Follows.advance_bind ⟨⟨.integer, "0", 0⟩, _, rfl⟩ hread ?_
    rintro token ⟨value, hvalue⟩
    rw [hvalue]
    apply freshId_guided
    intro id
    exact ⟨.literal hvalue, .literal, rfl⟩
  · -- The token that stands for no constant is blamed after it has been read.
    cases htokens : start.tokens with
    | nil => simp [htokens] at hread
    | cons token rest =>
        cases hvalue : token.literal with
        | ok value => simp [htokens, hvalue] at hread
        | error cause =>
            have herror : literal start =
                .error ⟨cause, .parse token.offset⟩ { start with tokens := rest } := by
              unfold literal
              change EStateM.bind _ _ _ = _
              simp only [EStateM.bind, advance, htokens, hvalue]
              rfl
            unfold Follows Ensures
            rw [herror]
            exact ⟨[], token :: rest, htokens, by simp, operandFull_viable⟩

section

variable {nested : Precedence → Parse Expr}
variable (hnested : ∀ level, Guided (nested level) (ExprFull level))

include hnested

theorem group_guided : Guided (group nested) OperandFull := by
  apply test_guided (Cursor.tells_atOperator "(") (Token.exists_isOperator "(")
  intro opening hopening
  apply (hnested .lowest).bind
  rintro inner tokens ⟨hinner, hwell, -⟩
  apply (expectOperator_guided ")").bind
  rintro closing _ ⟨hclosing, rfl⟩
  apply freshId_guided
  intro id
  exact ⟨by simpa using .group hopening hinner hclosing, .group hwell, rfl⟩

theorem arguments_guided (limit : Nat) :
    Guided (arguments nested limit) fun es tokens => ∃ inside bracket,
      (es = [] ∧ inside = [] ∨ Separated Expr.Written es inside) ∧
        Token.IsOperator ")" bracket ∧ tokens = inside ++ [bracket] ∧ ∀ e ∈ es, e.WellFormed := by
  apply tryOperator_guided
  · intro bracket hbracket
    exact .pure ⟨[], bracket, .inl ⟨rfl, rfl⟩, hbracket, rfl, by simp⟩
  · intro _
    have hitem : Guided (nested .lowest) fun e tokens => e.Written tokens ∧ e.WellFormed :=
      (hnested .lowest).imp fun e tokens h => ⟨h.1, h.2.1⟩
    apply (separated_guided hitem ")" limit).imp
    rintro es tokens ⟨inside, bracket, hinside, h⟩
    exact ⟨inside, bracket, .inr hinside, h⟩

theorem reference_guided (limit : Nat) : Guided (reference nested limit) OperandFull := by
  apply (expectName_guided _).bind
  rintro name _ ⟨token, htoken, rfl⟩
  apply tryOperator_guided
  · intro opening hopening
    apply (arguments_guided hnested limit).bind
    rintro es _ ⟨inside, closing, hinside, hclosing, rfl, hwell⟩
    apply freshId_guided
    intro id
    rcases hinside with ⟨rfl, rfl⟩ | hinside
    · exact ⟨.callEmpty htoken hopening hclosing, .call htoken.2.2 hwell, rfl⟩
    · exact ⟨by simpa using .call htoken hopening hinside hclosing, .call htoken.2.2 hwell, rfl⟩
  · intro _
    apply tryOperator_guided
    · intro opening hopening
      apply (hnested .lowest).bind
      rintro index tokens ⟨hindex, hwell, -⟩
      apply (expectOperator_guided "]").bind
      rintro closing _ ⟨hclosing, rfl⟩
      apply freshId_guided
      intro id
      exact ⟨by simpa using .element htoken hopening hindex hclosing, .element htoken.2.2 hwell,
        rfl⟩
    · intro _
      apply freshId_guided
      intro id
      exact ⟨.access htoken, .access htoken.2.2, rfl⟩

theorem word_guided (limit : Nat) : Guided (word nested limit) OperandFull := by
  refine ⟨operandFull_viable, fun start => ?_⟩
  apply Follows.get_bind
  split
  · exact (reference_guided hnested limit).follows start
  next keyword hkeyword =>
    split
    · exact Follows.fail operandFull_viable
    next value hvalue =>
      refine Follows.advance_bind (Token.exists_isKeyword keyword) ?_ ?_
      · intro token htoken
        rw [htoken] at hkeyword
        exact hkeyword
      · intro token htoken
        apply freshId_guided
        intro id
        exact ⟨.word htoken hvalue, .literal, rfl⟩

theorem operand_guided (limit : Nat) : Guided (operand nested limit) OperandFull := by
  apply Guided.get_bind
  intro cursor
  split
  · exact .fail operandFull_viable
  · exact word_guided hnested limit
  · exact group_guided hnested
  · exact literal_guided

/-- The operator that is next and its right operand make an operation of the left operand, if no
operator of the left operand is looser. -/
theorem binary_follows {start : Cursor} {left : Expr} {before : List Token} {operator : Operator}
    (hleft : left.Written before) (hwell : left.WellFormed)
    (hoperator : nextOperator? start = some operator)
    (hlooser : ∀ inner ∈ left.operator?, operator.precedence.rank ≤ inner.precedence.rank) :
    Follows (binary nested left operator.precedence) start fun e more =>
      e.Written (before ++ more) ∧ e.WellFormed ∧ e.operator? = some operator := by
  refine Follows.advance_bind (Token.exists_isOperator operator.symbol) ?_ ?_
  · intro sign hsign
    exact (isOperator_of_nextOperator? hoperator hsign).1
  · intro sign hsign
    rw [hsign.2, Operator.ofSymbol?_symbol]
    apply (hnested _).bind
    rintro right tokens ⟨hright, hwellRight, htighter⟩
    apply freshId_guided
    intro id
    exact ⟨by simpa using .binary hleft hsign hright,
      .binary hwell hwellRight hlooser htighter, rfl⟩

omit hnested in
/-- Behind an operation stands no operator that binds tighter than its own. -/
theorem binary_stopped (hreads : ReadsLevels nested) {start : Cursor} {left : Expr}
    {operator : Operator} (hoperator : nextOperator? start = some operator) :
    Gives (binary nested left operator.precedence) start fun _ finish =>
      ∀ behind ∈ nextOperator? finish, behind.precedence.rank ≤ operator.precedence.rank := by
  refine (advance_gives _ start).bind fun sign after hsign => ?_
  rw [(isOperator_of_nextOperator? hoperator hsign.1).2]
  refine (hreads _ after).bind fun right last hright => ?_
  exact freshId_gives hright.stopped

/-- Folding operators to the left goes on behind an expression that may also end here. -/
theorem operators_follows (hreads : ReadsLevels nested) (level : Precedence) (limit : Nat)
    {start : Cursor} {left : Expr} {before : List Token} (hleft : ExprFull level left before)
    (hbehind : ∀ inner ∈ left.operator?, ∀ behind ∈ nextOperator? start,
      behind.precedence.rank ≤ inner.precedence.rank) :
    Follows (operators nested level limit left) start fun e more =>
      ExprFull level e (before ++ more) := by
  induction limit generalizing start left before with
  | zero => exact Follows.fail (.of_full (by simpa using hleft))
  | succ limit ih =>
      apply Follows.get_bind
      split
      · exact Follows.pure (by simpa using hleft)
      next operator hoperator =>
        split
        next hlooser =>
          have hlevel : level.rank < operator.precedence.rank := by
            simpa [Precedence.looserThan] using hlooser
          have hloose : ∀ inner ∈ left.operator?,
              operator.precedence.rank ≤ inner.precedence.rank :=
            fun inner hinner => hbehind inner hinner operator hoperator
          apply (binary_follows hnested hleft.1 hleft.2.1 hoperator hloose).bind
            (binary_stopped hreads hoperator)
          · rintro e more ⟨hwritten, hwell, hsame⟩
            exact .of_full ⟨hwritten, hwell, by simpa [hsame] using hlevel⟩
          · rintro e more finish ⟨hwritten, hwell, hsame⟩ hstopped
            have hfull : ExprFull level e (before ++ more) :=
              ⟨hwritten, hwell, by simpa [hsame] using hlevel⟩
            refine (ih hfull ?_).imp fun final others h => by rwa [List.append_assoc] at h
            simpa [hsame] using hstopped
        · exact Follows.pure (by simpa using hleft)

end

theorem expression_guided (limit : Nat) (level : Precedence) :
    Guided (expression limit level) (ExprFull level) := by
  obtain ⟨tokens, e, he⟩ := operandFull_viable
  have hviable : ∀ level, Viable (ExprFull level) [] := fun level => ⟨tokens, e, he.exprFull⟩
  induction limit generalizing level with
  | zero => exact .fail (hviable level)
  | succ limit ih =>
      refine ⟨hviable level, fun start => ?_⟩
      have hany : Gives (operand (expression limit) limit) start fun _ _ => True :=
        Ensures.of_forall fun _ _ _ => trivial
      apply ((operand_guided ih limit).follows start).bind hany
      · intro left tokens hleft
        exact .of_full hleft.exprFull
      · intro left tokens finish hleft _
        apply operators_follows ih (expression_gives limit) level limit hleft.exprFull
        simp [hleft.2.2]

theorem expr_guided (level : Precedence) :
    Guided (expr level) fun e tokens => e.Written tokens ∧ e.WellFormed := by
  apply Guided.bounded
  intro limit
  exact (expression_guided limit level).imp fun e tokens h => ⟨h.1, h.2.1⟩

end Scriptlet.Parse
