import Scriptlet.Proofs.Syntax.StatementSoundness
import Scriptlet.Syntax.Parse.Program
import Scriptlet.Token.Scan

/-! # Reading programs is sound

A program that is read from a sequence of tokens is written with exactly these tokens and is well
formed, whatever the tokens are. Its nodes are numbered from zero in the order in which they end.
-/

namespace Scriptlet

namespace Parse

theorem elements_gives (start : Cursor) :
    Gives elements start fun value finish =>
      ∃ id es, value = .list id es ∧ es ≠ [] ∧ (∀ e ∈ es, e.WellFormed) ∧
        ∃ tokens bracket, Separated Expr.Written es tokens ∧ Token.IsOperator "]" bracket ∧
          Reads start (tokens ++ [bracket]) value.nodes finish := by
  refine (separated_gives (expr_reading .lowest) "]" _ start).bind fun es c1 h => ?_
  obtain ⟨⟨tokens, bracket, hwritten, hbracket, hreads⟩, hsome, hvalid⟩ := h
  refine freshId_gives ⟨_, es, rfl, hsome, hvalid, tokens, bracket, hwritten, hbracket, ?_⟩
  exact (hreads.trans (.number (.expression (.list c1.nextId es)) rfl)).cast
    (by simp) (by simp [Expr.nodes, Expr.listNodes_eq_flatMap])

/-- The first value of a list is read with its brackets and the equals sign before them. -/
theorem initial_list_gives (start : Cursor) :
    Gives (initial true) start fun value finish =>
      ∃ id es, value = some (.list id es) ∧ es ≠ [] ∧ (∀ e ∈ es, e.WellFormed) ∧
        ∃ sign opening tokens bracket, Token.IsOperator "=" sign ∧
          Token.IsOperator "[" opening ∧ Separated Expr.Written es tokens ∧
          Token.IsOperator "]" bracket ∧
          Reads start (sign :: opening :: tokens ++ [bracket]) (Expr.optionNodes value) finish := by
  refine (expectOperator_gives _ start).bind fun sign c1 hsign => ?_
  refine (expectOperator_gives _ c1).bind fun opening c2 hopening => ?_
  refine (elements_gives c2).bind fun value c3 h => Ensures.pure ?_
  obtain ⟨id, es, rfl, hsome, hvalid, tokens, bracket, hwritten, hbracket, hreads⟩ := h
  exact ⟨id, es, rfl, hsome, hvalid, sign, opening, tokens, bracket, hsign.1, hopening.1,
    hwritten, hbracket, (hsign.2.trans (hopening.2.trans hreads)).cast (by simp) rfl⟩

/-- The word that a global starts with tells whether it is a list and whether it can be assigned
to. -/
theorem isKeyword_of_atGlobal {cursor : Cursor} {token : Token} (hat : atGlobal cursor = true)
    (hlist : cursor.atKeyword .LIST = false) (hhead : cursor.tokens.head? = some token) :
    token.IsKeyword (if cursor.atKeyword .VAR then .VAR else .VAL) := by
  split
  next hvar => exact (Cursor.tells_atKeyword .VAR).of_head hvar hhead
  next hvar =>
    refine (Cursor.tells_atKeyword .VAL).of_head ?_ hhead
    simpa [atGlobal, hlist, hvar] using hat

theorem global_gives {start : Cursor} (hat : atGlobal start = true) :
    Gives global start fun g finish =>
      (∃ tokens, Reads start tokens g.nodes finish ∧ g.Written tokens) ∧ g.WellFormed := by
  apply Ensures.get_bind
  refine (advance_gives _ start).bind fun word c1 hword => ?_
  refine (expectName_gives _ c1).bind fun name c2 hname => ?_
  obtain ⟨token, htoken, hname⟩ := hname
  refine (expectOperator_gives _ c2).bind fun colon c3 hcolon => ?_
  refine (expectName_gives _ c3).bind fun typeName c4 htype => ?_
  obtain ⟨typeToken, htypeToken, htype⟩ := htype
  have hhead := ((hword.2.trans hname).trans hcolon.2).trans htype
  cases hlist : start.atKeyword .LIST with
  | true =>
      refine (initial_list_gives c4).bind fun value c5 h => ?_
      obtain ⟨id, es, rfl, hsome, hvalid, sign, opening, tokens, bracket, hsign, hopening,
        hwritten, hbracket, hreads⟩ := h
      refine (expectOperator_gives _ c5).bind fun semicolon c6 hsemicolon => ?_
      have hword' := (Cursor.tells_atKeyword .LIST).of_head hlist hword.1
      refine freshId_gives ⟨⟨_, ?_, .list hword' htoken hcolon.1 htypeToken hsign hopening
        hwritten hbracket hsemicolon.1⟩, htoken.2.2, htypeToken.2.2, .list hsome hvalid⟩
      exact ((hhead.trans hreads).trans (hsemicolon.2.trans
        (.number (.global ⟨c6.nextId, name, typeName, true, some (.list id es)⟩) rfl))).cast
          (by simp) (by simp [Global.nodes])
  | false =>
      refine (optionalValue_reading c4).bind fun value c5 hvalue => ?_
      obtain ⟨⟨tokens, hreads, hwritten⟩, hvalid⟩ := hvalue
      refine (expectOperator_gives _ c5).bind fun semicolon c6 hsemicolon => ?_
      have hword' := isKeyword_of_atGlobal hat hlist hword.1
      refine freshId_gives ⟨⟨_, ?_, .scalar hword' htoken hcolon.1 htypeToken hwritten
        hsemicolon.1⟩, htoken.2.2, htypeToken.2.2, ?_⟩
      · exact ((hhead.trans hreads).trans (hsemicolon.2.trans
          (.number (.global ⟨c6.nextId, name, typeName, start.atKeyword .VAR, value⟩) rfl))).cast
            (by simp) (by simp [Global.nodes])
      · cases value with
        | none => exact .none
        | some value => exact .scalar (hvalid value rfl)

theorem parameter_reading :
    Reading parameter ParameterWritten (fun _ => []) fun parameter =>
      Keyword.ofText? parameter.1 = none ∧ Keyword.ofText? parameter.2 = none := by
  intro start
  refine (expectName_gives _ start).bind fun name c1 hname => ?_
  obtain ⟨token, htoken, hname⟩ := hname
  refine (expectOperator_gives _ c1).bind fun colon c2 hcolon => ?_
  refine (expectName_gives _ c2).bind fun typeName c3 htype => Ensures.pure ?_
  obtain ⟨typeToken, htypeToken, htype⟩ := htype
  exact ⟨⟨_, (hname.trans hcolon.2).trans htype, .mk htoken hcolon.1 htypeToken⟩, htoken.2.2,
    htypeToken.2.2⟩

theorem parameters_gives (start : Cursor) :
    Gives parameters start fun parameters finish =>
      (∃ tokens bracket, ParametersWritten parameters tokens ∧ Token.IsOperator ")" bracket ∧
        Reads start (tokens ++ [bracket]) [] finish) ∧
      ∀ parameter ∈ parameters,
        Keyword.ofText? parameter.1 = none ∧ Keyword.ofText? parameter.2 = none := by
  refine tryOperator_gives ?_ ?_
  · intro bracket finish hbracket hread
    exact Ensures.pure ⟨⟨[], bracket, .nil, hbracket, hread⟩, by simp⟩
  · refine (separated_gives parameter_reading ")" _ start).imp fun parameters finish h => ?_
    obtain ⟨⟨tokens, bracket, hwritten, hbracket, hreads⟩, -, hvalid⟩ := h
    exact ⟨⟨tokens, bracket, .some hwritten, hbracket, hreads.cast rfl (by simp)⟩, hvalid⟩

theorem function_reading :
    Reading function Function.Written Function.nodes Function.WellFormed := by
  intro start
  refine (expectKeyword_gives _ _ start).bind fun word c1 hword => ?_
  refine (expectName_gives _ c1).bind fun name c2 hname => ?_
  obtain ⟨token, htoken, hname⟩ := hname
  refine (expectOperator_gives _ c2).bind fun opening c3 hopening => ?_
  refine (parameters_gives c3).bind fun parameters c4 hparameters => ?_
  obtain ⟨⟨parameterTokens, closing, hparametersWritten, hclosing, hparametersRead⟩,
    hparametersValid⟩ := hparameters
  refine (typeAnnotation_reading c4).bind fun returnType c5 htype => ?_
  obtain ⟨⟨typeTokens, htypeRead, htypeWritten⟩, htypeValid⟩ := htype
  refine (expectKeyword_gives _ _ c5).bind fun doing c6 hdoing => ?_
  refine (block_reading c6).bind fun body c7 hbody => ?_
  obtain ⟨⟨bodyTokens, hbodyRead, hbodyWritten⟩, hbodyValid⟩ := hbody
  refine (expectKeyword_gives _ _ c7).bind fun ending c8 hending => ?_
  refine freshId_gives ⟨⟨_, ?_, .mk rfl rfl hword.1 htoken hopening.1 hparametersWritten hclosing
    htypeWritten hdoing.1 hbodyWritten hending.1⟩, htoken.2.2, by simp, ?_, ?_, htypeValid,
    hbodyValid⟩
  · have hhead := ((hword.2.trans hname).trans hopening.2).trans hparametersRead
    have htail := (htypeRead.trans hdoing.2).trans (hbodyRead.trans hending.2)
    exact ((hhead.trans htail).trans (.number (.function ⟨c8.nextId, name,
      parameters.map Prod.fst, parameters.map Prod.snd, returnType, body⟩) rfl)).cast
        (by simp) (by simp [Function.nodes])
  · intro name hname
    obtain ⟨parameter, hparameter, rfl⟩ := List.mem_map.mp hname
    exact (hparametersValid parameter hparameter).1
  · intro name hname
    obtain ⟨parameter, hparameter, rfl⟩ := List.mem_map.mp hname
    exact (hparametersValid parameter hparameter).2

/-- Items that are read as long as a test holds stand one after the other. -/
theorem whileAt_gives {α : Type} {test : Cursor → Bool} {step : Parse α}
    {Written : α → List Token → Prop} {nodes : α → List Node} {Valid : α → Prop}
    (hstep : ∀ start, test start = true → Gives step start fun result finish =>
      (∃ tokens, Reads start tokens (nodes result) finish ∧ Written result tokens) ∧ Valid result)
    (limit : Nat) :
    Reading (whileAt test step limit) (Sequence Written) (fun items => items.flatMap nodes)
      fun items => ∀ item ∈ items, Valid item := by
  intro start
  induction limit generalizing start with
  | zero => exact fail_gives
  | succ limit ih =>
      apply Ensures.get_bind
      split
      next htest =>
        refine (hstep start htest).bind fun first c1 hfirst => ?_
        obtain ⟨⟨tokens, hreads, hwritten⟩, hvalid⟩ := hfirst
        refine (ih c1).bind fun rest c2 hrest => Ensures.pure ?_
        obtain ⟨⟨others, hmore, hothers⟩, hvalids⟩ := hrest
        refine ⟨⟨_, (hreads.trans hmore).cast rfl (by simp), .cons hwritten hothers⟩, ?_⟩
        simpa using ⟨hvalid, hvalids⟩
      · exact Ensures.pure ⟨⟨[], .refl start, .nil⟩, by simp⟩

/-- A program is read up to the last token. -/
theorem program_gives (start : Cursor) :
    Gives program start fun p finish =>
      (∃ tokens, Reads start tokens p.nodes finish ∧ p.Written tokens) ∧ p.WellFormed ∧
        finish.tokens = [] := by
  refine (whileAt_gives (fun _ => global_gives) _ start).bind fun globals c1 hglobals => ?_
  obtain ⟨⟨globalTokens, hglobalsRead, hglobalsWritten⟩, hglobalsValid⟩ := hglobals
  refine (whileAt_gives (fun c _ => function_reading c) _ c1).bind fun functions c2 h => ?_
  obtain ⟨⟨functionTokens, hfunctionsRead, hfunctionsWritten⟩, hfunctionsValid⟩ := h
  split
  · exact fail_gives
  next hsome =>
    apply Ensures.get_bind
    split
    next hend =>
      refine Ensures.pure ⟨⟨_, hglobalsRead.trans hfunctionsRead, .mk hglobalsWritten
        hfunctionsWritten⟩, ⟨hglobalsValid, hfunctionsValid, ?_⟩, by simpa using hend⟩
      simpa using hsome
    · exact fail_gives

/-- What a program read from tokens has to do with them. -/
theorem program_of_ofTokens {tokens : List Token} {p : Program}
    (h : Program.ofTokens tokens = .ok p) :
    ∃ finish, Reads (Cursor.start tokens) tokens p.nodes finish ∧ p.Written tokens ∧
      p.WellFormed := by
  unfold Program.ofTokens run at h
  split at h
  next finish hok =>
    cases h
    obtain ⟨⟨read, hreads, hwritten⟩, hvalid, hend⟩ := (program_gives _).of_ok hok
    have hall : tokens = read := by
      have htokens := hreads.tokens_eq
      rw [hend, List.append_nil] at htokens
      exact htokens
    subst hall
    exact ⟨finish, hreads, hwritten, hvalid⟩
  · cases h

end Parse

/-- Reading tokens gives a program only if the program is written with exactly these tokens, and
then it is well formed. -/
theorem Program.written_of_ofTokens {tokens : List Token} {p : Program}
    (h : Program.ofTokens tokens = .ok p) : p.Written tokens ∧ p.WellFormed := by
  obtain ⟨_, _, hwritten, hvalid⟩ := Parse.program_of_ofTokens h
  exact ⟨hwritten, hvalid⟩

/-- A function that returns a sum, the second term of which is a product. -/
theorem Program.written_of_ofTokens_sum :
    ∃ (tokens : List Token) (p : Program),
      tokenize "FUN main(): Integer DO RETURN 1 + 2 * 3; END" = .ok tokens ∧
      Program.ofTokens tokens = .ok p ∧ p.Written tokens ∧ p.WellFormed := by
  have hok : (tokenize "FUN main(): Integer DO RETURN 1 + 2 * 3; END" >>=
      Program.ofTokens).isOk = true := by
    decide +kernel
  cases htokens : tokenize "FUN main(): Integer DO RETURN 1 + 2 * 3; END" with
  | error error =>
      rw [htokens] at hok
      cases hok
  | ok tokens =>
      rw [htokens] at hok
      cases h : Program.ofTokens tokens with
      | error error =>
          change (Program.ofTokens tokens).isOk = true at hok
          rw [h] at hok
          cases hok
      | ok p => exact ⟨tokens, p, rfl, h, written_of_ofTokens h⟩

/-- The nodes of a program that was read, listed in the order in which they end, are numbered from
zero without gaps. So no two of them share an identifier. -/
theorem Program.numbered_in_postorder {tokens : List Token} {p : Program}
    (h : Program.ofTokens tokens = .ok p) :
    p.nodes.map Node.id = List.range p.nodes.length ∧ (p.nodes.map Node.id).Nodup := by
  obtain ⟨_, hreads, _⟩ := Parse.program_of_ofTokens h
  constructor
  · rw [List.range_eq_range']
    exact hreads.ids_eq
  · exact hreads.nodup

/-- A list, a local variable with an operation on an element, and a call inside a conditional. -/
theorem Program.numbered_in_postorder_call :
    ∃ (tokens : List Token) (p : Program),
      tokenize "LIST xs: Integer = [4, 5];
        FUN f(n: Integer): Integer DO LET y = 2 * xs[n - 1]; RETURN y; END
        FUN main(): Integer DO IF TRUE DO RETURN f(1); END END" = .ok tokens ∧
      Program.ofTokens tokens = .ok p ∧
      p.nodes.map Node.id = [0, 1, 2, 3, 4, 5, 6, 7, 8, 9, 10, 11, 12, 13, 14, 15, 16] ∧
      (p.nodes.map Node.id).Nodup := by
  let text := "LIST xs: Integer = [4, 5];
        FUN f(n: Integer): Integer DO LET y = 2 * xs[n - 1]; RETURN y; END
        FUN main(): Integer DO IF TRUE DO RETURN f(1); END END"
  have hlength : (tokenize text >>= Program.ofTokens).toOption.map (·.nodes.length) = some 17 := by
    decide +kernel
  cases htokens : tokenize text with
  | error error =>
      rw [htokens] at hlength
      cases hlength
  | ok tokens =>
      rw [htokens] at hlength
      change (Program.ofTokens tokens).toOption.map (·.nodes.length) = some 17 at hlength
      cases h : Program.ofTokens tokens with
      | error error =>
          rw [h] at hlength
          cases hlength
      | ok p =>
          rw [h] at hlength
          have hlength : p.nodes.length = 17 := Option.some.inj hlength
          obtain ⟨hids, hnodup⟩ := numbered_in_postorder h
          rw [hlength] at hids
          exact ⟨tokens, p, rfl, h, hids, hnodup⟩

end Scriptlet
