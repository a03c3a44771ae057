import Scriptlet.Proofs.Syntax.ProgramSoundness
import Scriptlet.Proofs.Syntax.Viability

/-! # Viable prefixes of programs

Statements, globals and functions fail behind a viable prefix, and so does a whole program: what
stands before the token that an error blames is the beginning of some program.
-/

namespace Scriptlet

theorem Separated.ne_nil {α : Type} {Written : α → List Token → Prop} {items : List α}
    {tokens : List Token} (h : Separated Written items tokens) : items ≠ [] := by
  cases h <;> simp

namespace Parse

/-- What a statement is written with. -/
def StmtFull (s : Stmt) (tokens : List Token) : Prop :=
  s.Written tokens ∧ s.WellFormed

/-- What a block is written with. -/
def BlockFull (body : List Stmt) (tokens : List Token) : Prop :=
  Sequence Stmt.Written body tokens ∧ ∀ s ∈ body, s.WellFormed

theorem optionalValue_guided :
    Guided optionalValue fun initial tokens =>
      ValueWritten initial tokens ∧ ∀ value ∈ initial, value.WellFormed := by
  apply tryOperator_guided
  · intro sign hsign
    apply (expr_guided .lowest).bind
    rintro value tokens ⟨hvalue, hwell⟩
    apply Guided.pure
    exact ⟨by simpa using .some hsign hvalue, by simpa using hwell⟩
  · intro _
    exact .pure ⟨.none, by simp⟩

theorem declaration_guided : Guided declaration StmtFull := by
  apply (expectKeyword_guided .LET _).bind
  rintro word _ ⟨hword, rfl⟩
  apply (expectName_guided _).bind
  rintro name _ ⟨token, htoken, rfl⟩
  apply typeAnnotation_guided.bind
  rintro typeName typeTokens ⟨htype, hfree⟩
  apply optionalValue_guided.bind
  rintro initial valueTokens ⟨hvalue, hwell⟩
  apply (expectOperator_guided ";").bind
  rintro semicolon _ ⟨hsemicolon, rfl⟩
  apply freshId_guided
  intro id
  exact ⟨by simpa using Stmt.Written.declaration hword htoken htype hvalue hsemicolon,
    .declaration htoken.2.2 hfree hwell⟩

theorem returning_guided : Guided returning StmtFull := by
  apply (expectKeyword_guided .RETURN _).bind
  rintro word _ ⟨hword, rfl⟩
  apply (expr_guided .lowest).bind
  rintro value tokens ⟨hvalue, hwell⟩
  apply (expectOperator_guided ";").bind
  rintro semicolon _ ⟨hsemicolon, rfl⟩
  apply Guided.pure
  exact ⟨by simpa using Stmt.Written.ret hword hvalue hsemicolon, .ret hwell⟩

theorem simple_guided : Guided simple StmtFull := by
  apply (expr_guided .lowest).bind
  rintro receiver before ⟨hreceiver, hwell⟩
  apply tryOperator_guided
  · intro sign hsign
    apply (expr_guided .lowest).bind
    rintro value after ⟨hvalue, hwellValue⟩
    apply (expectOperator_guided ";").bind
    rintro semicolon _ ⟨hsemicolon, rfl⟩
    apply Guided.pure
    exact ⟨by simpa using Stmt.Written.assignment hreceiver hsign hvalue hsemicolon,
      .assignment hwell hwellValue⟩
  · intro _
    apply (expectOperator_guided ";").bind
    rintro semicolon _ ⟨hsemicolon, rfl⟩
    apply Guided.pure
    exact ⟨by simpa using Stmt.Written.expression hreceiver hsemicolon, .expression hwell⟩

section

variable {nested : Parse (List Stmt)} (hnested : Guided nested BlockFull)

/-- What the arms of a switch that have a value are written with. -/
def ArmsFull (arms : List Case) (tokens : List Token) : Prop :=
  Sequence Case.Written arms tokens ∧ ∀ arm ∈ arms, arm.isDefault = false ∧
    (∀ value ∈ arm.value, value.WellFormed) ∧ ∀ inner ∈ arm.body, inner.WellFormed

include hnested

theorem arms_guided (limit : Nat) : Guided (arms nested limit) ArmsFull := by
  have hnone : ArmsFull [] [] := ⟨.nil, by simp⟩
  induction limit with
  | zero => exact .fail (.of_full hnone)
  | succ limit ih =>
      apply tryKeyword_guided
      · intro word hword
        apply (expr_guided .lowest).bind
        rintro value tokens ⟨hvalue, hwell⟩
        apply (expectOperator_guided ":").bind
        rintro colon _ ⟨hcolon, rfl⟩
        apply hnested.bind
        rintro body bodyTokens ⟨hbody, hwellBody⟩
        apply ih.bind
        rintro rest others ⟨hrest, hwellRest⟩
        apply Guided.pure
        refine ⟨by simpa using Sequence.cons (.mk hword hvalue hcolon hbody) hrest, ?_⟩
        rw [List.forall_mem_cons]
        refine ⟨⟨rfl, ?_, hwellBody⟩, hwellRest⟩
        simpa [Case.value] using hwell
      · intro _
        exact .pure hnone

theorem switch_guided (limit : Nat) : Guided (switch nested limit) StmtFull := by
  apply (expectKeyword_guided .SWITCH _).bind
  rintro word _ ⟨hword, rfl⟩
  apply (expr_guided .lowest).bind
  rintro condition tokens ⟨hcondition, hwell⟩
  apply (arms_guided hnested limit).bind
  rintro arms armTokens ⟨harms, hwellArms⟩
  apply tryKeyword_guided
  · intro default hdefault
    apply hnested.bind
    rintro body bodyTokens ⟨hbody, hwellBody⟩
    have hending : Guided (do
        let _ ← expectKeyword .END "END"
        return Stmt.switch condition (arms ++ [.mk none body]))
        fun s more => StmtFull s
          ([word] ++ (tokens ++ (armTokens ++ default :: (bodyTokens ++ more)))) := by
      apply (expectKeyword_guided .END _).bind
      rintro ending _ ⟨hending, rfl⟩
      apply Guided.pure
      refine ⟨by simpa using Stmt.Written.switch hword hcondition harms hdefault hbody hending,
        .switch hwell (Case.oneDefault_append (fun arm harm => (hwellArms arm harm).1) body) ?_ ?_⟩
      · rw [List.forall_mem_append, List.forall_mem_singleton]
        exact ⟨fun arm harm => (hwellArms arm harm).2.1, by simp [Case.value]⟩
      · rw [List.forall_mem_append, List.forall_mem_singleton]
        exact ⟨fun arm harm => (hwellArms arm harm).2.2, hwellBody⟩
    apply Guided.get_bind
    intro cursor
    split
    · exact .failWith hending.viable
    · exact hending
  · intro hviable
    exact .failWith hviable

theorem branch_guided : Guided (branch nested) StmtFull := by
  apply (expectKeyword_guided .IF _).bind
  rintro word _ ⟨hword, rfl⟩
  apply (expr_guided .lowest).bind
  rintro condition tokens ⟨hcondition, hwell⟩
  apply (expectKeyword_guided .DO _).bind
  rintro doing _ ⟨hdoing, rfl⟩
  apply hnested.bind
  rintro thenBlock thenTokens ⟨hthen, hwellThen⟩
  have halternative : Guided (alternative nested) fun elseBlock elseTokens =>
      (elseBlock = [] ∧ elseTokens = []) ∨ ∃ (otherwise : Token) (others : List Token),
        otherwise.IsKeyword .ELSE ∧ elseTokens = otherwise :: others ∧
          BlockFull elseBlock others := by
    apply tryKeyword_guided
    · intro otherwise hotherwise
      exact hnested.imp fun body others h => .inr ⟨otherwise, others, hotherwise, rfl, h⟩
    · intro _
      exact .pure (.inl ⟨rfl, rfl⟩)
  apply halternative.bind
  intro elseBlock elseTokens helse
  apply (expectKeyword_guided .END _).bind
  rintro ending _ ⟨hending, rfl⟩
  apply Guided.pure
  rcases helse with ⟨rfl, rfl⟩ | ⟨otherwise, others, hotherwise, rfl, helse, hwellElse⟩
  · exact ⟨by simpa using Stmt.Written.branch hword hcondition hdoing hthen hending,
      .branch hwell hwellThen (by simp)⟩
  · refine ⟨?_, .branch hwell hwellThen hwellElse⟩
    simpa using Stmt.Written.branchElse hword hcondition hdoing hthen hotherwise helse hending

theorem loop_guided : Guided (loop nested) StmtFull := by
  apply (expectKeyword_guided .WHILE _).bind
  rintro word _ ⟨hword, rfl⟩
  apply (expr_guided .lowest).bind
  rintro condition tokens ⟨hcondition, hwell⟩
  apply (expectKeyword_guided .DO _).bind
  rintro doing _ ⟨hdoing, rfl⟩
  apply hnested.bind
  rintro body bodyTokens ⟨hbody, hwellBody⟩
  apply (expectKeyword_guided .END _).bind
  rintro ending _ ⟨hending, rfl⟩
  apply Guided.pure
  exact ⟨by simpa using Stmt.Written.loop hword hcondition hdoing hbody hending,
    .loop hwell hwellBody⟩

theorem statement_guided (limit : Nat) : Guided (statement nested limit) StmtFull := by
  apply Guided.get_bind
  intro cursor
  split
  · exact declaration_guided
  · exact switch_guided hnested limit
  · exact branch_guided hnested
  · exact loop_guided hnested
  · exact returning_guided
  · exact simple_guided

end

theorem statements_guided (limit : Nat) : Guided (statements limit) BlockFull := by
  have hnone : BlockFull [] [] := ⟨.nil, by simp⟩
  induction limit with
  | zero => exact .fail (.of_full hnone)
  | succ limit ih =>
      apply Guided.get_bind
      intro cursor
      split
      · exact .pure hnone
      · apply (statement_guided ih limit).bind
        rintro first tokens ⟨hfirst, hwell⟩
        apply ih.bind
        rintro rest others ⟨hrest, hwellRest⟩
        apply Guided.pure
        exact ⟨by simpa using .cons hfirst hrest, by simpa using ⟨hwell, hwellRest⟩⟩

theorem block_guided : Guided block BlockFull :=
  .bounded statements_guided

/-- What a global is written with. -/
def GlobalFull (g : Global) (tokens : List Token) : Prop :=
  g.Written tokens ∧ g.WellFormed

/-- What a function is written with. -/
def FunctionFull (f : Function) (tokens : List Token) : Prop :=
  f.Written tokens ∧ f.WellFormed

theorem elements_guided :
    Guided elements fun value tokens => ∃ id es, value = .list id es ∧
      Bracketed Expr.Written Expr.WellFormed "]" es tokens := by
  apply (Guided.bounded (separated_guided (expr_guided .lowest) "]")).bind
  intro es tokens hes
  apply freshId_guided
  intro id
  exact ⟨id, es, rfl, by simpa using hes⟩

theorem initial_list_guided :
    Guided (initial true) fun value tokens => ∃ id es sign opening inside,
      value = some (.list id es) ∧ Token.IsOperator "=" sign ∧ Token.IsOperator "[" opening ∧
      Bracketed Expr.Written Expr.WellFormed "]" es inside ∧
      tokens = sign :: opening :: inside := by
  apply (expectOperator_guided "=").bind
  rintro sign _ ⟨hsign, rfl⟩
  apply (expectOperator_guided "[").bind
  rintro opening _ ⟨hopening, rfl⟩
  apply elements_guided.bind
  rintro _ inside ⟨id, es, rfl, hes⟩
  apply Guided.pure
  exact ⟨id, es, sign, opening, inside, rfl, hsign, hopening, hes, by simp⟩

/-- Where a global begins, it is followed to its end. -/
theorem global_follows {start : Cursor} (hat : atGlobal start = true) :
    Follows global start GlobalFull := by
  apply Follows.get_bind
  cases hlist : start.atKeyword .LIST with
  | true =>
      refine Follows.advance_bind (Token.exists_isKeyword .LIST)
        (fun word hhead => (Cursor.tells_atKeyword .LIST).of_head hlist hhead) ?_
      intro word hword
      apply (expectName_guided _).bind
      rintro name _ ⟨token, htoken, rfl⟩
      apply (expectOperator_guided ":").bind
      rintro colon _ ⟨hcolon, rfl⟩
      apply (expectName_guided _).bind
      rintro typeName _ ⟨typeToken, htypeToken, rfl⟩
      apply initial_list_guided.bind
      rintro _ _ ⟨listId, es, sign, opening, _, rfl, hsign, hopening,
        ⟨inside, closing, hes, hclosing, rfl, hwell⟩, rfl⟩
      apply (expectOperator_guided ";").bind
      rintro semicolon _ ⟨hsemicolon, rfl⟩
      apply freshId_guided
      intro id
      refine ⟨?_, htoken.2.2, htypeToken.2.2, .list hes.ne_nil hwell⟩
      simpa using
        Global.Written.list hword htoken hcolon htypeToken hsign hopening hes hclosing hsemicolon
  | false =>
      refine Follows.advance_bind
        (Token.exists_isKeyword (if start.atKeyword .VAR then .VAR else .VAL))
        (fun word hhead => isKeyword_of_atGlobal hat hlist hhead) ?_
      intro word hword
      apply (expectName_guided _).bind
      rintro name _ ⟨token, htoken, rfl⟩
      apply (expectOperator_guided ":").bind
      rintro colon _ ⟨hcolon, rfl⟩
      apply (expectName_guided _).bind
      rintro typeName _ ⟨typeToken, htypeToken, rfl⟩
      apply optionalValue_guided.bind
      rintro value tokens ⟨hvalue, hwell⟩
      apply (expectOperator_guided ";").bind
      rintro semicolon _ ⟨hsemicolon, rfl⟩
      apply freshId_guided
      intro id
      refine ⟨?_, htoken.2.2, htypeToken.2.2, ?_⟩
      · simpa using Global.Written.scalar hword htoken hcolon htypeToken hvalue hsemicolon
      · cases value with
        | none => exact .none
        | some value => exact .scalar (hwell value rfl)

theorem parameter_guided :
    Guided parameter fun each tokens => ParameterWritten each tokens ∧
      Keyword.ofText? each.1 = none ∧ Keyword.ofText? each.2 = none := by
  apply (expectName_guided _).bind
  rintro name _ ⟨token, htoken, rfl⟩
  apply (expectOperator_guided ":").bind
  rintro colon _ ⟨hcolon, rfl⟩
  apply (expectName_guided _).bind
  rintro typeName _ ⟨typeToken, htypeToken, rfl⟩
  apply Guided.pure
  exact ⟨.mk htoken hcolon htypeToken, htoken.2.2, htypeToken.2.2⟩

theorem parameters_guided :
    Guided parameters fun parameters tokens => ∃ inside closing,
      ParametersWritten parameters inside ∧ Token.IsOperator ")" closing ∧
      tokens = inside ++ [closing] ∧ ∀ each ∈ parameters,
        Keyword.ofText? each.1 = none ∧ Keyword.ofText? each.2 = none := by
  apply tryOperator_guided
  · intro closing hclosing
    exact .pure ⟨[], closing, .nil, hclosing, rfl, by simp⟩
  · intro _
    apply (Guided.bounded (separated_guided parameter_guided ")")).imp
    rintro parameters _ ⟨inside, closing, hinside, hclosing, rfl, hfree⟩
    exact ⟨inside, closing, .some hinside, hclosing, rfl, hfree⟩

theorem function_guided : Guided function FunctionFull := by
  apply (expectKeyword_guided .FUN _).bind
  rintro word _ ⟨hword, rfl⟩
  apply (expectName_guided _).bind
  rintro name _ ⟨token, htoken, rfl⟩
  apply (expectOperator_guided "(").bind
  rintro opening _ ⟨hopening, rfl⟩
  apply parameters_guided.bind
  rintro parameters _ ⟨inside, closing, hinside, hclosing, rfl, hfree⟩
  apply typeAnnotation_guided.bind
  rintro returnType typeTokens ⟨htype, hfreeType⟩
  apply (expectKeyword_guided .DO _).bind
  rintro doing _ ⟨hdoing, rfl⟩
  apply block_guided.bind
  rintro body bodyTokens ⟨hbody, hwellBody⟩
  apply (expectKeyword_guided .END _).bind
  rintro ending _ ⟨hending, rfl⟩
  apply freshId_guided
  intro id
  refine ⟨?_, htoken.2.2, by simp, ?_, ?_, hfreeType, hwellBody⟩
  · simpa using Function.Written.mk rfl rfl hword htoken hopening hinside hclosing htype hdoing
      hbody hending
  · intro name hname
    obtain ⟨each, heach, rfl⟩ := List.mem_map.mp hname
    exact (hfree each heach).1
  · intro name hname
    obtain ⟨each, heach, rfl⟩ := List.mem_map.mp hname
    exact (hfree each heach).2

/-- Items that are read as long as a test holds, if each is followed to its end where it holds. -/
theorem whileAt_guided {α : Type} {test : Cursor → Bool} {step : Parse α}
    {Written : α → List Token → Prop} {Valid : α → Prop}
    (hstep : ∀ start, test start = true →
      Follows step start fun each tokens => Written each tokens ∧ Valid each) (limit : Nat) :
    Guided (whileAt test step limit) fun items tokens =>
      Sequence Written items tokens ∧ ∀ each ∈ items, Valid each := by
  have hnone : Viable (fun items tokens => Sequence Written items tokens ∧
      ∀ each ∈ items, Valid each) [] := ⟨[], [], .nil, by simp⟩
  induction limit with
  | zero => exact .fail hnone
  | succ limit ih =>
      refine ⟨hnone, fun start => ?_⟩
      apply Follows.get_bind
      split
      next htest =>
        have hrest : ∀ first tokens, Written first tokens ∧ Valid first → Guided (do
            let rest ← whileAt test step limit
            return first :: rest) fun items more =>
              Sequence Written items (tokens ++ more) ∧ ∀ each ∈ items, Valid each := by
          rintro first tokens ⟨hfirst, hvalid⟩
          apply ih.bind
          rintro rest others ⟨hothers, hvalids⟩
          apply Guided.pure
          exact ⟨by simpa using Sequence.cons hfirst hothers, by simpa using ⟨hvalid, hvalids⟩⟩
        have hany : Gives step start fun _ _ => True := Ensures.of_forall fun _ _ _ => trivial
        apply (hstep start htest).bind hany
        · intro first tokens hfirst
          exact (hrest first tokens hfirst).viable
        · intro first tokens finish hfirst _
          exact (hrest first tokens hfirst).follows finish
      · exact Follows.pure ⟨.nil, by simp⟩

/-- A program is followed to its end, or up to where it could still have been completed. -/
theorem program_guided :
    Guided program fun p tokens => p.Written tokens ∧ p.WellFormed := by
  have hglobals : Guided (bounded (whileAt atGlobal global)) fun globals tokens =>
      Sequence Global.Written globals tokens ∧ ∀ g ∈ globals, g.WellFormed :=
    .bounded (whileAt_guided fun _ => global_follows)
  have hfunctions : Guided (bounded (whileAt (·.atKeyword .FUN) function)) fun functions tokens =>
      Sequence Function.Written functions tokens ∧ ∀ f ∈ functions, f.WellFormed :=
    .bounded (whileAt_guided fun start _ => function_guided.follows start)
  apply hglobals.bind
  rintro globals globalTokens ⟨hglobals, hwellGlobals⟩
  apply hfunctions.bind
  rintro functions functionTokens ⟨hfunctions, hwellFunctions⟩
  cases functions with
  | nil =>
      -- Where a function is missing, any function completes the program.
      obtain ⟨tokens, f, hwritten, hwell⟩ := function_guided.viable
      cases hfunctions
      refine .fail ⟨tokens, ⟨globals, [f]⟩, ?_, hwellGlobals, by simpa using hwell, by simp⟩
      have hone : Sequence Function.Written [f] tokens := by
        simpa using Sequence.cons hwritten .nil
      exact .mk hglobals hone
  | cons f others =>
      have hfull : Program.Written ⟨globals, f :: others⟩ (globalTokens ++ (functionTokens ++ [])) ∧
          Program.WellFormed ⟨globals, f :: others⟩ :=
        ⟨by simpa using Program.Written.mk hglobals hfunctions, hwellGlobals, hwellFunctions,
          by simp⟩
      apply Guided.get_bind
      intro cursor
      split
      · exact .pure hfull
      · exact .fail (.of_full hfull)

end Parse

end Scriptlet
