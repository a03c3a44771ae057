import Scriptlet.Proofs.Syntax.ExpressionSoundness
import Scriptlet.Syntax.Parse.Statement

/-! # Reading statements is sound

A statement, and a block of them, is read from exactly the tokens it is written with. Where a block
stops is left to whoever reads on: each production asks for its own closing word.
-/

namespace Scriptlet

/-- Arms that all have a value, and one more without, have one default, the last. -/
theorem Case.oneDefault_append {arms : List Case} (harms : ∀ arm ∈ arms, arm.isDefault = false)
    (body : List Stmt) : Case.OneDefault (arms ++ [.mk none body]) := by
  have hnone : arms.countP Case.isDefault = 0 := by
    rw [List.countP_eq_zero]
    simpa using harms
  refine ⟨?_, .mk none body, by simp, rfl⟩
  rw [List.countP_append, hnone]
  rfl

namespace Parse

theorem optionalValue_reading :
    Reading optionalValue ValueWritten Expr.optionNodes
      fun initial => ∀ value ∈ initial, value.WellFormed := by
  intro start
  refine tryOperator_gives ?_ ?_
  · intro sign after hsign hread
    refine (expr_reading .lowest after).bind fun value finish h => Ensures.pure ?_
    obtain ⟨⟨tokens, hreads, hwritten⟩, hvalid⟩ := h
    exact ⟨⟨_, hread.trans hreads, .some hsign hwritten⟩, by simpa using hvalid⟩
  · exact Ensures.pure ⟨⟨[], .refl start, .none⟩, by simp⟩

theorem declaration_reading :
    Reading declaration Stmt.Written Stmt.nodes Stmt.WellFormed := by
  intro start
  refine (expectKeyword_gives _ _ start).bind fun word c1 hword => ?_
  refine (expectName_gives _ c1).bind fun name c2 hname => ?_
  obtain ⟨token, htoken, hname⟩ := hname
  refine (typeAnnotation_reading c2).bind fun typeName c3 htype => ?_
  obtain ⟨⟨typeTokens, htypeReads, htypeWritten⟩, htypeValid⟩ := htype
  refine (optionalValue_reading c3).bind fun initial c4 hvalue => ?_
  obtain ⟨⟨valueTokens, hvalueReads, hvalueWritten⟩, hvalueValid⟩ := hvalue
  refine (expectOperator_gives _ c4).bind fun semicolon c5 hsemicolon => ?_
  refine freshId_gives ⟨⟨_, ?_, .declaration hword.1 htoken htypeWritten hvalueWritten
    hsemicolon.1⟩, .declaration htoken.2.2 htypeValid hvalueValid⟩
  have hreads := (((hword.2.trans hname).trans htypeReads).trans hvalueReads).trans
    (hsemicolon.2.trans (.number (.declaration c5.nextId name typeName initial) rfl))
  exact hreads.cast (by simp) (by simp [Stmt.nodes])

theorem returning_reading : Reading returning Stmt.Written Stmt.nodes Stmt.WellFormed := by
  intro start
  refine (expectKeyword_gives _ _ start).bind fun word c1 hword => ?_
  refine (expr_reading _ c1).bind fun value c2 hvalue => ?_
  obtain ⟨⟨tokens, hreads, hwritten⟩, hvalid⟩ := hvalue
  refine (expectOperator_gives _ c2).bind fun semicolon c3 hsemicolon => Ensures.pure ?_
  refine ⟨⟨_, ?_, .ret hword.1 hwritten hsemicolon.1⟩, .ret hvalid⟩
  exact ((hword.2.trans hreads).trans hsemicolon.2).cast (by simp) (by simp [Stmt.nodes])

theorem simple_reading : Reading simple Stmt.Written Stmt.nodes Stmt.WellFormed := by
  intro start
  refine (expr_reading _ start).bind fun receiver c1 hreceiver => ?_
  obtain ⟨⟨tokens, hreads, hwritten⟩, hvalid⟩ := hreceiver
  refine tryOperator_gives ?_ ?_
  · intro sign c2 hsign hread
    refine (expr_reading _ c2).bind fun value c3 hvalue => ?_
    obtain ⟨⟨others, hmore, hothers⟩, hother⟩ := hvalue
    refine (expectOperator_gives _ c3).bind fun semicolon c4 hsemicolon => Ensures.pure ?_
    refine ⟨⟨_, ?_, .assignment hwritten hsign hothers hsemicolon.1⟩, .assignment hvalid hother⟩
    exact (((hreads.trans hread).trans hmore).trans hsemicolon.2).cast
      (by simp) (by simp [Stmt.nodes])
  · refine (expectOperator_gives _ c1).bind fun semicolon c2 hsemicolon => Ensures.pure ?_
    refine ⟨⟨_, ?_, .expression hwritten hsemicolon.1⟩, .expression hvalid⟩
    exact (hreads.trans hsemicolon.2).cast rfl (by simp [Stmt.nodes])

/-- A block is read with the nodes of its statements. -/
abbrev ReadsBlock (nested : Parse (List Stmt)) : Prop :=
  Reading nested (Sequence Stmt.Written) Stmt.blockNodes
    fun statements => ∀ inner ∈ statements, inner.WellFormed

section

variable {nested : Parse (List Stmt)}

/-- The arms before the default are read, each with a value. -/
theorem arms_reading (hnested : ReadsBlock nested) (limit : Nat) :
    Reading (arms nested limit) (Sequence Case.Written) Stmt.caseNodes fun arms =>
      ∀ arm ∈ arms, arm.isDefault = false ∧ (∀ value ∈ arm.value, value.WellFormed) ∧
        ∀ inner ∈ arm.body, inner.WellFormed := by
  intro start
  induction limit generalizing start with
  | zero => exact fail_gives
  | succ limit ih =>
      refine tryKeyword_gives ?_ ?_
      · intro word c1 hword hread
        refine (expr_reading _ c1).bind fun value c2 hvalue => ?_
        obtain ⟨⟨tokens, hreads, hwritten⟩, hvalid⟩ := hvalue
        refine (expectOperator_gives _ c2).bind fun colon c3 hcolon => ?_
        refine (hnested c3).bind fun body c4 hbody => ?_
        obtain ⟨⟨bodyTokens, hbodyReads, hbodyWritten⟩, hbodyValid⟩ := hbody
        refine (ih c4).bind fun rest c5 hrest => Ensures.pure ?_
        obtain ⟨⟨others, hmore, hothers⟩, hvalids⟩ := hrest
        refine ⟨⟨_, ?_, .cons (.mk hword hwritten hcolon.1 hbodyWritten) hothers⟩, ?_⟩
        · have harm := ((hread.trans hreads).trans hcolon.2).trans hbodyReads
          exact (harm.trans hmore).cast (by simp) (by simp [Stmt.caseNodes, Expr.optionNodes])
        · intro arm harm
          rcases List.mem_cons.mp harm with rfl | harm
          · exact ⟨rfl, by simpa [Case.value] using hvalid, hbodyValid⟩
          · exact hvalids arm harm
      · exact Ensures.pure ⟨⟨[], .refl start, .nil⟩, by simp⟩

theorem switch_reading (hnested : ReadsBlock nested) (limit : Nat) :
    Reading (switch nested limit) Stmt.Written Stmt.nodes Stmt.WellFormed := by
  intro start
  refine (expectKeyword_gives _ _ start).bind fun word c1 hword => ?_
  refine (expr_reading _ c1).bind fun condition c2 hcondition => ?_
  obtain ⟨⟨tokens, hreads, hwritten⟩, hvalid⟩ := hcondition
  refine (arms_reading hnested limit c2).bind fun arms c3 harms => ?_
  obtain ⟨⟨armTokens, harmReads, harmWritten⟩, harmValid⟩ := harms
  refine tryKeyword_gives ?_ failWith_gives
  intro default c4 hdefault hread
  refine (hnested c4).bind fun body c5 hbody => ?_
  obtain ⟨⟨bodyTokens, hbodyReads, hbodyWritten⟩, hbodyValid⟩ := hbody
  apply Ensures.get_bind
  split
  · exact failWith_gives
  refine (expectKeyword_gives _ _ c5).bind fun ending c6 hending => Ensures.pure ?_
  refine ⟨⟨_, ?_, .switch hword.1 hwritten harmWritten hdefault hbodyWritten hending.1⟩, ?_⟩
  · have hcases := (((hword.2.trans hreads).trans harmReads).trans hread).trans hbodyReads
    exact (hcases.trans hending.2).cast (by simp)
      (by simp [Stmt.nodes, Stmt.caseNodes_append, Stmt.caseNodes, Expr.optionNodes])
  · refine .switch hvalid (Case.oneDefault_append (fun arm harm => (harmValid arm harm).1) body)
      ?_ ?_
    · intro arm harm
      rcases List.mem_append.mp harm with harm | harm
      · exact (harmValid arm harm).2.1
      · simp [List.mem_singleton.mp harm, Case.value]
    · intro arm harm
      rcases List.mem_append.mp harm with harm | harm
      · exact (harmValid arm harm).2.2
      · rw [List.mem_singleton.mp harm]
        exact hbodyValid

theorem branch_reading (hnested : ReadsBlock nested) :
    Reading (branch nested) Stmt.Written Stmt.nodes Stmt.WellFormed := by
  intro start
  refine (expectKeyword_gives _ _ start).bind fun word c1 hword => ?_
  refine (expr_reading _ c1).bind fun condition c2 hcondition => ?_
  obtain ⟨⟨tokens, hreads, hwritten⟩, hvalid⟩ := hcondition
  refine (expectKeyword_gives _ _ c2).bind fun doing c3 hdoing => ?_
  refine (hnested c3).bind fun thenBlock c4 hthen => ?_
  obtain ⟨⟨thenTokens, hthenReads, hthenWritten⟩, hthenValid⟩ := hthen
  have hhead := ((hword.2.trans hreads).trans hdoing.2).trans hthenReads
  -- With the word `ELSE` the alternative is whatever follows, without it there is none.
  have halternative : Gives (alternative nested) c4 fun elseBlock finish =>
      (∀ inner ∈ elseBlock, inner.WellFormed) ∧
      ((elseBlock = [] ∧ finish = c4) ∨ ∃ otherwise elseTokens,
        Token.IsKeyword .ELSE otherwise ∧ Sequence Stmt.Written elseBlock elseTokens ∧
        Reads c4 (otherwise :: elseTokens) (Stmt.blockNodes elseBlock) finish) := by
    refine tryKeyword_gives ?_ ?_
    · intro otherwise c5 hotherwise hread
      refine (hnested c5).imp fun elseBlock finish helse => ?_
      obtain ⟨⟨elseTokens, helseReads, helseWritten⟩, helseValid⟩ := helse
      exact ⟨helseValid, .inr ⟨otherwise, elseTokens, hotherwise, helseWritten,
        hread.trans helseReads⟩⟩
    · exact Ensures.pure ⟨by simp, .inl ⟨rfl, rfl⟩⟩
  refine halternative.bind fun elseBlock c5 helse => ?_
  refine (expectKeyword_gives _ _ c5).bind fun ending c6 hending => Ensures.pure ?_
  obtain ⟨helseValid, ⟨rfl, rfl⟩ | ⟨otherwise, elseTokens, hotherwise, helseWritten, hread⟩⟩ :=
    helse
  · refine ⟨⟨_, ?_, .branch hword.1 hwritten hdoing.1 hthenWritten hending.1⟩,
      .branch hvalid hthenValid helseValid⟩
    exact (hhead.trans hending.2).cast (by simp) (by simp [Stmt.nodes, Stmt.blockNodes])
  · refine ⟨⟨_, ?_, .branchElse hword.1 hwritten hdoing.1 hthenWritten hotherwise helseWritten
      hending.1⟩, .branch hvalid hthenValid helseValid⟩
    exact ((hhead.trans hread).trans hending.2).cast (by simp) (by simp [Stmt.nodes])

theorem loop_reading (hnested : ReadsBlock nested) :
    Reading (loop nested) Stmt.Written Stmt.nodes Stmt.WellFormed := by
  intro start
  refine (expectKeyword_gives _ _ start).bind fun word c1 hword => ?_
  refine (expr_reading _ c1).bind fun condition c2 hcondition => ?_
  obtain ⟨⟨tokens, hreads, hwritten⟩, hvalid⟩ := hcondition
  refine (expectKeyword_gives _ _ c2).bind fun doing c3 hdoing => ?_
  refine (hnested c3).bind fun body c4 hbody => ?_
  obtain ⟨⟨bodyTokens, hbodyReads, hbodyWritten⟩, hbodyValid⟩ := hbody
  refine (expectKeyword_gives _ _ c4).bind fun ending c5 hending => Ensures.pure ?_
  refine ⟨⟨_, ?_, .loop hword.1 hwritten hdoing.1 hbodyWritten hending.1⟩,
    .loop hvalid hbodyValid⟩
  have hhead := ((hword.2.trans hreads).trans hdoing.2).trans hbodyReads
  exact (hhead.trans hending.2).cast (by simp) (by simp [Stmt.nodes])

theorem statement_reading (hnested : ReadsBlock nested) (limit : Nat) :
    Reading (statement nested limit) Stmt.Written Stmt.nodes Stmt.WellFormed := by
  intro start
  apply Ensures.get_bind
  split
  · exact declaration_reading start
  · exact switch_reading hnested limit start
  · exact branch_reading hnested start
  · exact loop_reading hnested start
  · exact returning_reading start
  · exact simple_reading start

end

theorem statements_reading (limit : Nat) : ReadsBlock (statements limit) := by
  induction limit with
  | zero =>
      intro start
      exact fail_gives
  | succ limit ih =>
      intro start
      apply Ensures.get_bind
      split
      · exact Ensures.pure ⟨⟨[], .refl start, .nil⟩, by simp⟩
      · refine (statement_reading ih limit start).bind fun first c1 hfirst => ?_
        obtain ⟨⟨tokens, hreads, hwritten⟩, hvalid⟩ := hfirst
        refine (ih c1).bind fun rest c2 hrest => Ensures.pure ?_
        obtain ⟨⟨others, hmore, hothers⟩, hvalids⟩ := hrest
        refine ⟨⟨_, (hreads.trans hmore).cast rfl (by simp [Stmt.blockNodes]),
          .cons hwritten hothers⟩, ?_⟩
        simpa using ⟨hvalid, hvalids⟩

theorem block_reading : ReadsBlock block :=
  fun start => statements_reading _ start

end Parse

end Scriptlet
