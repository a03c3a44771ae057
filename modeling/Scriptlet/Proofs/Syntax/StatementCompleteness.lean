import Scriptlet.Proofs.Syntax.ExpressionCompleteness
import Scriptlet.Syntax.Parse.Statement

/-! # Reading statements is complete

A well-formed statement is read back from any tokens it is written with, whatever follows it. A
block is read back where a word that closes blocks follows.
-/

namespace Scriptlet

/-- A statement can begin with the token: it is not one of the words that close a block. -/
def Token.BeginsStmt (token : Token) : Prop :=
  ∀ keyword ∈ token.keyword?,
    keyword ≠ .END ∧ keyword ≠ .ELSE ∧ keyword ≠ .DEFAULT ∧ keyword ≠ .CASE

namespace Token

variable {token : Token}

theorem BeginsExpr.beginsStmt (h : token.BeginsExpr) : token.BeginsStmt := by
  intro keyword hkeyword
  have hvalue := h.2 keyword hkeyword
  cases keyword <;> simp_all [Keyword.literal?]

theorem IsKeyword.beginsStmt {keyword : Keyword} (h : token.IsKeyword keyword)
    (hkeyword : keyword ≠ .END ∧ keyword ≠ .ELSE ∧ keyword ≠ .DEFAULT ∧ keyword ≠ .CASE) :
    token.BeginsStmt := by
  intro other hother
  rw [Token.IsKeyword] at h
  rw [h] at hother
  cases hother
  exact hkeyword

end Token

theorem Stmt.Written.exists_cons {s : Stmt} {tokens : List Token} (h : s.Written tokens) :
    ∃ token others, tokens = token :: others ∧ token.BeginsStmt := by
  cases h with
  | declaration hword | switch hword | branch hword | branchElse hword | loop hword | ret hword =>
      exact ⟨_, _, rfl, hword.beginsStmt (by decide)⟩
  | assignment hreceiver =>
      obtain ⟨token, others, rfl, hbegins⟩ := hreceiver.exists_cons
      exact ⟨token, _, rfl, hbegins.beginsStmt⟩
  | expression hvalue =>
      obtain ⟨token, others, rfl, hbegins⟩ := hvalue.exists_cons
      exact ⟨token, _, rfl, hbegins.beginsStmt⟩

namespace Parse

variable {rest : List Token}

/-- A block ends in front of these tokens. -/
def EndsBlock (rest : List Token) : Prop :=
  ∀ cursor : Cursor, cursor.tokens = rest → atBlockEnd cursor = true

theorem EndsBlock.of_isKeyword {keyword : Keyword} {token : Token} (h : token.IsKeyword keyword)
    (hkeyword : keyword = .END ∨ keyword = .ELSE ∨ keyword = .DEFAULT ∨ keyword = .CASE) :
    EndsBlock (token :: rest) := by
  intro cursor hcursor
  have hat : cursor.atKeyword keyword = true :=
    Cursor.atKeyword_iff.mpr ⟨token, by simp [hcursor], h⟩
  rcases hkeyword with rfl | rfl | rfl | rfl <;> simp [atBlockEnd, hat]

theorem not_atBlockEnd {cursor : Cursor} {token : Token}
    (hcursor : cursor.tokens.head? = some token) (h : token.BeginsStmt) :
    ¬atBlockEnd cursor = true := by
  have hsome : cursor.tokens.isEmpty = false := by
    cases htokens : cursor.tokens with
    | nil => simp [htokens] at hcursor
    | cons => rfl
  have hnot : ∀ keyword, keyword = .END ∨ keyword = .ELSE ∨ keyword = .DEFAULT ∨ keyword = .CASE →
      cursor.atKeyword keyword = false := by
    intro keyword hkeyword
    rw [Bool.eq_false_iff, ne_eq, Cursor.atKeyword_iff, hcursor]
    rintro ⟨_, ⟨⟩, hword⟩
    have hother := h keyword hword
    rcases hkeyword with rfl | rfl | rfl | rfl <;> simp at hother
  simp [atBlockEnd, hsome, hnot]

theorem typeAnnotation_accepts {typeName : Option String} {tokens rest : List Token}
    (h : TypeWritten typeName tokens) (hrest : ∀ token ∈ rest.head?, ¬token.IsOperator ":") :
    Accepts typeAnnotation tokens rest fun result => result = typeName := by
  cases h with
  | none => exact tryOperator_skips hrest (.pure rfl)
  | some hcolon hname =>
      apply tryOperator_accepts hcolon
      apply (expectName_accepts hname _ rest).bind_last
      rintro _ rfl
      exact .pure rfl

theorem optionalValue_accepts {initial : Option Expr} {tokens : List Token} {semicolon : Token}
    (h : ValueWritten initial tokens) (hwell : ∀ value ∈ initial, value.WellFormed)
    (hsemicolon : semicolon.IsOperator ";") (rest : List Token) :
    Accepts optionalValue tokens (semicolon :: rest)
      fun result => result.map Expr.unnumbered = initial.map Expr.unnumbered := by
  cases h with
  | none =>
      apply tryOperator_skips
      · rintro _ ⟨⟩ ⟨-, hother⟩
        exact absurd (hsemicolon.2.symm.trans hother) (by decide)
      · exact .pure rfl
  | some hsign hvalue =>
      apply tryOperator_accepts hsign
      apply (expr_accepts (hwell _ rfl) hvalue (.of_isOperator hsemicolon (by decide))).bind_last
      intro result hresult
      exact .pure (by simp [hresult])

theorem declaration_accepts {id : NodeId} {name : String} {typeName : Option String}
    {initial : Option Expr} {word token semicolon : Token} {typeTokens valueTokens : List Token}
    (hword : word.IsKeyword .LET) (hname : token.IsName name)
    (htype : TypeWritten typeName typeTokens) (hvalue : ValueWritten initial valueTokens)
    (hsemicolon : semicolon.IsOperator ";") (hwell : ∀ value ∈ initial, value.WellFormed)
    (rest : List Token) :
    Accepts declaration (word :: token :: typeTokens ++ valueTokens ++ [semicolon]) rest
      fun result => result.unnumbered =
        (Stmt.declaration id name typeName initial).unnumbered := by
  have hbehind : ∀ token ∈ (valueTokens ++ semicolon :: rest).head?, ¬token.IsOperator ":" := by
    cases hvalue with
    | none =>
        rintro _ ⟨⟩ ⟨-, hother⟩
        exact absurd (hsemicolon.2.symm.trans hother) (by decide)
    | some hsign _ =>
        rintro _ ⟨⟩ ⟨-, hother⟩
        exact absurd (hsign.2.symm.trans hother) (by decide)
  rw [List.append_assoc]
  apply (expectKeyword_accepts hword _ _).bind
  intro _ _
  apply (expectName_accepts hname _ _).bind
  rintro _ rfl
  apply (typeAnnotation_accepts htype (by simpa using hbehind)).bind
  rintro _ rfl
  apply (optionalValue_accepts hvalue hwell hsemicolon _).bind
  intro result hresult
  apply (expectOperator_accepts hsemicolon rest).bind_last
  intro _ _
  exact freshId_accepts fun id => by simp [Stmt.unnumbered, hresult]

theorem returning_accepts {value : Expr} {word semicolon : Token} {tokens : List Token}
    (hword : word.IsKeyword .RETURN) (hvalue : value.Written tokens)
    (hsemicolon : semicolon.IsOperator ";") (hwell : value.WellFormed) (rest : List Token) :
    Accepts returning (word :: tokens ++ [semicolon]) rest
      fun result => result.unnumbered = (Stmt.ret value).unnumbered := by
  apply (expectKeyword_accepts hword _ _).bind
  intro _ _
  apply (expr_accepts hwell hvalue (.of_isOperator hsemicolon (by decide))).bind
  intro result hresult
  apply (expectOperator_accepts hsemicolon rest).bind_last
  intro _ _
  exact .pure (by simp [Stmt.unnumbered, hresult])

theorem assignment_accepts {receiver value : Expr} {sign semicolon : Token}
    {before after : List Token} (hreceiver : receiver.Written before)
    (hsign : sign.IsOperator "=") (hvalue : value.Written after)
    (hsemicolon : semicolon.IsOperator ";") (hwell : receiver.WellFormed)
    (hwellValue : value.WellFormed) (rest : List Token) :
    Accepts simple (before ++ sign :: after ++ [semicolon]) rest
      fun result => result.unnumbered = (Stmt.assignment receiver value).unnumbered := by
  rw [List.append_assoc, List.cons_append]
  apply (expr_accepts hwell hreceiver (.of_isOperator hsign (by decide))).bind
  intro result hresult
  apply tryOperator_accepts hsign
  apply (expr_accepts hwellValue hvalue (.of_isOperator hsemicolon (by decide))).bind
  intro assigned hassigned
  apply (expectOperator_accepts hsemicolon rest).bind_last
  intro _ _
  exact .pure (by simp [Stmt.unnumbered, hresult, hassigned])

theorem simple_accepts {value : Expr} {semicolon : Token} {tokens : List Token}
    (hvalue : value.Written tokens) (hsemicolon : semicolon.IsOperator ";")
    (hwell : value.WellFormed) (rest : List Token) :
    Accepts simple (tokens ++ [semicolon]) rest
      fun result => result.unnumbered = (Stmt.expression value).unnumbered := by
  apply (expr_accepts hwell hvalue (.of_isOperator hsemicolon (by decide))).bind
  intro result hresult
  apply tryOperator_skips
  · rintro _ ⟨⟩ ⟨-, hother⟩
    exact absurd (hsemicolon.2.symm.trans hother) (by decide)
  apply (expectOperator_accepts hsemicolon rest).bind_last
  intro _ _
  exact .pure (by simp [Stmt.unnumbered, hresult])

section

variable {nested : Parse (List Stmt)} {limit : Nat}

/-- The reader of nested blocks accepts every block that is written with fewer tokens than the
limit. -/
def AcceptsBlocks (nested : Parse (List Stmt)) (limit : Nat) : Prop :=
  ∀ (body : List Stmt) (tokens rest : List Token), (∀ s ∈ body, s.WellFormed) →
    Sequence Stmt.Written body tokens → EndsBlock rest → tokens.length < limit →
    Accepts nested tokens rest
      fun result => Stmt.unnumberedBlock result = Stmt.unnumberedBlock body

theorem arms_accepts {arms : List Case} {tokens rest : List Token} {bound : Nat}
    (hnested : AcceptsBlocks nested bound) {default : Token} (hdefault : default.IsKeyword .DEFAULT)
    (hwritten : Sequence Case.Written arms tokens)
    (hvalues : ∀ arm ∈ arms, ∀ value ∈ arm.value, value.WellFormed)
    (hbodies : ∀ arm ∈ arms, ∀ inner ∈ arm.body, inner.WellFormed)
    (hbound : tokens.length < bound) (hlimit : tokens.length < limit) :
    Accepts (Parse.arms nested limit) tokens (default :: rest)
      fun result => Stmt.unnumberedCases result = Stmt.unnumberedCases arms := by
  induction hwritten generalizing limit with
  | nil =>
      obtain ⟨limit, rfl⟩ : ∃ n, limit = n + 1 := ⟨limit - 1, by omega⟩
      apply tryKeyword_skips
      · rintro _ ⟨⟩ hother
        exact nomatch hdefault.symm.trans hother
      · exact .pure rfl
  | @cons arm arms these others harm hrest ih =>
      obtain ⟨limit, rfl⟩ : ∃ n, limit = n + 1 := ⟨limit - 1, by omega⟩
      rw [List.length_append] at hbound hlimit
      cases harm with
      | @mk value body word colon tokens bodyTokens hword hvalue hcolon hbody =>
          simp only [List.length_append, List.length_cons] at hbound hlimit
          have hends : EndsBlock (others ++ default :: rest) := by
            cases hrest with
            | nil => exact .of_isKeyword hdefault (by decide)
            | cons hnext _ =>
                cases hnext with
                | mk hword => exact .of_isKeyword hword (by decide)
          simp only [List.cons_append, List.append_assoc]
          apply tryKeyword_accepts hword
          apply (expr_accepts (hvalues _ List.mem_cons_self _ rfl) hvalue
            (.of_isOperator hcolon (by decide))).bind
          intro result hresult
          apply (expectOperator_accepts hcolon _).bind
          intro _ _
          apply (hnested body _ _ (hbodies _ List.mem_cons_self) hbody hends (by omega)).bind
          intro statements hstatements
          have hothers : Accepts (Parse.arms nested limit) others (default :: rest)
              fun result => Stmt.unnumberedCases result = Stmt.unnumberedCases arms :=
            ih (fun arm harm => hvalues arm (List.mem_cons_of_mem _ harm))
              (fun arm harm => hbodies arm (List.mem_cons_of_mem _ harm)) (by omega) (by omega)
          apply hothers.bind_last
          intro results hresults
          exact .pure (by simp [Stmt.unnumberedCases, hresult, hstatements, hresults])

theorem switch_accepts (hnested : AcceptsBlocks nested limit) {condition : Expr} {arms : List Case}
    {body : List Stmt} {word default ending : Token} {tokens armTokens bodyTokens : List Token}
    (hword : word.IsKeyword .SWITCH) (hcondition : condition.Written tokens)
    (harms : Sequence Case.Written arms armTokens) (hdefault : default.IsKeyword .DEFAULT)
    (hbody : Sequence Stmt.Written body bodyTokens) (hending : ending.IsKeyword .END)
    (hwell : condition.WellFormed)
    (hvalues : ∀ arm ∈ arms, ∀ value ∈ arm.value, value.WellFormed)
    (hbodies : ∀ arm ∈ arms, ∀ inner ∈ arm.body, inner.WellFormed)
    (hlast : ∀ inner ∈ body, inner.WellFormed)
    (hlimit : armTokens.length < limit ∧ bodyTokens.length < limit) (rest : List Token) :
    Accepts (Parse.switch nested limit)
      (word :: tokens ++ armTokens ++ default :: bodyTokens ++ [ending]) rest
      fun result => result.unnumbered =
        (Stmt.switch condition (arms ++ [.mk none body])).unnumbered := by
  have hstops : StopsAt .lowest (armTokens ++ default :: (bodyTokens ++ ending :: rest)) := by
    cases harms with
    | nil => exact .of_isKeyword hdefault
    | cons hnext _ =>
        cases hnext with
        | mk hword => exact .of_isKeyword hword
  simp only [List.cons_append, List.append_assoc]
  apply (expectKeyword_accepts hword _ _).bind
  intro _ _
  apply (expr_accepts hwell hcondition (by simpa using hstops)).bind
  intro result hresult
  apply (arms_accepts hnested hdefault harms hvalues hbodies hlimit.1 hlimit.1).bind
  intro results hresults
  apply tryKeyword_accepts hdefault
  apply (hnested body _ _ hlast hbody (.of_isKeyword hending (by decide)) hlimit.2).bind
  intro statements hstatements
  apply Accepts.get_bind
  intro cursor hcursor
  have hnot : ∀ keyword, keyword ≠ .END → cursor.atKeyword keyword = false := by
    intro keyword hkeyword
    rw [Bool.eq_false_iff, ne_eq, Cursor.atKeyword_iff, hcursor]
    rintro ⟨_, ⟨⟩, hother⟩
    exact hkeyword (Option.some.inj (hother.symm.trans hending))
  rw [hnot .DEFAULT (by decide), hnot .CASE (by decide)]
  apply (expectKeyword_accepts hending _ rest).bind_last
  intro _ _
  refine .pure ?_
  simp [Stmt.unnumbered, Stmt.unnumberedCases_append, Stmt.unnumberedCases, hresult, hresults,
    hstatements]

theorem alternative_skips {ending : Token} (hending : ending.IsKeyword .END) (rest : List Token) :
    Accepts (alternative nested) [] (ending :: rest)
      fun result => Stmt.unnumberedBlock result = Stmt.unnumberedBlock [] := by
  apply tryKeyword_skips
  · rintro _ ⟨⟩ hother
    exact nomatch hending.symm.trans hother
  · exact .pure rfl

/-- A conditional is accepted if what stands between its first block and its end is accepted as an
alternative. -/
theorem branch_accepts (hnested : AcceptsBlocks nested limit) {condition : Expr}
    {thenBlock elseBlock : List Stmt} {word doing ending : Token}
    {tokens thenTokens elseTokens rest : List Token} (hword : word.IsKeyword .IF)
    (hcondition : condition.Written tokens) (hdoing : doing.IsKeyword .DO)
    (hthen : Sequence Stmt.Written thenBlock thenTokens) (hending : ending.IsKeyword .END)
    (hwell : condition.WellFormed) (hwellThen : ∀ inner ∈ thenBlock, inner.WellFormed)
    (hlimit : thenTokens.length < limit) (hends : EndsBlock (elseTokens ++ ending :: rest))
    (helse : Accepts (alternative nested) elseTokens (ending :: rest)
      fun result => Stmt.unnumberedBlock result = Stmt.unnumberedBlock elseBlock) :
    Accepts (branch nested)
      (word :: (tokens ++ doing :: (thenTokens ++ (elseTokens ++ [ending])))) rest
      fun result => result.unnumbered = (Stmt.branch condition thenBlock elseBlock).unnumbered := by
  apply (expectKeyword_accepts hword _ _).bind
  intro _ _
  apply (expr_accepts hwell hcondition (.of_isKeyword hdoing)).bind
  intro result hresult
  apply (expectKeyword_accepts hdoing _ _).bind
  intro _ _
  apply (hnested thenBlock _ _ hwellThen hthen (by simpa using hends) hlimit).bind
  intro statements hstatements
  apply helse.bind
  intro others hothers
  apply (expectKeyword_accepts hending _ rest).bind_last
  intro _ _
  exact .pure (by simp [Stmt.unnumbered, hresult, hstatements, hothers])

theorem loop_accepts (hnested : AcceptsBlocks nested limit) {condition : Expr} {body : List Stmt}
    {word doing ending : Token} {tokens bodyTokens : List Token} (hword : word.IsKeyword .WHILE)
    (hcondition : condition.Written tokens) (hdoing : doing.IsKeyword .DO)
    (hbody : Sequence Stmt.Written body bodyTokens) (hending : ending.IsKeyword .END)
    (hwell : condition.WellFormed) (hwellBody : ∀ inner ∈ body, inner.WellFormed)
    (hlimit : bodyTokens.length < limit) (rest : List Token) :
    Accepts (loop nested) (word :: tokens ++ doing :: bodyTokens ++ [ending]) rest
      fun result => result.unnumbered = (Stmt.loop condition body).unnumbered := by
  simp only [List.cons_append, List.append_assoc]
  apply (expectKeyword_accepts hword _ _).bind
  intro _ _
  apply (expr_accepts hwell hcondition (.of_isKeyword hdoing)).bind
  intro result hresult
  apply (expectKeyword_accepts hdoing _ _).bind
  intro _ _
  apply (hnested body _ _ hwellBody hbody (.of_isKeyword hending (by decide)) hlimit).bind
  intro statements hstatements
  apply (expectKeyword_accepts hending _ rest).bind_last
  intro _ _
  exact .pure (by simp [Stmt.unnumbered, hresult, hstatements])

/-- A statement that begins like an expression is an expression or an assignment. -/
theorem statement_accepts_of_beginsExpr {token : Token} {tokens : List Token} {good : Stmt → Prop}
    (hbegins : token.BeginsExpr) (h : Accepts simple (token :: tokens) rest good) :
    Accepts (statement nested limit) (token :: tokens) rest good := by
  apply Accepts.get_bind
  intro cursor hcursor
  have hnot : ∀ keyword : Keyword, keyword.literal? = none → token.keyword? ≠ some keyword :=
    fun keyword hkeyword => hbegins.not_isKeyword hkeyword
  simp only [hcursor, List.cons_append, List.head?_cons, Option.bind_some]
  split
  next hword => exact absurd hword (hnot .LET rfl)
  next hword => exact absurd hword (hnot .SWITCH rfl)
  next hword => exact absurd hword (hnot .IF rfl)
  next hword => exact absurd hword (hnot .WHILE rfl)
  next hword => exact absurd hword (hnot .RETURN rfl)
  · exact h

theorem keyword?_head {cursor : Cursor} {keyword : Keyword} {token : Token} {others : List Token}
    (hcursor : cursor.tokens = token :: others) (h : token.IsKeyword keyword) :
    cursor.tokens.head?.bind Token.keyword? = some keyword := by
  rw [hcursor]
  exact h

/-- Every well-formed statement is accepted, whatever follows it. -/
theorem statement_accepts (hnested : AcceptsBlocks nested limit) {s : Stmt} {tokens : List Token}
    (hwell : s.WellFormed) (hwritten : s.Written tokens) (hlimit : tokens.length ≤ limit)
    (rest : List Token) :
    Accepts (statement nested limit) tokens rest
      fun result => result.unnumbered = s.unnumbered := by
  cases hwritten with
  | declaration hword hname htype hvalue hsemicolon =>
      cases hwell with
      | declaration _ _ hwell =>
          apply Accepts.get_bind
          intro cursor hcursor
          rw [keyword?_head hcursor hword]
          exact declaration_accepts hword hname htype hvalue hsemicolon hwell rest
  | switch hword hcondition harms hdefault hbody hending =>
      cases hwell with
      | switch hwell _ hvalues hbodies =>
          simp only [List.length_append, List.length_cons] at hlimit
          apply Accepts.get_bind
          intro cursor hcursor
          rw [keyword?_head hcursor hword]
          exact switch_accepts hnested hword hcondition harms hdefault hbody hending hwell
            (fun arm harm => hvalues arm (List.mem_append_left _ harm))
            (fun arm harm => hbodies arm (List.mem_append_left _ harm))
            (hbodies (.mk none _) (by simp)) (by omega) rest
  | branch hword hcondition hdoing hthen hending =>
      cases hwell with
      | branch hwell hwellThen _ =>
          simp only [List.length_append, List.length_cons] at hlimit
          have haccepts := branch_accepts hnested hword hcondition hdoing hthen hending hwell
            hwellThen (by omega) (.of_isKeyword hending (by decide))
            (alternative_skips hending rest)
          apply Accepts.get_bind
          intro cursor hcursor
          rw [keyword?_head hcursor hword]
          exact haccepts.cast (by simp)
  | branchElse hword hcondition hdoing hthen hotherwise helse hending =>
      cases hwell with
      | branch hwell hwellThen hwellElse =>
          simp only [List.length_append, List.length_cons] at hlimit
          have hothers := hnested _ _ (_ :: rest) hwellElse helse
            (.of_isKeyword hending (by decide)) (by omega)
          have haccepts := branch_accepts hnested hword hcondition hdoing hthen hending hwell
            hwellThen (by omega) (.of_isKeyword hotherwise (by decide))
            (tryKeyword_accepts hotherwise hothers)
          apply Accepts.get_bind
          intro cursor hcursor
          rw [keyword?_head hcursor hword]
          exact haccepts.cast (by simp)
  | loop hword hcondition hdoing hbody hending =>
      cases hwell with
      | loop hwell hwellBody =>
          simp only [List.length_append, List.length_cons] at hlimit
          apply Accepts.get_bind
          intro cursor hcursor
          rw [keyword?_head hcursor hword]
          exact loop_accepts hnested hword hcondition hdoing hbody hending hwell hwellBody
            (by omega) rest
  | ret hword hvalue hsemicolon =>
      cases hwell with
      | ret hwell =>
          apply Accepts.get_bind
          intro cursor hcursor
          rw [keyword?_head hcursor hword]
          exact returning_accepts hword hvalue hsemicolon hwell rest
  | assignment hreceiver hsign hvalue hsemicolon =>
      cases hwell with
      | assignment hwell hwellValue =>
          have haccepts :=
            assignment_accepts hreceiver hsign hvalue hsemicolon hwell hwellValue rest
          obtain ⟨token, others, rfl, hbegins⟩ := hreceiver.exists_cons
          apply statement_accepts_of_beginsExpr hbegins
          exact haccepts
  | expression hvalue hsemicolon =>
      cases hwell with
      | expression hwell =>
          have haccepts := simple_accepts hvalue hsemicolon hwell rest
          obtain ⟨token, others, rfl, hbegins⟩ := hvalue.exists_cons
          apply statement_accepts_of_beginsExpr hbegins
          exact haccepts

end

theorem statements_accepts (limit : Nat) : AcceptsBlocks (statements limit) limit := by
  induction limit with
  | zero =>
      intro body tokens rest _ _ _ hlimit
      exact absurd hlimit (Nat.not_lt_zero _)
  | succ limit ih =>
      intro body tokens rest hwell hwritten hends hlimit
      apply Accepts.get_bind
      intro cursor hcursor
      cases hwritten with
      | nil =>
          rw [if_pos (hends cursor hcursor)]
          exact .pure rfl
      | @cons first others these behind hfirst hothers =>
          obtain ⟨token, more, rfl, hbegins⟩ := hfirst.exists_cons
          rw [if_neg (not_atBlockEnd (by simp [hcursor]) hbegins)]
          simp only [List.length_append, List.length_cons] at hlimit
          apply (statement_accepts ih (hwell first List.mem_cons_self) hfirst
            (by simp only [List.length_cons]; omega) _).bind
          intro result hresult
          apply (ih others behind rest (fun s hs => hwell s (List.mem_cons_of_mem _ hs)) hothers
            hends (by omega)).bind_last
          intro results hresults
          exact .pure (by simp [Stmt.unnumberedBlock, hresult, hresults])

/-- A block of well-formed statements is accepted in front of a word that closes it. -/
theorem block_accepts {body : List Stmt} {tokens rest : List Token}
    (hwell : ∀ s ∈ body, s.WellFormed) (hwritten : Sequence Stmt.Written body tokens)
    (hends : EndsBlock rest) :
    Accepts block tokens rest
      fun result => Stmt.unnumberedBlock result = Stmt.unnumberedBlock body := by
  apply Accepts.bounded
  intro limit hlimit
  exact statements_accepts limit body tokens rest hwell hwritten hends hlimit

end Parse

end Scriptlet
