import Scriptlet.Proofs.Syntax.StatementCompleteness
import Scriptlet.Syntax.Parse.Program

/-! # Reading programs is complete

A well-formed program is read back, up to the identifiers of its nodes, from any tokens it is
written with.
-/

namespace Scriptlet

/-- What is written behind an equals sign is no list. -/
theorem ValueWritten.wellFormed {mutable : Bool} {value : Option Expr}
    {tokens : List Token} (hwritten : ValueWritten value tokens)
    (hwell : Global.WellFormedInitial mutable value) : ∀ e ∈ value, e.WellFormed := by
  cases hwell with
  | none => simp
  | scalar h => simpa using h
  | list _ _ =>
      cases hwritten with
      | some _ h => cases h

namespace Parse

theorem elements_accepts {id : NodeId} {es : List Expr} {closing : Token} {tokens : List Token}
    (hwell : ∀ e ∈ es, e.WellFormed) (hwritten : Separated Expr.Written es tokens)
    (hclosing : closing.IsOperator "]") (rest : List Token) :
    Accepts elements (tokens ++ [closing]) rest
      fun result => result.unnumbered = (Expr.list id es).unnumbered := by
  have hitems : Accepts (bounded (separated (expr .lowest) "]")) (tokens ++ [closing]) rest
      fun results => results.map Expr.unnumbered = es.map Expr.unnumbered := by
    apply Accepts.bounded
    intro limit hlimit
    rw [List.length_append] at hlimit
    apply separated_accepts _ hclosing (by decide) (exists_cons_of_ne "]" (by decide)) ?_ hwritten
      (by omega)
    rintro each heach these behind token hthese - (hcomma | hbracket)
    · exact expr_accepts (hwell each heach) hthese (.of_isOperator hcomma (by decide))
    · exact expr_accepts (hwell each heach) hthese (.of_isOperator hbracket (by decide))
  apply hitems.bind_last
  intro results hresults
  exact freshId_accepts fun id => by
    simp [Expr.unnumbered, Expr.unnumberedList_eq_map, hresults]

/-- What a global is read as when its value is accepted behind its type. -/
theorem global_accepts_of_initial {id : NodeId} {name typeName : String} {value : Option Expr}
    {keyword : Keyword} {word token colon typeToken semicolon : Token} {tokens rest : List Token}
    (hword : word.IsKeyword keyword) (hname : token.IsName name) (hcolon : colon.IsOperator ":")
    (htype : typeToken.IsName typeName) (hsemicolon : semicolon.IsOperator ";")
    (hvalue : Accepts (initial (keyword = .LIST)) tokens (semicolon :: rest)
      fun result => result.map Expr.unnumbered = value.map Expr.unnumbered) :
    Accepts global (word :: token :: colon :: typeToken :: tokens ++ [semicolon]) rest
      fun result => result.unnumbered =
        Global.unnumbered ⟨id, name, typeName, keyword = .LIST || keyword = .VAR, value⟩ := by
  have hat : ∀ (cursor : Cursor) (other : Keyword), cursor.tokens.head? = some word →
      cursor.atKeyword other = decide (keyword = other) := by
    intro cursor other hhead
    rw [Bool.eq_iff_iff, Cursor.atKeyword_iff, hhead, decide_eq_true_iff]
    rw [Token.IsKeyword] at hword
    simp [Token.IsKeyword, hword]
  apply Accepts.get_bind
  intro cursor hcursor
  have hhead : cursor.tokens.head? = some word := by simp [hcursor]
  simp only [hat cursor _ hhead]
  apply (advance_accepts _ word _).bind
  intro _ _
  apply (expectName_accepts hname _ _).bind
  rintro _ rfl
  apply (expectOperator_accepts hcolon _).bind
  intro _ _
  apply (expectName_accepts htype _ _).bind
  rintro _ rfl
  apply hvalue.bind
  intro result hresult
  apply (expectOperator_accepts hsemicolon rest).bind_last
  intro _ _
  exact freshId_accepts fun id => by simp [Global.unnumbered, hresult]

theorem initial_list_accepts {id : NodeId} {es : List Expr} {sign opening closing : Token}
    {tokens : List Token} (hsign : sign.IsOperator "=") (hopening : opening.IsOperator "[")
    (hwell : ∀ e ∈ es, e.WellFormed) (hwritten : Separated Expr.Written es tokens)
    (hclosing : closing.IsOperator "]") (rest : List Token) :
    Accepts (initial true) (sign :: opening :: (tokens ++ [closing])) rest
      fun result => result.map Expr.unnumbered =
        (some (Expr.list id es)).map Expr.unnumbered := by
  apply (expectOperator_accepts hsign _).bind
  intro _ _
  apply (expectOperator_accepts hopening _).bind
  intro _ _
  apply (elements_accepts hwell hwritten hclosing rest).bind_last
  intro result hresult
  exact .pure (by simpa using hresult)

theorem global_accepts {g : Global} {tokens : List Token} (hwell : g.WellFormed)
    (hwritten : g.Written tokens) (rest : List Token) :
    Accepts global tokens rest fun result => result.unnumbered = g.unnumbered := by
  obtain ⟨-, -, hinitial⟩ := hwell
  cases hwritten with
  | list hword hname hcolon htype hsign hopening hwritten hclosing hsemicolon =>
      cases hinitial with
      | scalar h => cases h
      | list _ helements =>
          refine (global_accepts_of_initial hword hname hcolon htype hsemicolon
            (initial_list_accepts hsign hopening helements hwritten hclosing _)).cast ?_
          simp
  | @scalar _ _ _ mutable _ _ _ _ _ _ _ hword hname hcolon htype hvalue hsemicolon =>
      have haccepts := optionalValue_accepts hvalue (hvalue.wellFormed hinitial) hsemicolon
        rest
      cases mutable with
      | false => exact global_accepts_of_initial hword hname hcolon htype hsemicolon haccepts
      | true => exact global_accepts_of_initial hword hname hcolon htype hsemicolon haccepts

/-- Items that each begin where the test holds are accepted in front of a place where it fails. -/
theorem whileAt_accepts {α γ : Type} {test : Cursor → Bool} {step : Parse α}
    {Written : α → List Token → Prop} (view : α → γ) {items : List α}
    {tokens rest : List Token} {limit : Nat}
    (hbegins : ∀ each these, Written each these → these ≠ [] ∧
      ∀ (cursor : Cursor) (behind : List Token), cursor.tokens = these ++ behind →
        test cursor = true)
    (hrest : ∀ cursor : Cursor, cursor.tokens = rest → test cursor = false)
    (hitem : ∀ each ∈ items, ∀ these behind, Written each these →
      Accepts step these behind fun result => view result = view each)
    (hwritten : Sequence Written items tokens) (hlimit : tokens.length < limit) :
    Accepts (whileAt test step limit) tokens rest
      fun results => results.map view = items.map view := by
  induction hwritten generalizing limit with
  | nil =>
      obtain ⟨limit, rfl⟩ : ∃ n, limit = n + 1 := ⟨limit - 1, by omega⟩
      apply Accepts.get_bind
      intro cursor hcursor
      rw [hrest cursor hcursor]
      exact .pure rfl
  | @cons first others these behind hfirst _ ih =>
      obtain ⟨limit, rfl⟩ : ∃ n, limit = n + 1 := ⟨limit - 1, by omega⟩
      obtain ⟨hsome, htest⟩ := hbegins first these hfirst
      have hlength := List.length_pos_iff.mpr hsome
      rw [List.length_append] at hlimit
      apply Accepts.get_bind
      intro cursor hcursor
      rw [htest cursor (behind ++ rest) (by rw [hcursor, List.append_assoc])]
      apply (hitem first List.mem_cons_self these _ hfirst).bind
      intro result hresult
      have hothers : Accepts (whileAt test step limit) behind rest
          fun results => results.map view = others.map view :=
        ih (fun each heach => hitem each (List.mem_cons_of_mem _ heach)) (by omega)
      apply hothers.bind_last
      intro results hresults
      exact .pure (by simp [hresult, hresults])

theorem parameter_accepts {parameter : String × String} {tokens : List Token}
    (h : ParameterWritten parameter tokens) (rest : List Token) :
    Accepts Parse.parameter tokens rest fun result => result = parameter := by
  cases h with
  | mk hname hcolon htype =>
      apply (expectName_accepts hname _ _).bind
      rintro _ rfl
      apply (expectOperator_accepts hcolon _).bind
      intro _ _
      apply (expectName_accepts htype _ _).bind_last
      rintro _ rfl
      exact .pure rfl

theorem parameters_accepts {parameters : List (String × String)} {closing : Token}
    {tokens : List Token} (h : ParametersWritten parameters tokens)
    (hclosing : closing.IsOperator ")") (rest : List Token) :
    Accepts Parse.parameters (tokens ++ [closing]) rest fun result => result = parameters := by
  cases h with
  | nil => exact tryOperator_accepts hclosing (.pure rfl)
  | some h =>
      have hbegins : ∀ (each : String × String) (tokens : List Token),
          ParameterWritten each tokens →
          ∃ token others, tokens = token :: others ∧ ¬token.IsOperator ")" := by
        intro each tokens heach
        cases heach with
        | mk hname _ _ => exact ⟨_, _, rfl, hname.beginsExpr.not_isOperator (by decide)⟩
      apply tryOperator_skips
      · obtain ⟨token, others, rfl, hnot⟩ := h.exists_cons hbegins
        rintro _ ⟨⟩
        exact hnot
      · apply Accepts.bounded
        intro limit hlimit
        rw [List.length_append] at hlimit
        have hitems : Accepts (separated parameter ")" limit) (tokens ++ [closing]) rest
            fun results => results.map id = parameters.map id := by
          apply separated_accepts id hclosing (by decide) hbegins ?_ h (by omega)
          intro each _ these behind token hthese _ _
          exact parameter_accepts hthese _
        exact hitems.imp fun results hresults => by simpa using hresults

theorem function_accepts {f : Function} {tokens : List Token} (hwell : f.WellFormed)
    (hwritten : f.Written tokens) (rest : List Token) :
    Accepts function tokens rest fun result => result.unnumbered = f.unnumbered := by
  cases hwritten with
  | @mk parameters word token opening closing doing ending parameterTokens typeTokens bodyTokens
      hnames htypes hword hname hopening hparameters hclosing htype hdoing hbody hending =>
      have hcolon : ∀ token ∈ (doing :: (bodyTokens ++ [ending]) ++ rest).head?,
          ¬token.IsOperator ":" := by
        rintro _ ⟨⟩ ⟨hkind, -⟩
        exact nomatch hdoing.kind_eq.symm.trans hkind
      have haccepts : Accepts function
          (word :: token :: opening :: ((parameterTokens ++ [closing]) ++
            (typeTokens ++ doing :: (bodyTokens ++ [ending])))) rest
          fun result => result.unnumbered = f.unnumbered := by
        apply (expectKeyword_accepts hword _ _).bind
        intro _ _
        apply (expectName_accepts hname _ _).bind
        intro name hsame
        apply (expectOperator_accepts hopening _).bind
        intro _ _
        apply (parameters_accepts hparameters hclosing _).bind
        rintro _ rfl
        apply (typeAnnotation_accepts htype hcolon).bind
        intro returnType hreturn
        apply (expectKeyword_accepts hdoing _ _).bind
        intro _ _
        apply (block_accepts hwell.body hbody (.of_isKeyword hending (by decide))).bind
        intro statements hstatements
        apply (expectKeyword_accepts hending _ rest).bind_last
        intro _ _
        exact freshId_accepts fun id => by
          simp [Function.unnumbered, hsame, hreturn, hstatements, hnames, htypes]
      exact haccepts.cast (by simp)

/-- A global begins with one of its three words. -/
theorem atGlobal_of_written {g : Global} {tokens behind : List Token} {cursor : Cursor}
    (h : g.Written tokens) (hcursor : cursor.tokens = tokens ++ behind) :
    atGlobal cursor = true := by
  have hat : ∀ {word : Token} {others : List Token} {keyword : Keyword},
      tokens = word :: others → word.IsKeyword keyword → cursor.atKeyword keyword = true := by
    rintro word others keyword rfl hword
    exact Cursor.atKeyword_iff.mpr ⟨word, by simp [hcursor], hword⟩
  cases h with
  | list hword => simp [atGlobal, hat rfl hword]
  | @scalar _ _ _ mutable _ _ _ _ _ _ _ hword =>
      have hfound := hat rfl hword
      cases mutable <;> simp_all [atGlobal]

/-- A function begins with its word, which no global begins with. -/
theorem at_of_written {f : Function} {tokens behind : List Token} {cursor : Cursor}
    (h : f.Written tokens) (hcursor : cursor.tokens = tokens ++ behind) :
    cursor.atKeyword .FUN = true ∧ atGlobal cursor = false := by
  cases h with
  | @mk _ word _ _ _ _ _ _ _ _ _ _ hword =>
      have hhead : cursor.tokens.head? = some word := by simp [hcursor]
      refine ⟨Cursor.atKeyword_iff.mpr ⟨word, hhead, hword⟩, ?_⟩
      have hnot : ∀ keyword, keyword ≠ .FUN → cursor.atKeyword keyword = false := by
        intro keyword hkeyword
        rw [Bool.eq_false_iff, ne_eq, Cursor.atKeyword_iff, hhead]
        rintro ⟨_, ⟨⟩, hother⟩
        exact hkeyword (Option.some.inj (hother.symm.trans hword))
      simp [atGlobal, hnot]

theorem program_accepts {p : Program} {tokens : List Token} (hwell : p.WellFormed)
    (hwritten : p.Written tokens) :
    Accepts program tokens [] fun result => result.unnumbered = p.unnumbered := by
  cases hwritten with
  | @mk globalTokens functionTokens hglobals hfunctions =>
      have hnoGlobal : ∀ cursor : Cursor, cursor.tokens = functionTokens ++ [] →
          atGlobal cursor = false := by
        intro cursor hcursor
        obtain ⟨first, others, hp⟩ := List.exists_cons_of_ne_nil hwell.some_function
        rw [hp] at hfunctions
        cases hfunctions with
        | cons hfirst _ => exact (at_of_written hfirst (by simpa using hcursor)).2
      have hall : Accepts (bounded (whileAt atGlobal global)) globalTokens (functionTokens ++ [])
          fun results => results.map Global.unnumbered = p.globals.map Global.unnumbered := by
        apply Accepts.bounded
        intro limit hlimit
        refine whileAt_accepts _ ?_ hnoGlobal ?_ hglobals hlimit
        · intro each these h
          refine ⟨?_, fun cursor behind => atGlobal_of_written h⟩
          cases h <;> simp
        · intro each heach these behind h
          exact global_accepts (hwell.globals each heach) h behind
      have hrest : Accepts (bounded (whileAt (·.atKeyword .FUN) function)) functionTokens []
          fun results => results.map Function.unnumbered = p.functions.map Function.unnumbered := by
        apply Accepts.bounded
        intro limit hlimit
        refine whileAt_accepts _ ?_ ?_ ?_ hfunctions hlimit
        · intro each these h
          refine ⟨?_, fun cursor behind hcursor => (at_of_written h hcursor).1⟩
          cases h
          simp
        · intro cursor hcursor
          simp [Cursor.atKeyword, hcursor]
        · intro each heach these behind h
          exact function_accepts (hwell.functions each heach) h behind
      apply hall.bind
      intro globals hsameGlobals
      apply hrest.bind_last
      intro functions hsameFunctions
      have hsome : functions.isEmpty = false := by
        cases functions with
        | nil =>
            have hnone := hwell.some_function
            simp at hsameFunctions
            exact absurd hsameFunctions hnone
        | cons => rfl
      rw [hsome]
      apply Accepts.get_bind
      intro cursor hcursor
      simp only [hcursor]
      exact .pure (by simp [Program.unnumbered, hsameGlobals, hsameFunctions])

end Parse

end Scriptlet
