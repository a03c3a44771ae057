import Scriptlet.Proofs.Syntax.Lookahead
import Scriptlet.Syntax.Parse.Program

/-! # Programs are read with one token of lookahead

Each production looks at the tokens it reads and at the one behind them. So an error of reading a
program is settled by the tokens up to the one it blames.
-/

namespace Scriptlet.Parse

section

variable {α : Type} {item item' : Parse α} {bound bound' : Nat}

theorem separated_agrees (hitem : Agrees 1 bound bound' item item') (closing : String)
    {limit limit' : Nat} (hlimits : limit ≤ limit') (hlimit : limit ≤ bound)
    (hlimit' : limit' ≤ bound') :
    Agrees 1 limit limit' (separated item closing limit) (separated item' closing limit') := by
  induction limit generalizing limit' with
  | zero => exact .zero
  | succ limit ih =>
      obtain ⟨limit', rfl⟩ : ∃ n, limit' = n + 1 := ⟨limit' - 1, by omega⟩
      apply (hitem.mono hlimit hlimit').bind
      intro first
      apply tryOperator_agrees
      · apply Agrees.get_bind
        · intro cursor
          split
          · exact .failWith _
          · have hrest : Agrees 1 limit limit' (separated item closing limit)
                (separated item' closing limit') := ih (by omega) (by omega) (by omega)
            apply (hrest.mono (Nat.sub_le _ _) (Nat.sub_le _ _)).andThen
            intro rest
            exact .pure _
        · exact (HeadOnly.atOperator closing).ite _ _
      · apply (expectOperator_agrees closing).andThen
        intro _
        exact .pure _

theorem whileAt_agrees {test : Cursor → Bool} (htest : HeadOnly test)
    (hitem : Agrees 1 bound bound' item item') {limit limit' : Nat} (hlimits : limit ≤ limit')
    (hlimit : limit ≤ bound) (hlimit' : limit' ≤ bound') :
    Agrees 0 limit limit' (whileAt test item limit) (whileAt test item' limit') := by
  induction limit generalizing limit' with
  | zero => exact .zero
  | succ limit ih =>
      obtain ⟨limit', rfl⟩ : ∃ n, limit' = n + 1 := ⟨limit' - 1, by omega⟩
      apply Agrees.get_bind
      · intro cursor
        split
        · refine Agrees.weaken ((hitem.mono hlimit hlimit').bind fun first => ?_) (Nat.zero_le 1)
          apply (ih (by omega) (by omega) (by omega)).andThen
          intro rest
          exact .pure _
        · exact .pure _
      · exact htest.ite _ _

end

theorem typeAnnotation_agrees {bound bound' : Nat} :
    Agrees 0 bound bound' typeAnnotation typeAnnotation := by
  apply tryOperator_agrees
  · apply (expectName_agrees _).andThen
    intro name
    exact .pure _
  · exact .pure _

theorem literal_agrees {bound bound' : Nat} : Agrees 1 bound bound' literal literal := by
  apply Agrees.advance_bind
  intro token
  cases token.literal with
  | ok value => exact .inl (freshId_agrees _)
  | error cause => exact .inr ⟨cause, rfl, rfl⟩

section

variable {nested nested' : Precedence → Parse Expr} {limit limit' : Nat}
variable (hnested : ∀ level, Agrees 1 limit limit' (nested level) (nested' level))

include hnested

theorem group_agrees : Agrees 1 (limit + 1) (limit' + 1) (group nested) (group nested') := by
  apply Agrees.get_bind
  · intro cursor
    split
    · apply (Agrees.advance _).bind
      intro _
      apply (hnested .lowest).andThen
      intro inner
      apply (expectOperator_agrees ")").andThen
      intro _
      exact freshId_agrees _
    · exact .fail _
  · intro cursor cursor' h
    simp only [HeadOnly.atOperator "(" cursor cursor' h]

theorem arguments_agrees (hlimits : limit ≤ limit') :
    Agrees 0 limit limit' (arguments nested limit) (arguments nested' limit') := by
  apply tryOperator_agrees
  · exact .pure _
  · exact (separated_agrees (hnested .lowest) ")" hlimits (Nat.le_refl _) (Nat.le_refl _)).weaken
      (Nat.zero_le 1)

theorem reference_agrees (hlimits : limit ≤ limit') :
    Agrees 1 (limit + 1) (limit' + 1) (reference nested limit) (reference nested' limit') := by
  apply (expectName_agrees _).bind
  intro name
  apply tryOperator_agrees
  · have harguments := arguments_agrees hnested hlimits
    apply Agrees.andThen (harguments.mono (Nat.sub_le _ _) (Nat.sub_le _ _))
    intro es
    exact freshId_agrees _
  · apply tryOperator_agrees
    · apply Agrees.andThen ((hnested .lowest).mono (Nat.sub_le _ _) (Nat.sub_le _ _))
      intro index
      apply (expectOperator_agrees "]").andThen
      intro _
      exact freshId_agrees _
    · exact freshId_agrees _

theorem word_agrees (hlimits : limit ≤ limit') :
    Agrees 1 (limit + 1) (limit' + 1) (word nested limit) (word nested' limit') := by
  apply Agrees.get_bind
  · intro cursor
    split
    · exact reference_agrees hnested hlimits
    · split
      · exact .fail _
      · apply (Agrees.advance _).bind
        intro _
        exact freshId_agrees _
  · intro cursor cursor' h
    simp only [h]

theorem operand_agrees (hlimits : limit ≤ limit') :
    Agrees 1 (limit + 1) (limit' + 1) (operand nested limit) (operand nested' limit') := by
  apply Agrees.get_bind
  · intro cursor
    split
    · exact .fail _
    · exact word_agrees hnested hlimits
    · exact group_agrees hnested
    · exact literal_agrees
  · intro cursor cursor' h
    simp only [h]

theorem binary_agrees (left : Expr) (level : Precedence) :
    Agrees 1 (limit + 1) (limit' + 1) (binary nested left level) (binary nested' left level) := by
  apply Agrees.advance_bind
  intro token
  cases Operator.ofSymbol? token.text with
  | none => exact .inr ⟨_, rfl, rfl⟩
  | some operator =>
      left
      apply (hnested level).andThen
      intro right
      exact freshId_agrees _

end

theorem headOnly_nextOperator? : HeadOnly nextOperator? := by
  have hview : ∀ cursor : Cursor, nextOperator? cursor = cursor.tokens.head?.bind fun token =>
      if token.kind = .operator then Operator.ofSymbol? token.text else none := by
    intro cursor
    unfold nextOperator?
    cases cursor.tokens <;> rfl
  intro cursor cursor' h
  rw [hview, hview, h]

theorem operators_agrees {nested nested' : Precedence → Parse Expr} {bound bound' : Nat}
    (hnested : ∀ level, Agrees 1 bound bound' (nested level) (nested' level)) (level : Precedence)
    {limit limit' : Nat} (hlimits : limit ≤ limit') (hlimit : limit ≤ bound)
    (hlimit' : limit' ≤ bound') (left : Expr) :
    Agrees 0 limit limit' (operators nested level limit left)
      (operators nested' level limit' left) := by
  induction limit generalizing limit' left with
  | zero => exact .zero
  | succ limit ih =>
      obtain ⟨limit', rfl⟩ : ∃ n, limit' = n + 1 := ⟨limit' - 1, by omega⟩
      have hinner : ∀ level, Agrees 1 limit limit' (nested level) (nested' level) :=
        fun level => (hnested level).mono (by omega) (by omega)
      apply Agrees.get_bind
      · intro cursor
        split
        · exact .pure _
        · split
          · refine Agrees.weaken ((binary_agrees hinner left _).bind fun e => ?_) (Nat.zero_le 1)
            exact ih (by omega) (by omega) (by omega) e
          · exact .pure _
      · intro cursor cursor' h
        simp only [headOnly_nextOperator? cursor cursor' h]

theorem expression_agrees {limit limit' : Nat} (hlimits : limit ≤ limit') (level : Precedence) :
    Agrees 1 limit limit' (expression limit level) (expression limit' level) := by
  induction limit generalizing limit' level with
  | zero => exact .zero
  | succ limit ih =>
      obtain ⟨limit', rfl⟩ : ∃ n, limit' = n + 1 := ⟨limit' - 1, by omega⟩
      have hnested : ∀ level, Agrees 1 limit limit' (expression limit level)
          (expression limit' level) := ih (by omega)
      apply (operand_agrees hnested (by omega)).bind
      intro left
      exact operators_agrees hnested level (by omega) (Nat.le_refl _) (Nat.le_refl _) left

section

variable {bound bound' : Nat}

theorem expr_agrees (level : Precedence) : Agrees 1 bound bound' (expr level) (expr level) :=
  .bounded fun _ _ hlimits => expression_agrees hlimits level

theorem optionalValue_agrees : Agrees 0 bound bound' optionalValue optionalValue := by
  apply tryOperator_agrees
  · apply (expr_agrees .lowest).andThen
    intro value
    exact .pure _
  · exact .pure _

theorem declaration_agrees : Agrees 1 bound bound' declaration declaration := by
  apply (expectKeyword_agrees .LET _).bind
  intro _
  apply (expectName_agrees _).andThen
  intro name
  apply typeAnnotation_agrees.andThen
  intro typeName
  apply optionalValue_agrees.andThen
  intro initial
  apply (expectOperator_agrees ";").andThen
  intro _
  exact freshId_agrees _

theorem returning_agrees : Agrees 1 bound bound' returning returning := by
  apply (expectKeyword_agrees .RETURN _).bind
  intro _
  apply (expr_agrees .lowest).andThen
  intro value
  apply (expectOperator_agrees ";").andThen
  intro _
  exact .pure _

theorem simple_agrees : Agrees 1 bound bound' simple simple := by
  apply (expr_agrees .lowest).bind
  intro receiver
  apply tryOperator_agrees
  · apply (expr_agrees .lowest).andThen
    intro value
    apply (expectOperator_agrees ";").andThen
    intro _
    exact .pure _
  · apply (expectOperator_agrees ";").andThen
    intro _
    exact .pure _

end

section

variable {nested nested' : Parse (List Stmt)} {bound bound' : Nat}
variable (hnested : Agrees 0 bound bound' nested nested')

include hnested

theorem arms_agrees {limit limit' : Nat} (hlimits : limit ≤ limit') (hlimit : limit ≤ bound)
    (hlimit' : limit' ≤ bound') :
    Agrees 0 limit limit' (arms nested limit) (arms nested' limit') := by
  induction limit generalizing limit' with
  | zero => exact .zero
  | succ limit ih =>
      obtain ⟨limit', rfl⟩ : ∃ n, limit' = n + 1 := ⟨limit' - 1, by omega⟩
      apply tryKeyword_agrees
      · apply (expr_agrees .lowest).andThen
        intro value
        apply (expectOperator_agrees ":").andThen
        intro _
        apply Agrees.andThen (hnested.mono (by omega) (by omega))
        intro body
        apply (ih (by omega) (by omega) (by omega)).andThen
        intro rest
        exact .pure _
      · exact .pure _

theorem switch_agrees (hbounds : bound ≤ bound') :
    Agrees 1 (bound + 1) (bound' + 1) (switch nested bound) (switch nested' bound') := by
  apply (expectKeyword_agrees .SWITCH _).bind
  intro _
  apply (expr_agrees .lowest).andThen
  intro condition
  apply (arms_agrees hnested hbounds (Nat.le_refl _) (Nat.le_refl _)).andThen
  intro arms
  apply tryKeyword_agrees
  · apply Agrees.andThen (hnested.mono (Nat.sub_le _ _) (Nat.sub_le _ _))
    intro body
    apply Agrees.get_bind
    · intro cursor
      split
      · exact .failWith _
      · apply (expectKeyword_agrees .END _).andThen
        intro _
        exact .pure _
    · intro cursor cursor' h
      simp only [HeadOnly.atKeyword _ cursor cursor' h]
  · exact .failWith _

theorem alternative_agrees :
    Agrees 0 bound bound' (alternative nested) (alternative nested') := by
  apply tryKeyword_agrees
  · exact hnested.mono (Nat.sub_le _ _) (Nat.sub_le _ _)
  · exact .pure _

theorem branch_agrees :
    Agrees 1 (bound + 1) (bound' + 1) (branch nested) (branch nested') := by
  apply (expectKeyword_agrees .IF _).bind
  intro _
  apply (expr_agrees .lowest).andThen
  intro condition
  apply (expectKeyword_agrees .DO _).andThen
  intro _
  apply hnested.andThen
  intro thenBlock
  apply (alternative_agrees hnested).andThen
  intro elseBlock
  apply (expectKeyword_agrees .END _).andThen
  intro _
  exact .pure _

theorem loop_agrees : Agrees 1 (bound + 1) (bound' + 1) (loop nested) (loop nested') := by
  apply (expectKeyword_agrees .WHILE _).bind
  intro _
  apply (expr_agrees .lowest).andThen
  intro condition
  apply (expectKeyword_agrees .DO _).andThen
  intro _
  apply hnested.andThen
  intro body
  apply (expectKeyword_agrees .END _).andThen
  intro _
  exact .pure _

theorem statement_agrees (hbounds : bound ≤ bound') :
    Agrees 1 (bound + 1) (bound' + 1) (statement nested bound) (statement nested' bound') := by
  apply Agrees.get_bind
  · intro cursor
    split
    · exact declaration_agrees
    · exact switch_agrees hnested hbounds
    · exact branch_agrees hnested
    · exact loop_agrees hnested
    · exact returning_agrees
    · exact simple_agrees
  · intro cursor cursor' h
    simp only [h]

end

theorem headOnly_isEmpty : HeadOnly (·.tokens.isEmpty) := by
  intro cursor cursor' h
  rw [Bool.eq_iff_iff, List.isEmpty_iff, List.isEmpty_iff, ← List.head?_eq_none_iff,
    ← List.head?_eq_none_iff, h]

theorem headOnly_atBlockEnd : HeadOnly atBlockEnd := by
  intro cursor cursor' h
  simp only [atBlockEnd, headOnly_isEmpty cursor cursor' h, HeadOnly.atKeyword _ cursor cursor' h]

theorem headOnly_atGlobal : HeadOnly atGlobal := by
  intro cursor cursor' h
  simp only [atGlobal, HeadOnly.atKeyword _ cursor cursor' h]

theorem statements_agrees {limit limit' : Nat} (hlimits : limit ≤ limit') :
    Agrees 0 limit limit' (statements limit) (statements limit') := by
  induction limit generalizing limit' with
  | zero => exact .zero
  | succ limit ih =>
      obtain ⟨limit', rfl⟩ : ∃ n, limit' = n + 1 := ⟨limit' - 1, by omega⟩
      have hnested : Agrees 0 limit limit' (statements limit) (statements limit') := ih (by omega)
      apply Agrees.get_bind
      · intro cursor
        split
        · exact .pure _
        · refine Agrees.weaken ((statement_agrees hnested (by omega)).bind fun first => ?_)
            (Nat.zero_le 1)
          apply hnested.andThen
          intro rest
          exact .pure _
      · exact headOnly_atBlockEnd.ite _ _

section

variable {bound bound' : Nat}

theorem block_agrees : Agrees 0 bound bound' block block :=
  .bounded fun _ _ => statements_agrees

theorem elements_agrees : Agrees 0 bound bound' elements elements := by
  have hitems : Agrees 1 bound bound' (bounded (separated (expr .lowest) "]"))
      (bounded (separated (expr .lowest) "]")) :=
    .bounded fun _ _ hlimits =>
      separated_agrees (expr_agrees .lowest) "]" hlimits (Nat.le_refl _) (Nat.le_refl _)
  apply hitems.andThen
  intro es
  exact freshId_agrees _

theorem initial_agrees (isList : Bool) :
    Agrees 0 bound bound' (initial isList) (initial isList) := by
  cases isList with
  | false => exact optionalValue_agrees
  | true =>
      apply (expectOperator_agrees "=").andThen
      intro _
      apply (expectOperator_agrees "[").andThen
      intro _
      apply elements_agrees.andThen
      intro value
      exact .pure _

theorem global_agrees : Agrees 1 bound bound' global global := by
  apply Agrees.get_bind
  · intro cursor
    apply (Agrees.advance _).bind
    intro _
    apply (expectName_agrees _).andThen
    intro name
    apply (expectOperator_agrees ":").andThen
    intro _
    apply (expectName_agrees _).andThen
    intro typeName
    apply (initial_agrees _).andThen
    intro value
    apply (expectOperator_agrees ";").andThen
    intro _
    exact freshId_agrees _
  · intro cursor cursor' h
    simp only [HeadOnly.atKeyword _ cursor cursor' h]

theorem parameter_agrees : Agrees 1 bound bound' parameter parameter := by
  apply (expectName_agrees _).bind
  intro name
  apply (expectOperator_agrees ":").andThen
  intro _
  apply (expectName_agrees _).andThen
  intro typeName
  exact .pure _

theorem parameters_agrees : Agrees 0 bound bound' parameters parameters := by
  apply tryOperator_agrees
  · exact .pure _
  · have hitems : Agrees 1 bound bound' (bounded (separated parameter ")"))
        (bounded (separated parameter ")")) :=
      .bounded fun _ _ hlimits =>
        separated_agrees parameter_agrees ")" hlimits (Nat.le_refl _) (Nat.le_refl _)
    exact hitems.weaken (Nat.zero_le 1)

theorem function_agrees : Agrees 1 bound bound' function function := by
  apply (expectKeyword_agrees .FUN _).bind
  intro _
  apply (expectName_agrees _).andThen
  intro name
  apply (expectOperator_agrees "(").andThen
  intro _
  apply parameters_agrees.andThen
  intro parameters
  apply typeAnnotation_agrees.andThen
  intro returnType
  apply (expectKeyword_agrees .DO _).andThen
  intro _
  apply block_agrees.andThen
  intro body
  apply (expectKeyword_agrees .END _).andThen
  intro _
  exact freshId_agrees _

/-- Reading a program looks no further than the token it blames. -/
theorem program_agrees (bound bound' : Nat) : Agrees 0 bound bound' program program := by
  have hglobals : Agrees 0 bound bound' (bounded (whileAt atGlobal global))
      (bounded (whileAt atGlobal global)) :=
    .bounded fun _ _ hlimits =>
      whileAt_agrees headOnly_atGlobal global_agrees hlimits (Nat.le_refl _) (Nat.le_refl _)
  have hfunctions : Agrees 0 bound bound' (bounded (whileAt (·.atKeyword .FUN) function))
      (bounded (whileAt (·.atKeyword .FUN) function)) :=
    .bounded fun _ _ hlimits =>
      whileAt_agrees (.atKeyword .FUN) function_agrees hlimits (Nat.le_refl _) (Nat.le_refl _)
  apply hglobals.andThen
  intro globals
  apply hfunctions.andThen
  intro functions
  split
  · exact .fail _
  · apply Agrees.get_bind
    · intro cursor
      split
      · exact .pure _
      · exact .fail _
    · exact headOnly_isEmpty.ite _ _

end

end Scriptlet.Parse
