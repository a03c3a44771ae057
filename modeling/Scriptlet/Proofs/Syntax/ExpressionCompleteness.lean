import Scriptlet.Proofs.Syntax.Accepting
import Scriptlet.Proofs.Syntax.ExpressionSoundness

/-! # Reading expressions is complete

A well-formed expression is read back from any tokens it is written with. The reader stops where
the expression ends, as long as what stands behind it cannot be read as a part of it.
-/

namespace Scriptlet

/-- How tightly the expression is held together: by its own operator, or for good. -/
def Expr.level (e : Expr) : Precedence :=
  (e.operator?.map Operator.precedence).getD .primary

/-- An expression can begin with the token. -/
def Token.BeginsExpr (token : Token) : Prop :=
  (token.kind = .operator → token.text = "(") ∧
    ∀ keyword ∈ token.keyword?, keyword.literal?.isSome = true

namespace Token

variable {token : Token}

theorem IsName.beginsExpr {name : String} (h : token.IsName name) : token.BeginsExpr := by
  obtain ⟨hkind, rfl, hfree⟩ := h
  simp [BeginsExpr, keyword?, hkind, hfree]

/-- A token that stands for a constant is neither a word nor an operator. -/
theorem kind_of_literal {value : Literal} (h : token.literal = .ok value) :
    token.kind ≠ .identifier ∧ token.kind ≠ .operator := by
  constructor <;> intro hkind <;> simp [Token.literal, hkind] at h

theorem BeginsExpr.not_isOperator {symbol : String} (h : token.BeginsExpr)
    (hsymbol : symbol ≠ "(") : ¬token.IsOperator symbol := by
  rintro ⟨hkind, rfl⟩
  exact hsymbol (h.1 hkind)

theorem BeginsExpr.not_isKeyword {keyword : Keyword} (h : token.BeginsExpr)
    (hkeyword : keyword.literal? = none) : ¬token.IsKeyword keyword := by
  intro hword
  have hsome := h.2 keyword hword
  rw [hkeyword] at hsome
  cases hsome

end Token

theorem Token.IsKeyword.kind_eq {token : Token} {keyword : Keyword} (h : token.IsKeyword keyword) :
    token.kind = .identifier := by
  unfold Token.IsKeyword Token.keyword? at h
  split at h
  next hkind => exact hkind
  · cases h

theorem Expr.Written.exists_cons (e : Expr) {tokens : List Token} (h : e.Written tokens) :
    ∃ token others, tokens = token :: others ∧ token.BeginsExpr := by
  -- The recursion follows the left operand, the only part that can come first.
  cases e with
  | literal =>
      cases h with
      | literal h =>
          have hkind := Token.kind_of_literal h
          refine ⟨_, [], rfl, ?_, ?_⟩
          · intro hoperator
            exact absurd hoperator hkind.2
          · simp [Token.keyword?, hkind.1]
      | word hword hvalue =>
          refine ⟨_, [], rfl, ?_, ?_⟩
          · simp [hword.kind_eq]
          · intro keyword hkeyword
            rw [Token.IsKeyword] at hword
            rw [hword] at hkeyword
            cases hkeyword
            simp [hvalue]
  | group =>
      cases h with
      | group hopening _ _ =>
          refine ⟨_, _, rfl, fun _ => hopening.2, ?_⟩
          simp [Token.keyword?, hopening.1]
  | binary _ _ left =>
      cases h with
      | binary hleft _ _ =>
          obtain ⟨token, others, rfl, hbegins⟩ := Expr.Written.exists_cons left hleft
          exact ⟨token, _, rfl, hbegins⟩
  | access =>
      cases h with
      | access h => exact ⟨_, _, rfl, h.beginsExpr⟩
  | element =>
      cases h with
      | element h _ _ _ => exact ⟨_, _, rfl, h.beginsExpr⟩
  | call =>
      cases h with
      | callEmpty h _ _ => exact ⟨_, _, rfl, h.beginsExpr⟩
      | call h _ _ _ => exact ⟨_, _, rfl, h.beginsExpr⟩
  | list => cases h

/-- Items between commas begin as the first of them does. -/
theorem Separated.exists_cons {α : Type} {Written : α → List Token → Prop} {Begins : Token → Prop}
    {items : List α} {tokens : List Token} (h : Separated Written items tokens)
    (hbegins : ∀ each tokens, Written each tokens →
      ∃ token others, tokens = token :: others ∧ Begins token) :
    ∃ token others, tokens = token :: others ∧ Begins token := by
  cases h with
  | one h => exact hbegins _ _ h
  | more h _ _ =>
      obtain ⟨token, others, rfl, htoken⟩ := hbegins _ _ h
      exact ⟨token, _, rfl, htoken⟩

namespace Parse

/-- Behind an expression of the level stands nothing that would carry it on: no operator that binds
tighter and no bracket that would make a call or an element of a name. -/
def StopsAt (level : Precedence) (rest : List Token) : Prop :=
  ∀ token ∈ rest.head?, ¬token.IsOperator "(" ∧ ¬token.IsOperator "[" ∧
    ∀ operator : Operator, token.IsOperator operator.symbol →
      operator.precedence.rank ≤ level.rank

namespace StopsAt

variable {level : Precedence} {rest : List Token} {token : Token}

theorem mono {level' : Precedence} (h : StopsAt level rest) (hlevel : level.rank ≤ level'.rank) :
    StopsAt level' rest := by
  intro token htoken
  obtain ⟨hcall, hindex, hoperator⟩ := h token htoken
  exact ⟨hcall, hindex, fun operator hsymbol =>
    Nat.le_trans (hoperator operator hsymbol) hlevel⟩

/-- Punctuation other than opening brackets stops an expression. -/
theorem of_isOperator {symbol : String} (h : token.IsOperator symbol)
    (hsymbol : symbol ≠ "(" ∧ symbol ≠ "[" ∧ Operator.ofSymbol? symbol = none) :
    StopsAt level (token :: rest) := by
  obtain ⟨-, rfl⟩ := h
  rintro _ ⟨⟩
  refine ⟨fun hother => hsymbol.1 hother.2, fun hother => hsymbol.2.1 hother.2, ?_⟩
  rintro operator ⟨-, hother⟩
  rw [hother, Operator.ofSymbol?_symbol] at hsymbol
  exact nomatch hsymbol.2.2

theorem of_isKeyword {keyword : Keyword} (h : token.IsKeyword keyword) :
    StopsAt level (token :: rest) := by
  have hkind : token.kind ≠ .operator := by simp [h.kind_eq]
  rintro _ ⟨⟩
  exact ⟨fun hother => hkind hother.1, fun hother => hkind hother.1,
    fun operator hother => absurd hother.1 hkind⟩

/-- A sign stops its own left operand. -/
theorem of_sign {operator : Operator} (h : token.IsOperator operator.symbol)
    (hlevel : operator.precedence.rank ≤ level.rank) : StopsAt level (token :: rest) := by
  obtain ⟨-, htext⟩ := h
  rintro _ ⟨⟩
  refine ⟨?_, ?_, ?_⟩
  · rintro ⟨-, hother⟩
    rw [htext] at hother
    cases operator <;> exact absurd hother (by decide)
  · rintro ⟨-, hother⟩
    rw [htext] at hother
    cases operator <;> exact absurd hother (by decide)
  · rintro other ⟨-, hother⟩
    have hsame : some operator = some other := by
      rw [← Operator.ofSymbol?_symbol operator, ← Operator.ofSymbol?_symbol other, ← htext, hother]
    cases hsame
    exact hlevel

end StopsAt

theorem rank_le_level {operator : Operator} {e : Expr}
    (h : ∀ inner ∈ e.operator?, operator.precedence.rank ≤ inner.precedence.rank) :
    operator.precedence.rank ≤ e.level.rank := by
  unfold Expr.level
  cases hinner : e.operator? with
  | none => cases operator <;> decide
  | some inner => exact h inner hinner

/-- The only operator that an expression begins with is the opening parenthesis. -/
theorem exists_cons_of_ne (symbol : String) (hsymbol : symbol ≠ "(") (e : Expr)
    (tokens : List Token) (h : e.Written tokens) :
    ∃ token others, tokens = token :: others ∧ ¬token.IsOperator symbol := by
  obtain ⟨token, others, rfl, hbegins⟩ := h.exists_cons
  exact ⟨token, others, rfl, hbegins.not_isOperator hsymbol⟩

/-- Items between commas are accepted with the bracket behind them. -/
theorem separated_accepts {α γ : Type} {item : Parse α} {Written : α → List Token → Prop}
    (view : α → γ) {closing : String} {bracket : Token} {limit : Nat} {items : List α}
    {tokens : List Token} (hbracket : bracket.IsOperator closing) (hcomma : closing ≠ ",")
    (hbegins : ∀ each tokens, Written each tokens →
      ∃ token others, tokens = token :: others ∧ ¬token.IsOperator closing)
    (hitem : ∀ each ∈ items, ∀ (these behind : List Token) (token : Token), Written each these →
      these.length ≤ tokens.length → (token.IsOperator "," ∨ token.IsOperator closing) →
      Accepts item these (token :: behind) fun result => view result = view each)
    (hwritten : Separated Written items tokens) (hlimit : tokens.length < limit)
    (rest : List Token) :
    Accepts (separated item closing limit) (tokens ++ [bracket]) rest
      fun results => results.map view = items.map view := by
  induction hwritten generalizing limit with
  | @one each these h =>
      obtain ⟨limit, rfl⟩ : ∃ n, limit = n + 1 := ⟨limit - 1, by omega⟩
      apply (hitem each (by simp) these rest bracket h (Nat.le_refl _) (.inr hbracket)).bind
      intro result hsame
      apply tryOperator_skips
      · rintro _ ⟨⟩ ⟨-, hother⟩
        exact hcomma (hbracket.2 ▸ hother)
      · apply (expectOperator_accepts hbracket rest).bind_last
        intro _ _
        exact .pure (by simp [hsame])
  | @more first others these behind comma h hsign hrest ih =>
      obtain ⟨limit, rfl⟩ : ∃ n, limit = n + 1 := ⟨limit - 1, by omega⟩
      rw [List.length_append, List.length_cons] at hlimit
      rw [List.append_assoc, List.cons_append]
      apply (hitem first (by simp) these _ comma h (by simp) (.inl hsign)).bind
      intro result hsame
      apply tryOperator_accepts hsign
      apply Accepts.get_bind
      intro cursor hcursor
      rw [if_neg]
      · have hothers : Accepts (separated item closing limit) (behind ++ [bracket]) rest
            fun results => results.map view = others.map view := by
          refine ih ?_ (by omega)
          intro each heach these' behind' token hthese hlength
          refine hitem each (by simp [heach]) these' behind' token hthese (Nat.le_trans hlength ?_)
          rw [List.length_append, List.length_cons]
          omega
        apply hothers.bind_last
        intro results hresults
        exact .pure (by simp [hsame, hresults])
      · rw [Cursor.atOperator_iff, hcursor]
        rintro ⟨token, htoken, hsymbol⟩
        obtain ⟨head, others, rfl, hnot⟩ := hrest.exists_cons hbegins
        simp only [List.cons_append, List.head?_cons, Option.mem_some_iff] at htoken
        exact hnot (htoken ▸ hsymbol)

section

variable {nested : Precedence → Parse Expr} {limit : Nat}

/-- The reader of nested expressions accepts every expression that is written with fewer tokens
than the limit. -/
def AcceptsLevels (nested : Precedence → Parse Expr) (limit : Nat) : Prop :=
  ∀ (e : Expr) (level : Precedence) (tokens rest : List Token), e.WellFormed → e.Written tokens →
    (∀ inner ∈ e.operator?, level.rank < inner.precedence.rank) → StopsAt level rest →
    tokens.length < limit →
    Accepts (nested level) tokens rest fun result => result.unnumbered = e.unnumbered

theorem lowest_rank_lt (operator : Operator) :
    Precedence.lowest.rank < operator.precedence.rank := by
  cases operator <;> decide

/-- Between brackets no operator is too loose. -/
theorem AcceptsLevels.lowest (h : AcceptsLevels nested limit) {e : Expr} {tokens rest : List Token}
    (hwell : e.WellFormed) (hwritten : e.Written tokens) (hstops : StopsAt .lowest rest)
    (hlimit : tokens.length < limit) :
    Accepts (nested .lowest) tokens rest fun result => result.unnumbered = e.unnumbered :=
  h e .lowest tokens rest hwell hwritten (fun inner _ => lowest_rank_lt inner) hstops hlimit

theorem literal_accepts {id : NodeId} {token : Token} {value : Literal}
    (h : token.literal = .ok value) (rest : List Token) :
    Accepts literal [token] rest
      fun result => result.unnumbered = (Expr.literal id value).unnumbered := by
  apply (advance_accepts _ token rest).bind_last
  rintro _ rfl
  rw [h]
  exact freshId_accepts fun id => by simp [Expr.unnumbered]

theorem group_accepts (hnested : AcceptsLevels nested limit) {id : NodeId} {inner : Expr}
    {opening closing : Token} {tokens : List Token} (hopening : opening.IsOperator "(")
    (hwell : inner.WellFormed)
    (hwritten : inner.Written tokens) (hclosing : closing.IsOperator ")")
    (hlimit : tokens.length < limit) (rest : List Token) :
    Accepts (group nested) (opening :: tokens ++ [closing]) rest
      fun result => result.unnumbered = (Expr.group id inner).unnumbered := by
  apply Accepts.get_bind
  intro cursor hcursor
  rw [if_pos (Cursor.atOperator_iff.mpr ⟨opening, by simp [hcursor], hopening⟩)]
  apply (advance_accepts _ opening _).bind
  intro _ _
  apply (hnested.lowest hwell hwritten (.of_isOperator hclosing (by decide)) hlimit).bind
  intro result hresult
  apply (expectOperator_accepts hclosing rest).bind_last
  intro _ _
  exact freshId_accepts fun id => by simp [Expr.unnumbered, hresult]

theorem arguments_accepts (hnested : AcceptsLevels nested limit) {arguments : List Expr}
    {closing : Token} {tokens : List Token} (hwell : ∀ argument ∈ arguments, argument.WellFormed)
    (hwritten : arguments = [] ∧ tokens = [] ∨ Separated Expr.Written arguments tokens)
    (hclosing : closing.IsOperator ")") (hlimit : tokens.length < limit) (rest : List Token) :
    Accepts (Parse.arguments nested limit) (tokens ++ [closing]) rest
      fun results => results.map Expr.unnumbered = arguments.map Expr.unnumbered := by
  rcases hwritten with ⟨rfl, rfl⟩ | hwritten
  · exact tryOperator_accepts hclosing (.pure rfl)
  · apply tryOperator_skips
    · obtain ⟨token, others, rfl, hnot⟩ := hwritten.exists_cons (exists_cons_of_ne ")" (by decide))
      rintro _ ⟨⟩
      exact hnot
    · apply separated_accepts _ hclosing (by decide) (exists_cons_of_ne ")" (by decide)) ?_ hwritten
        hlimit
      rintro each heach these behind token hthese hlength (hcomma | hbracket)
      · exact hnested.lowest (hwell each heach) hthese (.of_isOperator hcomma (by decide))
          (by omega)
      · exact hnested.lowest (hwell each heach) hthese (.of_isOperator hbracket (by decide))
          (by omega)

theorem call_accepts (hnested : AcceptsLevels nested limit) {id : NodeId} {name : String}
    {arguments : List Expr} {token opening closing : Token} {tokens : List Token}
    (hname : token.IsName name)
    (hopening : opening.IsOperator "(") (hwell : ∀ argument ∈ arguments, argument.WellFormed)
    (hwritten : arguments = [] ∧ tokens = [] ∨ Separated Expr.Written arguments tokens)
    (hclosing : closing.IsOperator ")") (hlimit : tokens.length < limit) (rest : List Token) :
    Accepts (reference nested limit) (token :: opening :: tokens ++ [closing]) rest
      fun result => result.unnumbered = (Expr.call id name arguments).unnumbered := by
  apply (expectName_accepts hname _ _).bind
  rintro _ rfl
  apply tryOperator_accepts hopening
  apply (arguments_accepts hnested hwell hwritten hclosing hlimit rest).bind_last
  intro results hresults
  exact freshId_accepts fun id => by
    simp [Expr.unnumbered, Expr.unnumberedList_eq_map, hresults]

theorem element_accepts (hnested : AcceptsLevels nested limit) {id : NodeId} {name : String}
    {index : Expr} {token opening closing : Token} {tokens : List Token} (hname : token.IsName name)
    (hopening : opening.IsOperator "[") (hwell : index.WellFormed) (hwritten : index.Written tokens)
    (hclosing : closing.IsOperator "]") (hlimit : tokens.length < limit) (rest : List Token) :
    Accepts (reference nested limit) (token :: opening :: tokens ++ [closing]) rest
      fun result => result.unnumbered = (Expr.element id name index).unnumbered := by
  apply (expectName_accepts hname _ _).bind
  rintro _ rfl
  apply tryOperator_skips
  · rintro _ ⟨⟩ ⟨-, hother⟩
    exact absurd (hopening.2.symm.trans hother) (by decide)
  apply tryOperator_accepts hopening
  apply (hnested.lowest hwell hwritten (.of_isOperator hclosing (by decide)) hlimit).bind
  intro result hresult
  apply (expectOperator_accepts hclosing rest).bind_last
  intro _ _
  exact freshId_accepts fun id => by simp [Expr.unnumbered, hresult]

theorem access_accepts {id : NodeId} {name : String} {token : Token} {rest : List Token}
    {level : Precedence} (hname : token.IsName name) (hstops : StopsAt level rest) :
    Accepts (reference nested limit) [token] rest
      fun result => result.unnumbered = (Expr.access id name).unnumbered := by
  apply (expectName_accepts hname _ _).bind_last
  rintro _ rfl
  apply tryOperator_skips
  · intro token htoken
    exact (hstops token htoken).1
  apply tryOperator_skips
  · intro token htoken
    exact (hstops token htoken).2.1
  exact freshId_accepts fun id => by simp [Expr.unnumbered]

/-- A name leads to what starts with a name. -/
theorem operand_accepts_of_isName {name : String} {token : Token} {tokens rest : List Token}
    {good : Expr → Prop} (hname : token.IsName name)
    (h : Accepts (reference nested limit) (token :: tokens) rest good) :
    Accepts (operand nested limit) (token :: tokens) rest good := by
  obtain ⟨hkind, rfl, hfree⟩ := hname
  apply Accepts.get_bind
  intro cursor hcursor
  simp only [hcursor, List.cons_append, List.head?_cons, Option.map_some, hkind]
  apply Accepts.get_bind
  intro cursor hcursor
  simp only [hcursor, List.cons_append, List.head?_cons, Option.bind_some, Token.keyword?, hkind,
    if_true, hfree]
  exact h

/-- Every expression without an operator of its own is accepted as an operand. -/
theorem operand_accepts (hnested : AcceptsLevels nested limit) {e : Expr} {tokens rest : List Token}
    (hwell : e.WellFormed) (hwritten : e.Written tokens) (hoperand : e.operator? = none)
    (hstops : StopsAt e.level rest) (hlimit : tokens.length ≤ limit) :
    Accepts (operand nested limit) tokens rest fun result => result.unnumbered = e.unnumbered := by
  cases hwritten with
  | @literal id value token h =>
      have hkind := Token.kind_of_literal h
      apply Accepts.get_bind
      intro cursor hcursor
      simp only [hcursor, List.cons_append, List.head?_cons, Option.map_some]
      split
      next hnone => cases hnone
      next hsome => exact absurd (Option.some.inj hsome) hkind.1
      next hsome => exact absurd (Option.some.inj hsome) hkind.2
      · exact literal_accepts h rest
  | @word id value keyword token hword hvalue =>
      have hkind := hword.kind_eq
      apply Accepts.get_bind
      intro cursor hcursor
      simp only [hcursor, List.cons_append, List.head?_cons, Option.map_some, hkind]
      apply Accepts.get_bind
      intro cursor hcursor
      rw [Token.IsKeyword] at hword
      simp only [hcursor, List.cons_append, List.head?_cons, Option.bind_some, hword, hvalue]
      apply (advance_accepts _ token rest).bind_last
      intro _ _
      exact freshId_accepts fun id => by simp [Expr.unnumbered]
  | group hopening hinner hclosing =>
      cases hwell with
      | group hwell =>
          apply Accepts.get_bind
          intro cursor hcursor
          simp only [hcursor, List.cons_append, List.head?_cons, Option.map_some, hopening.1]
          refine group_accepts hnested hopening hwell hinner hclosing ?_ rest
          simp at hlimit
          omega
  | binary _ _ _ => cases hoperand
  | access hname =>
      apply operand_accepts_of_isName hname
      exact access_accepts hname hstops
  | element hname hopening hindex hclosing =>
      cases hwell with
      | element _ hwell =>
          apply operand_accepts_of_isName hname
          refine element_accepts hnested hname hopening hwell hindex hclosing ?_ rest
          simp at hlimit
          omega
  | callEmpty hname hopening hclosing =>
      apply operand_accepts_of_isName hname
      refine call_accepts hnested hname hopening (by simp) (.inl ⟨rfl, rfl⟩) hclosing ?_ rest
      simp at hlimit ⊢
      omega
  | call hname hopening harguments hclosing =>
      cases hwell with
      | call _ hwell =>
          apply operand_accepts_of_isName hname
          refine call_accepts hnested hname hopening hwell (.inr harguments) hclosing ?_ rest
          simp at hlimit
          omega

theorem nextOperator?_of_isOperator {cursor : Cursor} {operator : Operator} {token : Token}
    (hhead : cursor.tokens.head? = some token) (h : token.IsOperator operator.symbol) :
    nextOperator? cursor = some operator := by
  unfold nextOperator?
  cases htokens : cursor.tokens with
  | nil => simp [htokens] at hhead
  | cons first others =>
      rw [htokens] at hhead
      cases hhead
      simp [h.1, h.2, Operator.ofSymbol?_symbol]

/-- The operator and the right operand of an operation are accepted behind its left operand. -/
theorem binary_accepts (hnested : AcceptsLevels nested limit) {left right : Expr}
    {operator : Operator} {sign : Token} {tokens rest : List Token}
    (hsign : sign.IsOperator operator.symbol) (hwell : right.WellFormed)
    (hwritten : right.Written tokens)
    (htighter : ∀ inner ∈ right.operator?, operator.precedence.rank < inner.precedence.rank)
    (hstops : StopsAt operator.precedence rest) (hlimit : tokens.length < limit) :
    Accepts (binary nested left operator.precedence) (sign :: tokens) rest fun result =>
      result.unnumbered = .binary 0 operator left.unnumbered right.unnumbered := by
  apply (advance_accepts _ sign _).bind
  rintro _ rfl
  rw [hsign.2, Operator.ofSymbol?_symbol]
  apply (hnested right _ tokens rest hwell hwritten htighter hstops hlimit).bind_last
  intro result hresult
  exact freshId_accepts fun id => by simp [Expr.unnumbered, hresult]

/-- One round of folding: the operator that is next binds tighter, so it is read. -/
theorem operators_succ_of_ok {level : Precedence} {start middle : Cursor} {left e : Expr}
    {operator : Operator} {limit : Nat} (hnext : nextOperator? start = some operator)
    (hlevel : level.rank < operator.precedence.rank)
    (hok : binary nested left operator.precedence start = .ok e middle) :
    operators nested level (limit + 1) left start = operators nested level limit e middle := by
  have hget : (get : Parse Cursor) start = .ok start start := rfl
  have htighter : level.looserThan operator.precedence = true := by
    simp [Precedence.looserThan, hlevel]
  rw [operators, bind_of_ok hget, hnext]
  dsimp only
  rw [if_pos htighter]
  exact bind_of_ok hok

/-- Reading an operand and folding operators to the left comes to stand behind the expression with
all of it folded. Each operator on the way takes one from the limit, and has a token. -/
theorem operators_reach (hnested : AcceptsLevels nested limit) (level : Precedence) :
    ∀ {e : Expr} {tokens rest : List Token}, e.Written tokens → e.WellFormed →
      (∀ inner ∈ e.operator?, level.rank < inner.precedence.rank) → StopsAt e.level rest →
      tokens.length ≤ limit → ∀ finish id,
      ∃ (result : Expr) (next : NodeId) (used : Nat), used < tokens.length ∧
        result.unnumbered = e.unnumbered ∧ ∀ spare,
          (operand nested limit >>= operators nested level (spare + used))
              ⟨tokens ++ rest, finish, id⟩ =
            operators nested level spare result ⟨rest, finish, next⟩
  -- The recursion is on the left operand, which is read before the operator is seen.
  | .binary _ operator left right, _, rest, .binary hleft hsign hright,
      .binary hwellLeft hwellRight hlooser htighterRight, htighter, hstops, hlimit, finish, id => by
      rename_i sign before after
      have hlevel : level.rank < operator.precedence.rank := htighter operator rfl
      rw [List.length_append, List.length_cons] at hlimit
      have hbefore : StopsAt left.level (sign :: (after ++ rest)) :=
        .of_sign hsign (rank_le_level hlooser)
      obtain ⟨first, between, used, hused, hfirst, hreach⟩ :=
        operators_reach hnested level hleft hwellLeft
          (fun inner hinner => Nat.lt_of_lt_of_le hlevel (hlooser inner hinner)) hbefore (by omega)
          finish id
      have hbinary : Accepts (binary nested first operator.precedence) (sign :: after) rest
          fun result => result.unnumbered = .binary 0 operator first.unnumbered right.unnumbered :=
        binary_accepts hnested hsign hwellRight hright htighterRight hstops (by omega)
      obtain ⟨result, next, hok, hresult⟩ := hbinary finish between
      refine ⟨result, next, used + 1, ?_, ?_, ?_⟩
      · rw [List.length_append, List.length_cons]
        omega
      · simp [Expr.unnumbered, hresult, hfirst]
      · intro spare
        have hsplit : spare + (used + 1) = spare + 1 + used := by omega
        have hnext : nextOperator? ⟨sign :: (after ++ rest), finish, between⟩ = some operator :=
          nextOperator?_of_isOperator rfl hsign
        rw [hsplit, List.append_assoc, List.cons_append, hreach (spare + 1)]
        exact operators_succ_of_ok hnext hlevel hok
  | .literal _ _, tokens, rest, hwritten, hwell, _, hstops, hlimit, finish, id
  | .group _ _, tokens, rest, hwritten, hwell, _, hstops, hlimit, finish, id
  | .access _ _, tokens, rest, hwritten, hwell, _, hstops, hlimit, finish, id
  | .element _ _ _, tokens, rest, hwritten, hwell, _, hstops, hlimit, finish, id
  | .call _ _ _, tokens, rest, hwritten, hwell, _, hstops, hlimit, finish, id => by
      obtain ⟨result, next, hok, hresult⟩ :=
        operand_accepts hnested hwell hwritten rfl hstops hlimit finish id
      refine ⟨result, next, 0, ?_, hresult, ?_⟩
      · obtain ⟨token, others, rfl, -⟩ := hwritten.exists_cons
        simp
      · intro spare
        change EStateM.bind _ _ _ = _
        unfold EStateM.bind
        rw [hok]
        rfl

end

/-- What stands behind an expression makes the folding stop. -/
theorem operators_accepts {nested : Precedence → Parse Expr} {level : Precedence}
    {rest : List Token} (hstops : StopsAt level rest) (limit : Nat) (e : Expr) :
    Accepts (operators nested level (limit + 1) e) [] rest fun result => result = e := by
  apply Accepts.get_bind
  intro cursor hcursor
  split
  · exact .pure rfl
  next operator hoperator =>
    rw [if_neg]
    · exact .pure rfl
    · cases hrest : rest with
      | nil => simp [nextOperator?, hcursor, hrest] at hoperator
      | cons token others =>
          have hhead : cursor.tokens.head? = some token := by simp [hcursor, hrest]
          have hsign := (isOperator_of_nextOperator? hoperator hhead).1
          have hrank := (hstops token (by simp [hrest])).2.2 operator hsign
          simpa [Precedence.looserThan] using hrank

theorem expression_accepts (limit : Nat) : AcceptsLevels (expression limit) limit := by
  induction limit with
  | zero =>
      intro e level tokens rest _ _ _ _ hlimit
      exact absurd hlimit (Nat.not_lt_zero _)
  | succ limit ih =>
      intro e level tokens rest hwell hwritten htighter hstops hlimit finish id
      have hbehind : StopsAt e.level rest := by
        apply hstops.mono
        unfold Expr.level
        cases hinner : e.operator? with
        | none => cases level <;> decide
        | some inner => exact Nat.le_of_lt (htighter inner hinner)
      obtain ⟨left, next, used, hused, hsame, hreach⟩ :=
        operators_reach ih level hwritten hwell htighter hbehind (by omega) finish id
      -- One step of the limit is left to see that no operator follows.
      obtain ⟨spare, hspare⟩ : ∃ spare, limit = spare + 1 + used := ⟨limit - used - 1, by omega⟩
      obtain ⟨result, last, hok, rfl⟩ := operators_accepts hstops spare left finish next
      refine ⟨result, last, ?_, hsame⟩
      rw [expression, ← hok]
      have hrun := hreach (spare + 1)
      rw [← hspare] at hrun
      exact hrun

/-- A well-formed expression is accepted wherever what follows cannot carry it on. -/
theorem expr_accepts {e : Expr} {tokens rest : List Token} (hwell : e.WellFormed)
    (hwritten : e.Written tokens) (hstops : StopsAt .lowest rest) :
    Accepts (expr .lowest) tokens rest fun result => result.unnumbered = e.unnumbered := by
  apply Accepts.bounded
  intro limit hlimit
  exact (expression_accepts limit).lowest hwell hwritten hstops hlimit

end Parse

end Scriptlet
