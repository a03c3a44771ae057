import Scriptlet.Syntax.Parse.Expression

/-! # The grammar of programs

Which sequences of tokens a tree is written with, and which trees have a written form at all. Only
the kinds and the texts of tokens count here, not their offsets, and the identifiers of nodes play
no part. The grammar says nothing of precedence: that the operators of a tree need no parentheses
beyond those that it has is part of its being well formed.
-/

namespace Scriptlet

namespace Token

/-- The token is the given operator. -/
def IsOperator (symbol : String) (token : Token) : Prop :=
  token.kind = .operator ∧ token.text = symbol

/-- The token is the given reserved word. -/
def IsKeyword (keyword : Keyword) (token : Token) : Prop :=
  token.keyword? = some keyword

/-- The token is the given name, which is not reserved. -/
def IsName (name : String) (token : Token) : Prop :=
  token.kind = .identifier ∧ token.text = name ∧ Keyword.ofText? name = none

end Token

/-- Items one after the other, each with its own tokens. -/
inductive Sequence {α : Type} (Written : α → List Token → Prop) : List α → List Token → Prop
  | nil : Sequence Written [] []
  | cons {first : α} {rest : List α} {tokens others : List Token} :
      Written first tokens → Sequence Written rest others →
        Sequence Written (first :: rest) (tokens ++ others)

/-- At least one item, with commas between them. -/
inductive Separated {α : Type} (Written : α → List Token → Prop) : List α → List Token → Prop
  | one {item : α} {tokens : List Token} : Written item tokens → Separated Written [item] tokens
  | more {first : α} {rest : List α} {tokens others : List Token} {comma : Token} :
      Written first tokens → comma.IsOperator "," → Separated Written rest others →
        Separated Written (first :: rest) (tokens ++ comma :: others)

/-- An expression and the tokens it is written with. A list is not among them: it can only be
written as the first value of a global. -/
inductive Expr.Written : Expr → List Token → Prop
  | literal {id : NodeId} {value : Literal} {token : Token} :
      token.literal = .ok value → Expr.Written (.literal id value) [token]
  | word {id : NodeId} {value : Literal} {keyword : Keyword} {token : Token} :
      token.IsKeyword keyword → keyword.literal? = some value →
        Expr.Written (.literal id value) [token]
  | group {id : NodeId} {inner : Expr} {opening closing : Token} {tokens : List Token} :
      opening.IsOperator "(" → Expr.Written inner tokens → closing.IsOperator ")" →
        Expr.Written (.group id inner) (opening :: tokens ++ [closing])
  | binary {id : NodeId} {operator : Operator} {left right : Expr} {sign : Token}
      {before after : List Token} :
      Expr.Written left before → sign.IsOperator operator.symbol → Expr.Written right after →
        Expr.Written (.binary id operator left right) (before ++ sign :: after)
  | access {id : NodeId} {name : String} {token : Token} :
      token.IsName name → Expr.Written (.access id name) [token]
  | element {id : NodeId} {name : String} {index : Expr} {token opening closing : Token}
      {tokens : List Token} :
      token.IsName name → opening.IsOperator "[" → Expr.Written index tokens →
        closing.IsOperator "]" →
        Expr.Written (.element id name index) (token :: opening :: tokens ++ [closing])
  | callEmpty {id : NodeId} {name : String} {token opening closing : Token} :
      token.IsName name → opening.IsOperator "(" → closing.IsOperator ")" →
        Expr.Written (.call id name []) [token, opening, closing]
  | call {id : NodeId} {name : String} {arguments : List Expr} {token opening closing : Token}
      {tokens : List Token} :
      token.IsName name → opening.IsOperator "(" → Separated Expr.Written arguments tokens →
        closing.IsOperator ")" →
        Expr.Written (.call id name arguments) (token :: opening :: tokens ++ [closing])

/-- A type after a colon, or nothing. -/
inductive TypeWritten : Option String → List Token → Prop
  | none : TypeWritten none []
  | some {name : String} {colon token : Token} :
      colon.IsOperator ":" → token.IsName name → TypeWritten (some name) [colon, token]

/-- A value after an equals sign, or nothing. -/
inductive ValueWritten : Option Expr → List Token → Prop
  | none : ValueWritten none []
  | some {value : Expr} {sign : Token} {tokens : List Token} :
      sign.IsOperator "=" → value.Written tokens → ValueWritten (some value) (sign :: tokens)

mutual

/-- A statement and the tokens it is written with. A conditional whose alternative is empty can be
written with the word `ELSE` and without it. -/
inductive Stmt.Written : Stmt → List Token → Prop
  | declaration {id : NodeId} {name : String} {typeName : Option String} {initial : Option Expr}
      {word token semicolon : Token} {typeTokens valueTokens : List Token} :
      word.IsKeyword .LET → token.IsName name → TypeWritten typeName typeTokens →
        ValueWritten initial valueTokens → semicolon.IsOperator ";" →
        Stmt.Written (.declaration id name typeName initial)
          (word :: token :: typeTokens ++ valueTokens ++ [semicolon])
  | switch {condition : Expr} {arms : List Case} {body : List Stmt} {word default ending : Token}
      {tokens armTokens bodyTokens : List Token} :
      word.IsKeyword .SWITCH → condition.Written tokens → Sequence Case.Written arms armTokens →
        default.IsKeyword .DEFAULT → Sequence Stmt.Written body bodyTokens →
        ending.IsKeyword .END →
        Stmt.Written (.switch condition (arms ++ [.mk none body]))
          (word :: tokens ++ armTokens ++ default :: bodyTokens ++ [ending])
  | branch {condition : Expr} {thenBlock : List Stmt} {word doing ending : Token}
      {tokens thenTokens : List Token} :
      word.IsKeyword .IF → condition.Written tokens → doing.IsKeyword .DO →
        Sequence Stmt.Written thenBlock thenTokens → ending.IsKeyword .END →
        Stmt.Written (.branch condition thenBlock [])
          (word :: tokens ++ doing :: thenTokens ++ [ending])
  | branchElse {condition : Expr} {thenBlock elseBlock : List Stmt}
      {word doing otherwise ending : Token} {tokens thenTokens elseTokens : List Token} :
      word.IsKeyword .IF → condition.Written tokens → doing.IsKeyword .DO →
        Sequence Stmt.Written thenBlock thenTokens → otherwise.IsKeyword .ELSE →
        Sequence Stmt.Written elseBlock elseTokens → ending.IsKeyword .END →
        Stmt.Written (.branch condition thenBlock elseBlock)
          (word :: tokens ++ doing :: thenTokens ++ otherwise :: elseTokens ++ [ending])
  | loop {condition : Expr} {body : List Stmt} {word doing ending : Token}
      {tokens bodyTokens : List Token} :
      word.IsKeyword .WHILE → condition.Written tokens → doing.IsKeyword .DO →
        Sequence Stmt.Written body bodyTokens → ending.IsKeyword .END →
        Stmt.Written (.loop condition body) (word :: tokens ++ doing :: bodyTokens ++ [ending])
  | ret {value : Expr} {word semicolon : Token} {tokens : List Token} :
      word.IsKeyword .RETURN → value.Written tokens → semicolon.IsOperator ";" →
        Stmt.Written (.ret value) (word :: tokens ++ [semicolon])
  | assignment {receiver value : Expr} {sign semicolon : Token} {before after : List Token} :
      receiver.Written before → sign.IsOperator "=" → value.Written after →
        semicolon.IsOperator ";" →
        Stmt.Written (.assignment receiver value) (before ++ sign :: after ++ [semicolon])
  | expression {value : Expr} {semicolon : Token} {tokens : List Token} :
      value.Written tokens → semicolon.IsOperator ";" →
        Stmt.Written (.expression value) (tokens ++ [semicolon])

/-- An arm of a switch that has a value. -/
inductive Case.Written : Case → List Token → Prop
  | mk {value : Expr} {body : List Stmt} {word colon : Token} {tokens bodyTokens : List Token} :
      word.IsKeyword .CASE → value.Written tokens → colon.IsOperator ":" →
        Sequence Stmt.Written body bodyTokens →
        Case.Written (.mk (some value) body) (word :: tokens ++ colon :: bodyTokens)

end

/-- A global and the tokens it is written with. -/
inductive Global.Written : Global → List Token → Prop
  | list {id listId : NodeId} {name typeName : String} {elements : List Expr}
      {word token colon typeToken sign opening closing semicolon : Token} {tokens : List Token} :
      word.IsKeyword .LIST → token.IsName name → colon.IsOperator ":" →
        typeToken.IsName typeName → sign.IsOperator "=" → opening.IsOperator "[" →
        Separated Expr.Written elements tokens → closing.IsOperator "]" →
        semicolon.IsOperator ";" →
        Global.Written ⟨id, name, typeName, true, some (.list listId elements)⟩
          (word :: token :: colon :: typeToken :: sign :: opening :: tokens ++
            [closing, semicolon])
  | scalar {id : NodeId} {name typeName : String} {mutable : Bool} {initial : Option Expr}
      {word token colon typeToken semicolon : Token} {tokens : List Token} :
      word.IsKeyword (if mutable then .VAR else .VAL) → token.IsName name →
        colon.IsOperator ":" → typeToken.IsName typeName → ValueWritten initial tokens →
        semicolon.IsOperator ";" →
        Global.Written ⟨id, name, typeName, mutable, initial⟩
          (word :: token :: colon :: typeToken :: tokens ++ [semicolon])

/-- A parameter's name and type. -/
inductive ParameterWritten : String × String → List Token → Prop
  | mk {name typeName : String} {token colon typeToken : Token} :
      token.IsName name → colon.IsOperator ":" → typeToken.IsName typeName →
        ParameterWritten (name, typeName) [token, colon, typeToken]

/-- The parameters of a function, between its parentheses. -/
inductive ParametersWritten : List (String × String) → List Token → Prop
  | nil : ParametersWritten [] []
  | some {parameters : List (String × String)} {tokens : List Token} :
      Separated ParameterWritten parameters tokens → ParametersWritten parameters tokens

/-- A function and the tokens it is written with. -/
inductive Function.Written : Function → List Token → Prop
  | mk {f : Function} {parameters : List (String × String)}
      {word token opening closing doing ending : Token}
      {parameterTokens typeTokens bodyTokens : List Token} :
      f.parameterNames = parameters.map Prod.fst → f.parameterTypes = parameters.map Prod.snd →
        word.IsKeyword .FUN → token.IsName f.name → opening.IsOperator "(" →
        ParametersWritten parameters parameterTokens → closing.IsOperator ")" →
        TypeWritten f.returnType typeTokens → doing.IsKeyword .DO →
        Sequence Stmt.Written f.body bodyTokens → ending.IsKeyword .END →
        Function.Written f
          (word :: token :: opening :: parameterTokens ++ closing :: typeTokens ++
            doing :: bodyTokens ++ [ending])

/-- A program and the tokens it is written with: its globals, then its functions. -/
inductive Program.Written : Program → List Token → Prop
  | mk {p : Program} {globalTokens functionTokens : List Token} :
      Sequence Global.Written p.globals globalTokens →
        Sequence Function.Written p.functions functionTokens →
        Program.Written p (globalTokens ++ functionTokens)

/-! ## Well-formed trees -/

/-- The operator of an expression that is an operation without parentheses around it. -/
def Expr.operator? : Expr → Option Operator
  | .binary _ operator _ _ => some operator
  | _ => none

/-- An expression without lists and with no reserved word for a name, in which operators of equal
precedence associate to the left and all other grouping is by precedence or by parentheses. -/
inductive Expr.WellFormed : Expr → Prop
  | literal {id : NodeId} {value : Literal} : Expr.WellFormed (.literal id value)
  | group {id : NodeId} {inner : Expr} :
      Expr.WellFormed inner → Expr.WellFormed (.group id inner)
  | binary {id : NodeId} {operator : Operator} {left right : Expr} :
      Expr.WellFormed left → Expr.WellFormed right →
        (∀ inner ∈ left.operator?, operator.precedence.rank ≤ inner.precedence.rank) →
        (∀ inner ∈ right.operator?, operator.precedence.rank < inner.precedence.rank) →
        Expr.WellFormed (.binary id operator left right)
  | access {id : NodeId} {name : String} :
      Keyword.ofText? name = none → Expr.WellFormed (.access id name)
  | element {id : NodeId} {name : String} {index : Expr} :
      Keyword.ofText? name = none → Expr.WellFormed index →
        Expr.WellFormed (.element id name index)
  | call {id : NodeId} {name : String} {arguments : List Expr} :
      Keyword.ofText? name = none → (∀ argument ∈ arguments, Expr.WellFormed argument) →
        Expr.WellFormed (.call id name arguments)

/-- A switch has one arm without a value, as its last. -/
def Case.OneDefault (arms : List Case) : Prop :=
  arms.countP Case.isDefault = 1 ∧ ∃ last ∈ arms.getLast?, last.isDefault = true

/-- A statement whose parts are well formed and whose declared names are not reserved. -/
inductive Stmt.WellFormed : Stmt → Prop
  | expression {value : Expr} : value.WellFormed → Stmt.WellFormed (.expression value)
  | declaration {id : NodeId} {name : String} {typeName : Option String}
      {initial : Option Expr} :
      Keyword.ofText? name = none → (∀ type ∈ typeName, Keyword.ofText? type = none) →
        (∀ value ∈ initial, value.WellFormed) →
        Stmt.WellFormed (.declaration id name typeName initial)
  | assignment {receiver value : Expr} :
      receiver.WellFormed → value.WellFormed → Stmt.WellFormed (.assignment receiver value)
  | branch {condition : Expr} {thenBlock elseBlock : List Stmt} :
      condition.WellFormed → (∀ inner ∈ thenBlock, Stmt.WellFormed inner) →
        (∀ inner ∈ elseBlock, Stmt.WellFormed inner) →
        Stmt.WellFormed (.branch condition thenBlock elseBlock)
  | switch {condition : Expr} {arms : List Case} :
      condition.WellFormed → Case.OneDefault arms →
        (∀ arm ∈ arms, ∀ value ∈ arm.value, value.WellFormed) →
        (∀ arm ∈ arms, ∀ inner ∈ arm.body, Stmt.WellFormed inner) →
        Stmt.WellFormed (.switch condition arms)
  | loop {condition : Expr} {body : List Stmt} :
      condition.WellFormed → (∀ inner ∈ body, Stmt.WellFormed inner) →
        Stmt.WellFormed (.loop condition body)
  | ret {value : Expr} : value.WellFormed → Stmt.WellFormed (.ret value)

/-- The first value of a global is a well-formed expression or, if the global can be assigned to, a
list with at least one element. -/
inductive Global.WellFormedInitial : (mutable : Bool) → Option Expr → Prop
  | none {mutable : Bool} : Global.WellFormedInitial mutable none
  | scalar {mutable : Bool} {value : Expr} :
      value.WellFormed → Global.WellFormedInitial mutable (some value)
  | list {id : NodeId} {elements : List Expr} :
      elements ≠ [] → (∀ element ∈ elements, element.WellFormed) →
        Global.WellFormedInitial true (some (.list id elements))

structure Global.WellFormed (g : Global) : Prop where
  name : Keyword.ofText? g.name = none
  typeName : Keyword.ofText? g.typeName = none
  initial : Global.WellFormedInitial g.mutable g.initial

structure Function.WellFormed (f : Function) : Prop where
  name : Keyword.ofText? f.name = none
  parameters : f.parameterNames.length = f.parameterTypes.length
  parameterNames : ∀ name ∈ f.parameterNames, Keyword.ofText? name = none
  parameterTypes : ∀ name ∈ f.parameterTypes, Keyword.ofText? name = none
  returnType : ∀ name ∈ f.returnType, Keyword.ofText? name = none
  body : ∀ statement ∈ f.body, statement.WellFormed

structure Program.WellFormed (p : Program) : Prop where
  globals : ∀ g ∈ p.globals, g.WellFormed
  functions : ∀ f ∈ p.functions, f.WellFormed
  some_function : p.functions ≠ []

/-! ## Tests of the next token -/

namespace Cursor

theorem atOperator_iff {cursor : Cursor} {symbol : String} :
    cursor.atOperator symbol = true ↔ ∃ token ∈ cursor.tokens.head?, token.IsOperator symbol := by
  unfold atOperator
  split
  next h => simp [h]
  next h => simp [h, Token.IsOperator]

theorem atKeyword_iff {cursor : Cursor} {keyword : Keyword} :
    cursor.atKeyword keyword = true ↔ ∃ token ∈ cursor.tokens.head?, token.IsKeyword keyword := by
  unfold atKeyword
  split
  next h => simp [h]
  next h => simp [h, Token.IsKeyword]

theorem atName_iff {cursor : Cursor} :
    cursor.atName = true ↔ ∃ token ∈ cursor.tokens.head?, token.IsName token.text := by
  unfold atName
  split
  next h => simp [h]
  next token rest h =>
    simp only [h, List.head?_cons, Option.mem_some_iff, exists_eq_left', Token.IsName,
      Bool.and_eq_true, decide_eq_true_eq, Option.isNone_iff_eq_none, true_and]
    constructor
    · rintro ⟨hkind, hfree⟩
      rw [Token.keyword?, if_pos hkind] at hfree
      exact ⟨hkind, hfree⟩
    · rintro ⟨hkind, hfree⟩
      rw [Token.keyword?, if_pos hkind]
      exact ⟨hkind, hfree⟩

/-- The test tells whether the next token has the property. -/
def Tells (test : Cursor → Bool) (IsNext : Token → Prop) : Prop :=
  ∀ cursor : Cursor, test cursor = true ↔ ∃ token ∈ cursor.tokens.head?, IsNext token

theorem Tells.of_head {test : Cursor → Bool} {IsNext : Token → Prop} (htest : Tells test IsNext)
    {cursor : Cursor} {token : Token} (hat : test cursor = true)
    (hhead : cursor.tokens.head? = some token) : IsNext token := by
  obtain ⟨next, hnext, h⟩ := (htest cursor).mp hat
  cases hhead.symm.trans hnext
  exact h

theorem tells_atOperator (symbol : String) :
    Tells (·.atOperator symbol) (Token.IsOperator symbol) :=
  fun _ => atOperator_iff

theorem tells_atKeyword (keyword : Keyword) :
    Tells (·.atKeyword keyword) (Token.IsKeyword keyword) :=
  fun _ => atKeyword_iff

theorem tells_atName : Tells (·.atName) fun token => token.IsName token.text :=
  fun _ => atName_iff

end Cursor

end Scriptlet
