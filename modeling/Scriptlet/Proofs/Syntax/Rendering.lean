import Scriptlet.Proofs.Syntax.Nodes
import Scriptlet.Proofs.Syntax.ProgramCompleteness

/-! # Every well-formed program can be written and is read back

A well-formed tree whose constants have a spelling is written with some tokens, and from any tokens
it is written with the same tree is read, up to the identifiers of its nodes.
-/

namespace Scriptlet

/-- The spelling of a reserved word. -/
def Keyword.text : Keyword → String
  | LIST => "LIST"
  | VAR => "VAR"
  | VAL => "VAL"
  | FUN => "FUN"
  | DO => "DO"
  | END => "END"
  | LET => "LET"
  | SWITCH => "SWITCH"
  | CASE => "CASE"
  | DEFAULT => "DEFAULT"
  | IF => "IF"
  | ELSE => "ELSE"
  | WHILE => "WHILE"
  | RETURN => "RETURN"
  | TRUE => "TRUE"
  | FALSE => "FALSE"
  | NIL => "NIL"

theorem Keyword.ofText?_text (keyword : Keyword) : Keyword.ofText? keyword.text = some keyword := by
  cases keyword <;> rfl

/-- Some token stands for the constant. -/
def Literal.Spelled (value : Literal) : Prop :=
  ∃ token : Token, token.literal = .ok value ∨
    ∃ keyword, token.IsKeyword keyword ∧ keyword.literal? = some value

namespace Token

theorem exists_isKeyword (keyword : Keyword) : ∃ token : Token, token.IsKeyword keyword :=
  ⟨⟨.identifier, keyword.text, 0⟩, keyword.ofText?_text⟩

theorem exists_isOperator (symbol : String) : ∃ token : Token, token.IsOperator symbol :=
  ⟨⟨.operator, symbol, 0⟩, rfl, rfl⟩

theorem exists_isName {name : String} (h : Keyword.ofText? name = none) :
    ∃ token : Token, token.IsName name :=
  ⟨⟨.identifier, name, 0⟩, rfl, rfl, h⟩

end Token

section

variable {α : Type} {Written : α → List Token → Prop}

theorem Sequence.exists_of_forall {items : List α}
    (h : ∀ each ∈ items, ∃ tokens, Written each tokens) :
    ∃ tokens, Sequence Written items tokens := by
  induction items with
  | nil => exact ⟨[], .nil⟩
  | cons first rest ih =>
      obtain ⟨tokens, hfirst⟩ := h first List.mem_cons_self
      obtain ⟨others, hrest⟩ := ih fun each heach => h each (List.mem_cons_of_mem _ heach)
      exact ⟨tokens ++ others, .cons hfirst hrest⟩

theorem Separated.exists_of_forall {items : List α} (hsome : items ≠ [])
    (h : ∀ each ∈ items, ∃ tokens, Written each tokens) :
    ∃ tokens, Separated Written items tokens := by
  induction items with
  | nil => exact absurd rfl hsome
  | cons first rest ih =>
      obtain ⟨tokens, hfirst⟩ := h first List.mem_cons_self
      cases rest with
      | nil => exact ⟨tokens, .one hfirst⟩
      | cons second others =>
          obtain ⟨more, hrest⟩ := ih (by simp) fun each heach =>
            h each (List.mem_cons_of_mem _ heach)
          obtain ⟨comma, hcomma⟩ := Token.exists_isOperator ","
          exact ⟨tokens ++ comma :: more, .more hfirst hcomma hrest⟩

end

/-- Every constant among the nodes has a spelling. -/
def Node.AllSpelled (nodes : List Node) : Prop :=
  ∀ id value, .expression (.literal id value) ∈ nodes → value.Spelled

theorem Node.AllSpelled.mono {nodes others : List Node} (h : Node.AllSpelled others)
    (hsubset : nodes ⊆ others) : Node.AllSpelled nodes := by
  intro id value hmem
  exact h id value (hsubset hmem)

theorem Expr.exists_written {e : Expr} (hwell : e.WellFormed) (hspelled : Node.AllSpelled e.nodes) :
    ∃ tokens, e.Written tokens := by
  induction hwell with
  | @literal id value =>
      obtain ⟨token, hvalue | ⟨keyword, hword, hvalue⟩⟩ :=
        hspelled id value (by simp [Expr.nodes])
      · exact ⟨_, .literal hvalue⟩
      · exact ⟨_, .word hword hvalue⟩
  | group _ ih =>
      obtain ⟨tokens, hinner⟩ := ih (hspelled.mono (by simp [Expr.nodes]))
      obtain ⟨opening, hopening⟩ := Token.exists_isOperator "("
      obtain ⟨closing, hclosing⟩ := Token.exists_isOperator ")"
      exact ⟨_, .group hopening hinner hclosing⟩
  | @binary id operator left right _ _ _ _ ihLeft ihRight =>
      obtain ⟨before, hleft⟩ := ihLeft (hspelled.mono (by simp [Expr.nodes]))
      obtain ⟨after, hright⟩ := ihRight (hspelled.mono (by simp [Expr.nodes]))
      obtain ⟨sign, hsign⟩ := Token.exists_isOperator operator.symbol
      exact ⟨_, .binary hleft hsign hright⟩
  | access hfree =>
      obtain ⟨token, htoken⟩ := Token.exists_isName hfree
      exact ⟨_, .access htoken⟩
  | element hfree _ ih =>
      obtain ⟨tokens, hindex⟩ := ih (hspelled.mono (by simp [Expr.nodes]))
      obtain ⟨token, htoken⟩ := Token.exists_isName hfree
      obtain ⟨opening, hopening⟩ := Token.exists_isOperator "["
      obtain ⟨closing, hclosing⟩ := Token.exists_isOperator "]"
      exact ⟨_, .element htoken hopening hindex hclosing⟩
  | @call id name arguments hfree _ ih =>
      obtain ⟨token, htoken⟩ := Token.exists_isName hfree
      obtain ⟨opening, hopening⟩ := Token.exists_isOperator "("
      obtain ⟨closing, hclosing⟩ := Token.exists_isOperator ")"
      by_cases hnone : arguments = []
      · subst hnone
        exact ⟨_, .callEmpty htoken hopening hclosing⟩
      · obtain ⟨tokens, harguments⟩ := Separated.exists_of_forall hnone fun each heach =>
          ih each heach (hspelled.mono fun node hnode => by
            rw [Expr.nodes, Expr.listNodes_eq_flatMap]
            exact List.mem_append_left _ (List.mem_flatMap_of_mem heach hnode))
        exact ⟨_, .call htoken hopening harguments hclosing⟩

theorem exists_valueWritten {value : Option Expr} (hwell : ∀ e ∈ value, e.WellFormed)
    (hspelled : Node.AllSpelled (Expr.optionNodes value)) :
    ∃ tokens, ValueWritten value tokens := by
  cases value with
  | none => exact ⟨_, .none⟩
  | some e =>
      obtain ⟨tokens, hwritten⟩ := Expr.exists_written (hwell e rfl) hspelled
      obtain ⟨sign, hsign⟩ := Token.exists_isOperator "="
      exact ⟨_, .some hsign hwritten⟩

theorem exists_typeWritten {typeName : Option String}
    (hfree : ∀ name ∈ typeName, Keyword.ofText? name = none) :
    ∃ tokens, TypeWritten typeName tokens := by
  cases typeName with
  | none => exact ⟨_, .none⟩
  | some name =>
      obtain ⟨colon, hcolon⟩ := Token.exists_isOperator ":"
      obtain ⟨token, htoken⟩ := Token.exists_isName (hfree name rfl)
      exact ⟨_, .some hcolon htoken⟩

/-- A switch with one default arm, as its last, has a value in all other arms. -/
theorem Case.OneDefault.exists_append {arms : List Case} (h : Case.OneDefault arms) :
    ∃ others body, arms = others ++ [.mk none body] ∧
      ∀ arm ∈ others, ∃ value body, arm = .mk (some value) body := by
  obtain ⟨hcount, ⟨value, body⟩, hlast, hdefault⟩ := h
  obtain ⟨others, rfl⟩ := List.getLast?_eq_some_iff.mp hlast
  have hnone : value = none := by simpa [Case.isDefault, Case.value] using hdefault
  subst hnone
  refine ⟨others, body, rfl, ?_⟩
  rintro ⟨value, body'⟩ harm
  rw [List.countP_append, List.countP_singleton, if_pos hdefault, Nat.add_eq_right,
    List.countP_eq_zero] at hcount
  have hvalue := hcount _ harm
  cases value with
  | none => simp [Case.isDefault, Case.value] at hvalue
  | some value => exact ⟨value, body', rfl⟩

theorem Stmt.blockNodes_eq_flatMap (body : List Stmt) :
    Stmt.blockNodes body = body.flatMap Stmt.nodes := by
  induction body with
  | nil => simp [Stmt.blockNodes]
  | cons first rest ih => simp [Stmt.blockNodes, ih]

theorem Stmt.caseNodes_eq_flatMap (arms : List Case) :
    Stmt.caseNodes arms =
      arms.flatMap fun arm => Expr.optionNodes arm.value ++ Stmt.blockNodes arm.body := by
  induction arms with
  | nil => simp [Stmt.caseNodes]
  | cons first rest ih =>
      cases first
      simp [Stmt.caseNodes, Case.value, Case.body, ih]

/-- A block is written if each of its statements is. -/
theorem exists_blockWritten {body : List Stmt}
    (h : ∀ inner ∈ body, Node.AllSpelled inner.nodes → ∃ tokens, inner.Written tokens)
    (hspelled : Node.AllSpelled (Stmt.blockNodes body)) :
    ∃ tokens, Sequence Stmt.Written body tokens := by
  apply Sequence.exists_of_forall
  intro inner hinner
  apply h inner hinner
  apply hspelled.mono
  intro node hnode
  rw [Stmt.blockNodes_eq_flatMap]
  exact List.mem_flatMap_of_mem hinner hnode

/-- The arms with a value are written if each of their statements is. -/
theorem exists_armsWritten {arms : List Case}
    (hvalues : ∀ arm ∈ arms, ∃ value body, arm = .mk (some value) body)
    (hwell : ∀ arm ∈ arms, ∀ value ∈ arm.value, value.WellFormed)
    (h : ∀ arm ∈ arms, ∀ inner ∈ arm.body, Node.AllSpelled inner.nodes →
      ∃ tokens, inner.Written tokens)
    (hspelled : Node.AllSpelled (Stmt.caseNodes arms)) :
    ∃ tokens, Sequence Case.Written arms tokens := by
  apply Sequence.exists_of_forall
  intro arm harm
  have hnodes : Node.AllSpelled (Expr.optionNodes arm.value ++ Stmt.blockNodes arm.body) := by
    apply hspelled.mono
    intro node hnode
    rw [Stmt.caseNodes_eq_flatMap]
    exact List.mem_flatMap_of_mem harm hnode
  obtain ⟨value, body, rfl⟩ := hvalues arm harm
  obtain ⟨word, hword⟩ := Token.exists_isKeyword .CASE
  obtain ⟨tokens, htokens⟩ := Expr.exists_written (hwell _ harm value rfl)
    (hnodes.mono (List.subset_append_left _ _))
  obtain ⟨colon, hcolon⟩ := Token.exists_isOperator ":"
  obtain ⟨bodyTokens, hbody⟩ := exists_blockWritten (h _ harm)
    (hnodes.mono (List.subset_append_right _ _))
  exact ⟨_, .mk hword htokens hcolon hbody⟩

theorem Stmt.exists_written {s : Stmt} (hwell : s.WellFormed)
    (hspelled : Node.AllSpelled s.nodes) : ∃ tokens, s.Written tokens := by
  induction hwell with
  | expression hvalue =>
      obtain ⟨tokens, hwritten⟩ := Expr.exists_written hvalue hspelled
      obtain ⟨semicolon, hsemicolon⟩ := Token.exists_isOperator ";"
      exact ⟨_, .expression hwritten hsemicolon⟩
  | declaration hfree htype hinitial =>
      obtain ⟨word, hword⟩ := Token.exists_isKeyword .LET
      obtain ⟨token, htoken⟩ := Token.exists_isName hfree
      obtain ⟨typeTokens, htype⟩ := exists_typeWritten htype
      obtain ⟨valueTokens, hvalue⟩ := exists_valueWritten hinitial
        (hspelled.mono (by simp [Stmt.nodes]))
      obtain ⟨semicolon, hsemicolon⟩ := Token.exists_isOperator ";"
      exact ⟨_, .declaration hword htoken htype hvalue hsemicolon⟩
  | assignment hreceiver hvalue =>
      obtain ⟨before, hbefore⟩ := Expr.exists_written hreceiver
        (hspelled.mono (by simp [Stmt.nodes]))
      obtain ⟨sign, hsign⟩ := Token.exists_isOperator "="
      obtain ⟨after, hafter⟩ := Expr.exists_written hvalue (hspelled.mono (by simp [Stmt.nodes]))
      obtain ⟨semicolon, hsemicolon⟩ := Token.exists_isOperator ";"
      exact ⟨_, .assignment hbefore hsign hafter hsemicolon⟩
  | branch hcondition _ _ ihThen ihElse =>
      obtain ⟨word, hword⟩ := Token.exists_isKeyword .IF
      obtain ⟨tokens, htokens⟩ := Expr.exists_written hcondition
        (hspelled.mono (by simp [Stmt.nodes]))
      obtain ⟨doing, hdoing⟩ := Token.exists_isKeyword .DO
      obtain ⟨thenTokens, hthen⟩ := exists_blockWritten ihThen
        (hspelled.mono (by simp [Stmt.nodes]))
      obtain ⟨otherwise, hotherwise⟩ := Token.exists_isKeyword .ELSE
      obtain ⟨elseTokens, helse⟩ := exists_blockWritten ihElse
        (hspelled.mono (by simp [Stmt.nodes]))
      obtain ⟨ending, hending⟩ := Token.exists_isKeyword .END
      exact ⟨_, .branchElse hword htokens hdoing hthen hotherwise helse hending⟩
  | switch hcondition hdefault hvalues _ ih =>
      obtain ⟨others, body, rfl, hothers⟩ := hdefault.exists_append
      obtain ⟨word, hword⟩ := Token.exists_isKeyword .SWITCH
      obtain ⟨tokens, htokens⟩ := Expr.exists_written hcondition
        (hspelled.mono (by simp [Stmt.nodes]))
      obtain ⟨armTokens, harms⟩ := exists_armsWritten hothers
        (fun arm harm => hvalues arm (List.mem_append_left _ harm))
        (fun arm harm => ih arm (List.mem_append_left _ harm))
        (hspelled.mono (by simp [Stmt.nodes, Stmt.caseNodes_append]))
      obtain ⟨default, hdefault⟩ := Token.exists_isKeyword .DEFAULT
      obtain ⟨bodyTokens, hbody⟩ := exists_blockWritten (ih (.mk none body) (by simp))
        (hspelled.mono (by
          simp [Stmt.nodes, Stmt.caseNodes_append, Stmt.caseNodes, Case.body, Expr.optionNodes]))
      obtain ⟨ending, hending⟩ := Token.exists_isKeyword .END
      exact ⟨_, .switch hword htokens harms hdefault hbody hending⟩
  | loop hcondition _ ih =>
      obtain ⟨word, hword⟩ := Token.exists_isKeyword .WHILE
      obtain ⟨tokens, htokens⟩ := Expr.exists_written hcondition
        (hspelled.mono (by simp [Stmt.nodes]))
      obtain ⟨doing, hdoing⟩ := Token.exists_isKeyword .DO
      obtain ⟨bodyTokens, hbody⟩ := exists_blockWritten ih (hspelled.mono (by simp [Stmt.nodes]))
      obtain ⟨ending, hending⟩ := Token.exists_isKeyword .END
      exact ⟨_, .loop hword htokens hdoing hbody hending⟩
  | ret hvalue =>
      obtain ⟨word, hword⟩ := Token.exists_isKeyword .RETURN
      obtain ⟨tokens, hwritten⟩ := Expr.exists_written hvalue hspelled
      obtain ⟨semicolon, hsemicolon⟩ := Token.exists_isOperator ";"
      exact ⟨_, .ret hword hwritten hsemicolon⟩

theorem Global.exists_written {g : Global} (hwell : g.WellFormed)
    (hspelled : Node.AllSpelled g.nodes) : ∃ tokens, g.Written tokens := by
  obtain ⟨id, name, typeName, mutable, initial⟩ := g
  obtain ⟨hname, htype, hinitial⟩ := hwell
  have hvalues : Node.AllSpelled (Expr.optionNodes initial) :=
    hspelled.mono (by simp [Global.nodes])
  obtain ⟨token, htoken⟩ := Token.exists_isName hname
  obtain ⟨colon, hcolon⟩ := Token.exists_isOperator ":"
  obtain ⟨typeToken, htypeToken⟩ := Token.exists_isName htype
  obtain ⟨semicolon, hsemicolon⟩ := Token.exists_isOperator ";"
  have hscalar : (∀ value ∈ initial, value.WellFormed) →
      ∃ tokens, Global.Written ⟨id, name, typeName, mutable, initial⟩ tokens := by
    intro hwell
    obtain ⟨tokens, hvalue⟩ := exists_valueWritten hwell hvalues
    obtain ⟨word, hword⟩ := Token.exists_isKeyword (if mutable then .VAR else .VAL)
    exact ⟨_, .scalar hword htoken hcolon htypeToken hvalue hsemicolon⟩
  cases hinitial with
  | none => exact hscalar (by simp)
  | scalar hwell => exact hscalar (by simpa using hwell)
  | list hsome helements =>
      obtain ⟨word, hword⟩ := Token.exists_isKeyword .LIST
      obtain ⟨sign, hsign⟩ := Token.exists_isOperator "="
      obtain ⟨opening, hopening⟩ := Token.exists_isOperator "["
      obtain ⟨tokens, htokens⟩ := Separated.exists_of_forall hsome fun each heach =>
        Expr.exists_written (helements each heach) (hvalues.mono fun node hnode => by
          rw [Expr.optionNodes, Expr.nodes, Expr.listNodes_eq_flatMap]
          exact List.mem_append_left _ (List.mem_flatMap_of_mem heach hnode))
      obtain ⟨closing, hclosing⟩ := Token.exists_isOperator "]"
      exact ⟨_, .list hword htoken hcolon htypeToken hsign hopening htokens hclosing hsemicolon⟩

theorem Function.exists_written {f : Function} (hwell : f.WellFormed)
    (hspelled : Node.AllSpelled f.nodes) : ∃ tokens, f.Written tokens := by
  have hparameters : ∃ parameterTokens,
      ParametersWritten (f.parameterNames.zip f.parameterTypes) parameterTokens := by
    by_cases hnone : f.parameterNames.zip f.parameterTypes = []
    · rw [hnone]
      exact ⟨_, .nil⟩
    · obtain ⟨tokens, htokens⟩ := Separated.exists_of_forall hnone fun each heach => by
        obtain ⟨name, typeName⟩ := each
        obtain ⟨hname, htype⟩ := List.of_mem_zip heach
        obtain ⟨token, htoken⟩ := Token.exists_isName (hwell.parameterNames name hname)
        obtain ⟨colon, hcolon⟩ := Token.exists_isOperator ":"
        obtain ⟨typeToken, htypeToken⟩ :=
          Token.exists_isName (hwell.parameterTypes typeName htype)
        exact ⟨_, ParameterWritten.mk htoken hcolon htypeToken⟩
      exact ⟨_, .some htokens⟩
  have hbody : ∃ bodyTokens, Sequence Stmt.Written f.body bodyTokens := by
    apply Sequence.exists_of_forall
    intro inner hinner
    apply Stmt.exists_written (hwell.body inner hinner)
    apply hspelled.mono
    intro node hnode
    rw [Function.nodes, Stmt.blockNodes_eq_flatMap]
    exact List.mem_append_left _ (List.mem_flatMap_of_mem hinner hnode)
  obtain ⟨word, hword⟩ := Token.exists_isKeyword .FUN
  obtain ⟨token, htoken⟩ := Token.exists_isName hwell.name
  obtain ⟨opening, hopening⟩ := Token.exists_isOperator "("
  obtain ⟨parameterTokens, hparameters⟩ := hparameters
  obtain ⟨closing, hclosing⟩ := Token.exists_isOperator ")"
  obtain ⟨typeTokens, htype⟩ := exists_typeWritten hwell.returnType
  obtain ⟨doing, hdoing⟩ := Token.exists_isKeyword .DO
  obtain ⟨bodyTokens, hbody⟩ := hbody
  obtain ⟨ending, hending⟩ := Token.exists_isKeyword .END
  refine ⟨_, .mk ?_ ?_ hword htoken hopening hparameters hclosing htype hdoing hbody hending⟩
  · exact (List.map_fst_zip (Nat.le_of_eq hwell.parameters)).symm
  · exact (List.map_snd_zip (Nat.le_of_eq hwell.parameters.symm)).symm

theorem Program.exists_written {p : Program} (hwell : p.WellFormed)
    (hspelled : Node.AllSpelled p.nodes) : ∃ tokens, p.Written tokens := by
  obtain ⟨globalTokens, hglobals⟩ := Sequence.exists_of_forall fun g hg =>
    Global.exists_written (hwell.globals g hg)
      (hspelled.mono fun _ => Program.mem_nodes_of_global hg)
  obtain ⟨functionTokens, hfunctions⟩ := Sequence.exists_of_forall fun f hf =>
    Function.exists_written (hwell.functions f hf)
      (hspelled.mono fun _ => Program.mem_nodes_of_function hf)
  exact ⟨_, .mk hglobals hfunctions⟩

/-- A well-formed program is read back from any tokens it is written with. -/
theorem Program.exists_ofTokens {p : Program} {tokens : List Token} (hwell : p.WellFormed)
    (hwritten : p.Written tokens) :
    ∃ q, Program.ofTokens tokens = .ok q ∧ q.unnumbered = p.unnumbered := by
  obtain ⟨q, next, hok, hsame⟩ :=
    Parse.program_accepts hwell hwritten (Cursor.start tokens).finish (Cursor.start tokens).nextId
  refine ⟨q, ?_, hsame⟩
  rw [List.append_nil] at hok
  have hstart : Parse.program (Cursor.start tokens) = .ok q ⟨[], _, next⟩ := hok
  unfold Program.ofTokens Parse.run
  rw [hstart]

/-- Reading undoes writing: a well-formed program whose constants have a spelling can be written,
and all tokens it is written with are read as this program, up to the identifiers of nodes. -/
theorem Program.ofTokens_undoes_writing {p : Program} (hwell : p.WellFormed)
    (hspelled : Node.AllSpelled p.nodes) :
    (∃ tokens, p.Written tokens) ∧ ∀ tokens, p.Written tokens →
      ∃ q, Program.ofTokens tokens = .ok q ∧ q.unnumbered = p.unnumbered := by
  constructor
  · exact Program.exists_written hwell hspelled
  · intro tokens hwritten
    exact Program.exists_ofTokens hwell hwritten

/-- A program with a list, a switch and a chain of differences, all numbered alike. -/
def Program.differences : Program where
  globals := [⟨0, "xs", "Integer", true, some (.list 0 [.literal 0 (.integer 1)])⟩]
  functions := [{
    id := 0
    name := "main"
    parameterNames := ["a"]
    parameterTypes := ["Integer"]
    returnType := some "Integer"
    body := [.switch (.access 0 "a") [
      .mk (some (.literal 0 (.integer 1))) [
        .ret (.binary 0 .subtract (.binary 0 .subtract (.access 0 "a") (.literal 0 (.integer 1)))
          (.element 0 "xs" (.access 0 "a")))],
      .mk none []]] }]

theorem Program.wellFormed_differences : Program.differences.WellFormed where
  globals := by
    simp only [differences, List.forall_mem_singleton]
    exact ⟨rfl, rfl, .list (by simp) (by simpa using .literal)⟩
  functions := by
    simp only [differences, List.forall_mem_singleton]
    refine ⟨rfl, rfl, ?_, ?_, ?_, ?_⟩
    · simp [Keyword.ofText?]
    · simp [Keyword.ofText?]
    · simp [Keyword.ofText?]
    · have haccess : (Expr.access 0 "a").WellFormed := .access rfl
      have hleft : (Expr.binary 0 .subtract (.access 0 "a") (.literal 0 (.integer 1))).WellFormed :=
        .binary haccess .literal (by simp [Expr.operator?]) (by simp [Expr.operator?])
      simp only [List.forall_mem_singleton]
      refine .switch haccess ?_ ?_ ?_
      · simp [Case.OneDefault, Case.isDefault, Case.value]
      · simpa [Case.value] using .literal
      · simp only [List.forall_mem_cons, Case.body, List.not_mem_nil, false_implies, implies_true,
          and_true]
        exact .ret (.binary hleft (.element rfl haccess) (by simp [Expr.operator?])
          (by simp [Expr.operator?]))
  some_function := by simp [differences]

theorem Program.spelled_differences : Node.AllSpelled Program.differences.nodes := by
  intro id value hmem
  have hone : id = 0 ∧ value = .integer 1 := by
    simpa [differences, Program.nodes, Global.nodes, Function.nodes, Expr.optionNodes, Expr.nodes,
      Expr.listNodes, Stmt.blockNodes, Stmt.nodes, Stmt.caseNodes] using hmem
  rw [hone.2]
  exact ⟨⟨.integer, "1", 0⟩, .inl rfl⟩

theorem Program.differences_read_back :
    Program.differences.WellFormed ∧ Node.AllSpelled Program.differences.nodes ∧
      (∃ tokens, Program.differences.Written tokens) ∧
      ∀ tokens, Program.differences.Written tokens →
        ∃ q, Program.ofTokens tokens = .ok q ∧ q.unnumbered = Program.differences.unnumbered :=
  ⟨wellFormed_differences, spelled_differences,
    ofTokens_undoes_writing wellFormed_differences spelled_differences⟩

end Scriptlet
