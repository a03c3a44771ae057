import Scriptlet.Proofs.Typing.ExpressionSoundness

/-! # Soundness of checking programs

A check of a statement gives a derivation from the scopes before it to those after it, and a check
of a program gives derivations of all its parts.
-/

namespace Scriptlet

theorem Stmt.Typed.grows {notes : Annotations} {result : Ty} {scopes scopes' : StaticScopes}
    {s : Stmt} (h : Stmt.Typed notes result scopes s scopes') : scopes.Grows scopes' := by
  cases h with
  | typed _ _ _ _ hdeclare => exact .declare .refl hdeclare
  | unset _ _ hdeclare => exact .declare .refl hdeclare
  | inferred _ _ hdeclare => exact .declare .refl hdeclare
  | _ => exact .refl

theorem Stmt.BlockTyped.grows {notes : Annotations} {result : Ty} {scopes scopes' : StaticScopes}
    {statements : List Stmt} (h : Stmt.BlockTyped notes result scopes statements scopes') :
    scopes.Grows scopes' := by
  induction h with
  | nil => exact .refl
  | cons hfirst _ ih => exact hfirst.grows.trans ih

theorem ParametersDeclared.grows {function index : Nat} {names typeNames : List String}
    {scopes scopes' : StaticScopes}
    (h : ParametersDeclared function index names typeNames scopes scopes') :
    scopes.Grows scopes' := by
  induction h with
  | nil => exact .refl
  | cons _ hdeclare _ ih => exact (Scopes.Grows.declare .refl hdeclare).trans ih

namespace Check

open Annotations (Recorded)

theorem ArityFits.grows {scopes scopes' : StaticScopes} (h : ArityFits scopes)
    (hgrows : scopes.Grows scopes') : ArityFits scopes' := by
  intro signature info hfind
  rw [hgrows.findFunction?_eq] at hfind
  exact h signature info hfind

theorem ArityFits.enter {scopes : StaticScopes} (h : ArityFits scopes) :
    ArityFits scopes.enter := h

/-! ## Statements -/

theorem condition_finds (e : Expr) (typing : Typing) (hdistinct : Node.Distinct e.nodes)
    (harity : ArityFits typing.scopes) :
    Finds (condition e) e.nodes typing fun _ notes => e.Typed notes typing.scopes .boolean := by
  refine (expression_finds e typing hdistinct harity).bind fun ty middle h => ?_
  obtain ⟨halike, htyped⟩ := h
  refine (requireAssignable_gives .boolean ty middle).imp fun _ finish h => ?_
  obtain ⟨haccepts, rfl⟩ := h
  obtain rfl := Ty.eq_of_accepts haccepts (by decide) (by decide)
  exact ⟨halike, htyped⟩

/-- A declaration is recorded and made when its parts have been checked. -/
theorem declared_gives {nodes : List Node} {start typing : Typing} {fact : Annotations → Prop}
    {node : Node} (name : String) (info : VariableInfo)
    (hdistinct : Node.Distinct (nodes ++ [node])) (halike : start.Alike typing)
    (h : Recorded nodes start.annotations typing.annotations fact) :
    Gives (do record (·.recordDeclaration node.id info.ty); declareVariable name info) typing
      fun _ finish => finish.returnType = start.returnType ∧
        start.scopes.declareVariable name info = .ok finish.scopes ∧
        Recorded (nodes ++ [node]) start.annotations finish.annotations fun notes =>
          fact notes ∧ notes.declaredTypeOf? node.id = some info.ty := by
  refine (declareVariable_gives name info { typing with
    annotations := typing.annotations.recordDeclaration node.id info.ty }).imp fun _ finish h => ?_
  obtain ⟨scopes, hdeclare, rfl⟩ := h
  rw [← halike.scopes]
  exact ⟨halike.returnType, hdeclare, h.declared hdistinct info.ty⟩

/-- What a check of a statement finds. -/
abbrev StatementFinds (check : Check Unit) (nodes : List Node) (typing : Typing)
    (fact : Annotations → StaticScopes → Prop) : Prop :=
  Gives check typing fun _ finish => finish.returnType = typing.returnType ∧
    Recorded nodes typing.annotations finish.annotations fun notes => fact notes finish.scopes

/-- A statement that declares nothing ends in the scopes it starts from. -/
theorem alike_finds {nodes : List Node} {start finish : Typing} {s : Stmt}
    (halike : start.Alike finish)
    (h : Recorded nodes start.annotations finish.annotations fun notes =>
      Stmt.Typed notes start.returnType start.scopes s start.scopes) :
    finish.returnType = start.returnType ∧
      Recorded nodes start.annotations finish.annotations fun notes =>
        Stmt.Typed notes start.returnType start.scopes s finish.scopes := by
  rw [halike.scopes]
  exact ⟨halike.returnType, h⟩

theorem localType_some_some {name : String} {declared given ty : Ty}
    (h : localType name (some declared) (some given) = .ok ty) :
    declared = ty ∧ declared.accepts given = true := by
  obtain ⟨haccepts, h⟩ := Ty.of_requireAssignable h
  exact ⟨Except.ok.inj h, haccepts⟩

theorem declaration_finds (id : NodeId) (name : String) (typeName : Option String)
    (initial : Option Expr) (typing : Typing)
    (hdistinct : Node.Distinct (Stmt.nodes (.declaration id name typeName initial)))
    (harity : ArityFits typing.scopes) :
    StatementFinds (declaration id name typeName initial)
      (Stmt.nodes (.declaration id name typeName initial)) typing fun notes scopes =>
        Stmt.Typed notes typing.returnType typing.scopes (.declaration id name typeName initial)
          scopes := by
  rw [Stmt.nodes] at hdistinct ⊢
  unfold declaration
  cases typeName with
  | some typeName =>
      simp only [declaredType, resolve, bind_assoc, pure_bind]
      refine (lift_gives (Ty.ofName typeName) typing).bind fun ty middle h => ?_
      obtain ⟨hty, rfl⟩ := h
      cases initial with
      | some e =>
          simp only [givenType, bind_assoc, pure_bind]
          refine (expression_finds e middle hdistinct.left harity).bind fun given m1 h1 => ?_
          obtain ⟨h1, htyped⟩ := h1
          refine (lift_gives _ m1).bind fun _ m2 h2 => ?_
          obtain ⟨hlocal, rfl⟩ := h2
          obtain ⟨rfl, haccepts⟩ := localType_some_some hlocal
          refine (declared_gives name (.ofLocal id ty) hdistinct h1 htyped).imp fun _ finish h => ?_
          obtain ⟨hreturn, hdeclare, hrecorded⟩ := h
          exact ⟨hreturn, hrecorded.imp fun notes ⟨htyped, hnote⟩ =>
            .typed hty htyped haccepts hnote hdeclare⟩
      | none =>
          simp only [givenType, pure_bind, localType]
          refine (declared_gives name (.ofLocal id ty) hdistinct ⟨rfl, rfl⟩
            (.nothing fun _ => trivial)).imp fun _ finish h => ?_
          obtain ⟨hreturn, hdeclare, hrecorded⟩ := h
          exact ⟨hreturn, hrecorded.imp fun notes ⟨_, hnote⟩ => .unset hty hnote hdeclare⟩
  | none =>
      cases initial with
      | some e =>
          simp only [declaredType, givenType, bind_assoc, pure_bind]
          refine (expression_finds e typing hdistinct.left harity).bind fun ty m1 h1 => ?_
          obtain ⟨h1, htyped⟩ := h1
          refine (declared_gives name (.ofLocal id ty) hdistinct h1 htyped).imp fun _ finish h => ?_
          obtain ⟨hreturn, hdeclare, hrecorded⟩ := h
          exact ⟨hreturn, hrecorded.imp fun notes ⟨htyped, hnote⟩ =>
            .inferred htyped hnote hdeclare⟩
      | none => trivial

theorem assignment_finds (receiver value : Expr) (typing : Typing)
    (hdistinct : Node.Distinct (receiver.nodes ++ value.nodes)) (harity : ArityFits typing.scopes) :
    Finds (assignment receiver value) (receiver.nodes ++ value.nodes) typing fun _ notes =>
      Stmt.Typed notes typing.returnType typing.scopes (.assignment receiver value)
        typing.scopes := by
  have hplace (h : receiver.isPlace = true) :
      Finds (do
          let target ← expression receiver
          let ty ← expression value
          lift (Ty.requireAssignable target ty)) (receiver.nodes ++ value.nodes) typing
        fun _ notes => Stmt.Typed notes typing.returnType typing.scopes
          (.assignment receiver value) typing.scopes := by
    refine (expression_finds receiver typing hdistinct.left harity).bind fun target m1 h1 => ?_
    obtain ⟨h1, hreceiver⟩ := h1
    refine (expression_finds value m1 hdistinct.right (h1.scopes ▸ harity)).bind
      fun ty m2 h2 => ?_
    obtain ⟨h2, hvalue⟩ := h2
    rw [h1.scopes] at hvalue
    refine (requireAssignable_gives target ty m2).imp fun _ finish h => ?_
    obtain ⟨haccepts, rfl⟩ := h
    exact ⟨h1.trans h2, (hreceiver.append hdistinct hvalue).imp
      fun notes ⟨hreceiver, hvalue⟩ => .assignment h hreceiver hvalue haccepts⟩
  cases receiver with
  | access id name => exact hplace rfl
  | element id name index => exact hplace rfl
  | _ => trivial

theorem armValue_finds (subject : Ty) (value : Expr) (typing : Typing)
    (hdistinct : Node.Distinct value.nodes) (harity : ArityFits typing.scopes) :
    Finds (armValue subject (some value)) value.nodes typing fun _ notes =>
      value.Typed notes typing.scopes subject := by
  refine (expression_finds value typing hdistinct harity).bind fun ty middle h => ?_
  obtain ⟨halike, hvalue⟩ := h
  refine (lift_gives _ middle).imp fun _ finish h => ?_
  obtain ⟨hsame, rfl⟩ := h
  unfold Ty.requireSame at hsame
  split at hsame
  next heq =>
    subst heq
    exact ⟨halike, hvalue⟩
  next => cases hsame

/-- A check of a block of its own leaves the scopes as they are. -/
theorem inBlock_finds {statements : List Stmt} {typing : Typing}
    (h : StatementFinds (block statements) (Stmt.blockNodes statements)
      { typing with scopes := typing.scopes.enter } fun notes scopes =>
        Stmt.BlockTyped notes typing.returnType typing.scopes.enter statements scopes) :
    Finds (inBlock (block statements)) (Stmt.blockNodes statements) typing fun _ notes =>
      ∃ scopes, Stmt.BlockTyped notes typing.returnType typing.scopes.enter statements scopes := by
  apply within_gives
  refine h.imp fun _ finish h => ?_
  obtain ⟨hreturn, hblock⟩ := h
  exact ⟨⟨hblock.now.grows.leaveBlock_eq, hreturn⟩, hblock.imp fun notes h => ⟨_, h⟩⟩

mutual

theorem statement_finds : ∀ (s : Stmt) (typing : Typing), Node.Distinct s.nodes →
    ArityFits typing.scopes →
    StatementFinds (statement s) s.nodes typing fun notes scopes =>
      Stmt.Typed notes typing.returnType typing.scopes s scopes
  | .expression value, typing, hdistinct, harity => by
      simp only [statement, Stmt.nodes]
      rw [Stmt.nodes] at hdistinct
      refine (expression_finds value typing hdistinct harity).bind fun ty finish h => ?_
      obtain ⟨halike, hvalue⟩ := h
      exact alike_finds halike (hvalue.imp fun notes hvalue => .expression hvalue)
  | .declaration id name typeName initial, typing, hdistinct, harity => by
      simp only [statement]
      exact declaration_finds id name typeName initial typing hdistinct harity
  | .assignment receiver value, typing, hdistinct, harity => by
      simp only [statement, Stmt.nodes]
      rw [Stmt.nodes] at hdistinct
      refine (assignment_finds receiver value typing hdistinct harity).imp fun _ finish h => ?_
      obtain ⟨halike, htyped⟩ := h
      exact alike_finds halike htyped
  | .branch test thenBlock elseBlock, typing, hdistinct, harity => by
      simp only [statement, Stmt.nodes]
      rw [Stmt.nodes] at hdistinct
      refine (condition_finds test typing hdistinct.left.left harity).bind fun _ m1 h1 => ?_
      obtain ⟨h1, htest⟩ := h1
      split
      · trivial
      refine (inBlock_finds (block_finds thenBlock _ hdistinct.left.right
        (h1.scopes ▸ harity).enter)).bind fun _ m2 h2 => ?_
      obtain ⟨h2, hthen⟩ := h2
      refine (inBlock_finds (block_finds elseBlock _ hdistinct.right
        ((h1.trans h2).scopes ▸ harity).enter)).imp fun _ finish h3 => ?_
      obtain ⟨h3, helse⟩ := h3
      rw [h1.scopes, h1.returnType] at hthen
      rw [(h1.trans h2).scopes, (h1.trans h2).returnType] at helse
      exact alike_finds ((h1.trans h2).trans h3) (((htest.append hdistinct.left hthen).append
        hdistinct helse).imp fun notes ⟨⟨htest, _, hthen⟩, _, helse⟩ => .branch htest hthen helse)
  | .switch subject arms, typing, hdistinct, harity => by
      simp only [statement, Stmt.nodes]
      rw [Stmt.nodes] at hdistinct
      refine (expression_finds subject typing hdistinct.left harity).bind fun ty m1 h1 => ?_
      obtain ⟨h1, hsubject⟩ := h1
      split
      case isFalse => trivial
      refine (cases_finds ty arms m1 hdistinct.right (h1.scopes ▸ harity)).imp fun _ finish h2 => ?_
      obtain ⟨h2, harms⟩ := h2
      rw [h1.scopes, h1.returnType] at harms
      exact alike_finds (h1.trans h2) ((hsubject.append hdistinct harms).imp
        fun notes ⟨hsubject, harms⟩ => .switch hsubject harms)
  | .loop test body, typing, hdistinct, harity => by
      simp only [statement, Stmt.nodes]
      rw [Stmt.nodes] at hdistinct
      refine (condition_finds test typing hdistinct.left harity).bind fun _ m1 h1 => ?_
      obtain ⟨h1, htest⟩ := h1
      refine (inBlock_finds (block_finds body _ hdistinct.right
        (h1.scopes ▸ harity).enter)).imp fun _ finish h2 => ?_
      obtain ⟨h2, hbody⟩ := h2
      rw [h1.scopes, h1.returnType] at hbody
      exact alike_finds (h1.trans h2) ((htest.append hdistinct hbody).imp
        fun notes ⟨htest, _, hbody⟩ => .loop htest hbody)
  | .ret value, typing, hdistinct, harity => by
      simp only [statement, Stmt.nodes]
      rw [Stmt.nodes] at hdistinct
      refine (expression_finds value typing hdistinct harity).bind fun ty middle h => ?_
      obtain ⟨halike, hvalue⟩ := h
      apply Ensures.get_bind
      refine (requireAssignable_gives middle.returnType ty middle).imp fun _ finish h => ?_
      obtain ⟨haccepts, rfl⟩ := h
      rw [halike.returnType] at haccepts
      exact alike_finds halike (hvalue.imp fun notes hvalue => .ret hvalue haccepts)

theorem block_finds : ∀ (statements : List Stmt) (typing : Typing),
    Node.Distinct (Stmt.blockNodes statements) → ArityFits typing.scopes →
    StatementFinds (block statements) (Stmt.blockNodes statements) typing fun notes scopes =>
      Stmt.BlockTyped notes typing.returnType typing.scopes statements scopes
  | [], typing, _, _ => by
      simp only [block, Stmt.blockNodes]
      exact ⟨rfl, .nothing fun _ => .nil⟩
  | first :: rest, typing, hdistinct, harity => by
      simp only [block, Stmt.blockNodes]
      rw [Stmt.blockNodes] at hdistinct
      refine (statement_finds first typing hdistinct.left harity).bind fun _ middle h => ?_
      obtain ⟨hreturn, hfirst⟩ := h
      refine (block_finds rest middle hdistinct.right (harity.grows hfirst.now.grows)).imp
        fun _ finish h => ?_
      obtain ⟨hreturn', hrest⟩ := h
      rw [hreturn] at hrest
      exact ⟨hreturn'.trans hreturn, (hfirst.append hdistinct hrest).imp
        fun notes ⟨hfirst, hrest⟩ => .cons hfirst hrest⟩

theorem cases_finds (subject : Ty) : ∀ (arms : List Case) (typing : Typing),
    Node.Distinct (Stmt.caseNodes arms) → ArityFits typing.scopes →
    Finds (cases subject arms) (Stmt.caseNodes arms) typing fun _ notes =>
      ∀ arm ∈ arms, Case.Typed notes typing.returnType typing.scopes subject arm
  | [], typing, _, _ => by
      simp only [cases, Stmt.caseNodes]
      exact ⟨⟨rfl, rfl⟩, .nothing fun _ => by simp⟩
  | .mk none body :: rest, typing, hdistinct, harity => by
      simp only [cases, armValue, pure_bind, Stmt.caseNodes, Expr.optionNodes, List.nil_append]
      rw [Stmt.caseNodes] at hdistinct
      refine (inBlock_finds (block_finds body _ hdistinct.left.right harity.enter)).bind
        fun _ m1 h1 => ?_
      obtain ⟨h1, hbody⟩ := h1
      refine (cases_finds subject rest m1 hdistinct.right (h1.scopes ▸ harity)).imp
        fun _ finish h2 => ?_
      obtain ⟨h2, hrest⟩ := h2
      rw [h1.scopes, h1.returnType] at hrest
      exact ⟨h1.trans h2, (hbody.append hdistinct hrest).imp fun notes ⟨⟨_, hbody⟩, hrest⟩ =>
        List.forall_mem_cons.mpr ⟨.default hbody, hrest⟩⟩
  | .mk (some value) body :: rest, typing, hdistinct, harity => by
      simp only [cases, Stmt.caseNodes, Expr.optionNodes]
      rw [Stmt.caseNodes] at hdistinct
      refine (armValue_finds subject value typing hdistinct.left.left harity).bind
        fun _ m1 h1 => ?_
      obtain ⟨h1, hvalue⟩ := h1
      refine (inBlock_finds (block_finds body _ hdistinct.left.right
        (h1.scopes ▸ harity).enter)).bind fun _ m2 h2 => ?_
      obtain ⟨h2, hbody⟩ := h2
      rw [h1.scopes, h1.returnType] at hbody
      refine (cases_finds subject rest m2 hdistinct.right ((h1.trans h2).scopes ▸ harity)).imp
        fun _ finish h3 => ?_
      obtain ⟨h3, hrest⟩ := h3
      rw [(h1.trans h2).scopes, (h1.trans h2).returnType] at hrest
      exact ⟨(h1.trans h2).trans h3, ((hvalue.append hdistinct.left hbody).append hdistinct
        hrest).imp fun notes ⟨⟨hvalue, _, hbody⟩, hrest⟩ =>
          List.forall_mem_cons.mpr ⟨.value hvalue hbody, hrest⟩⟩

end

/-! ## Programs -/

/-- The global frame is the only one, and its functions have as many parameters as their signatures
say. -/
structure AtTop (scopes : StaticScopes) : Prop where
  blocks : scopes.blocks = []
  callers : scopes.callers = []
  arity : ArityFits scopes

theorem AtTop.declareVariable {scopes scopes' : StaticScopes} {name : String}
    {info : VariableInfo} (h : AtTop scopes)
    (hdeclare : scopes.declareVariable name info = .ok scopes') : AtTop scopes' := by
  have harity := h.arity.grows (.declare .refl hdeclare)
  obtain ⟨_, rfl⟩ := Scopes.declareVariable_eq_ok.mp hdeclare
  exact ⟨by simp [Scopes.setCurrent, h.blocks], by simp [Scopes.setCurrent, h.blocks, h.callers],
    harity⟩

theorem AtTop.declareFunction {scopes scopes' : StaticScopes} {signature : Signature}
    {info : FunctionInfo} (h : AtTop scopes)
    (harity : info.parameterTypes.length = signature.arity)
    (hdeclare : scopes.declareFunction signature info = .ok scopes') : AtTop scopes' := by
  have hfits : ArityFits scopes' := by
    intro other found hfind
    rw [Scopes.findFunction?_declareFunction hdeclare] at hfind
    split at hfind
    next heq =>
      cases hfind
      exact heq ▸ harity
    next => exact h.arity other found hfind
  obtain ⟨_, rfl⟩ := Scopes.declareFunction_eq_ok.mp hdeclare
  exact ⟨by simp [Scopes.setCurrent, h.blocks], by simp [Scopes.setCurrent, h.blocks, h.callers],
    hfits⟩

theorem initialValue_finds (g : Global) (ty : Ty) (typing : Typing)
    (hdistinct : Node.Distinct (Expr.optionNodes g.initial)) (harity : ArityFits typing.scopes) :
    Finds (initialValue g ty) (Expr.optionNodes g.initial) typing fun _ notes =>
      Global.InitialTyped notes typing.scopes ty g.initial := by
  unfold initialValue
  split
  next id elements hinitial =>
    rw [hinitial, Expr.optionNodes, Expr.nodes] at hdistinct ⊢
    refine (held_finds (some ty) elements typing hdistinct.left harity).bind fun _ middle h => ?_
    obtain ⟨halike, hheld⟩ := h
    exact ⟨⟨halike.scopes, halike.returnType⟩, (hheld.typed hdistinct .any).imp
      fun notes ⟨hheld, htype⟩ => .list hheld htype⟩
  next initial hlist hinitial =>
    rw [hinitial, Expr.optionNodes] at hdistinct ⊢
    refine (expression_finds initial typing hdistinct harity).bind fun given middle h => ?_
    obtain ⟨halike, htyped⟩ := h
    refine (requireAssignable_gives ty given middle).imp fun _ finish h => ?_
    obtain ⟨haccepts, rfl⟩ := h
    have hscalar : initial.isList = false := by
      cases initial with
      | list id elements => exact absurd rfl (hlist id elements)
      | _ => rfl
    exact ⟨halike, htyped.imp fun notes htyped => .scalar hscalar htyped haccepts⟩
  next hinitial =>
    rw [hinitial, Expr.optionNodes]
    split
    · exact ⟨⟨rfl, rfl⟩, .nothing fun _ => .unset⟩
    · trivial

/-- What the check of an item of a program finds: a step between the scopes before and after. -/
abbrev ItemFinds (check : Check Unit) (nodes : List Node) (typing : Typing)
    (fact : Annotations → StaticScopes → Prop) : Prop :=
  Gives check typing fun _ finish => AtTop finish.scopes ∧
    Recorded nodes typing.annotations finish.annotations fun notes => fact notes finish.scopes

theorem global_finds (g : Global) (typing : Typing) (hdistinct : Node.Distinct g.nodes)
    (htop : AtTop typing.scopes) :
    ItemFinds (global g) g.nodes typing fun notes scopes => g.Typed notes typing.scopes scopes := by
  unfold global resolve
  refine (lift_gives _ typing).bind fun ty middle h => ?_
  obtain ⟨hty, rfl⟩ := h
  refine (initialValue_finds g ty middle hdistinct.left htop.arity).bind fun _ m1 h1 => ?_
  obtain ⟨h1, hinitial⟩ := h1
  refine (declared_gives g.name (.ofGlobal g ty) hdistinct h1 hinitial).imp fun _ finish h => ?_
  obtain ⟨_, hdeclare, hrecorded⟩ := h
  exact ⟨htop.declareVariable hdeclare, hrecorded.imp fun notes ⟨hinitial, hnote⟩ =>
    .mk hty hinitial hnote hdeclare⟩

theorem resolveAll_gives (names : List String) (typing : Typing) :
    Gives (resolveAll names) typing fun types finish =>
      List.Forall₂ (fun name ty => Ty.ofName name = .ok ty) names types ∧ finish = typing := by
  induction names with
  | nil => exact ⟨.nil, rfl⟩
  | cons name names ih =>
      refine (lift_gives _ typing).bind fun ty middle h => ?_
      obtain ⟨hty, rfl⟩ := h
      refine ih.bind fun types finish h => ?_
      obtain ⟨htypes, rfl⟩ := h
      exact ⟨.cons hty htypes, rfl⟩

theorem resolveReturn_gives (returnType : Option String) (typing : Typing) :
    Gives (resolveReturn returnType) typing fun ty finish =>
      Ty.ofReturn returnType = .ok ty ∧ finish = typing := by
  cases returnType with
  | some name => exact lift_gives _ typing
  | none => exact ⟨rfl, rfl⟩

theorem signature_finds (f : Function) (hlength : f.parameterNames.length = f.parameterTypes.length)
    (typing : Typing) (htop : AtTop typing.scopes) :
    ItemFinds (signature f) [.function f] typing fun notes scopes =>
      f.Declared notes typing.scopes scopes := by
  refine (resolveAll_gives f.parameterTypes typing).bind fun types m1 h1 => ?_
  obtain ⟨htypes, rfl⟩ := h1
  refine (resolveReturn_gives f.returnType m1).bind fun result m2 h2 => ?_
  obtain ⟨hresult, rfl⟩ := h2
  refine (declareFunction_gives ⟨f.name, f.arity⟩ ⟨types, result, .user f.id⟩ { m2 with
    annotations := m2.annotations.recordDeclaration f.id result }).imp fun _ finish h => ?_
  obtain ⟨scopes, hdeclare, rfl⟩ := h
  have harity : types.length = f.arity := htypes.length_eq.symm.trans hlength.symm
  have hrecorded : Recorded [] m2.annotations m2.annotations fun _ => True :=
    .nothing fun _ => trivial
  have hdistinct : Node.Distinct ([] ++ [.function f]) := by simp [Node.Distinct]
  have hdescribed : f.Described ⟨types, result, .user f.id⟩ := ⟨htypes, hresult, rfl⟩
  exact ⟨htop.declareFunction harity hdeclare, (hrecorded.declared hdistinct result).imp
    fun notes ⟨_, hnote⟩ => .mk hdescribed hnote hdeclare⟩

theorem parameters_gives (function index : Nat) (names typeNames : List String) (typing : Typing)
    (hlength : names.length = typeNames.length) :
    Gives (parameters function index names typeNames) typing fun _ finish =>
      finish.annotations = typing.annotations ∧
        ParametersDeclared function index names typeNames typing.scopes finish.scopes := by
  induction names generalizing index typeNames typing with
  | nil =>
      cases typeNames with
      | nil => exact ⟨rfl, .nil⟩
      | cons _ _ => cases hlength
  | cons name names ih =>
      cases typeNames with
      | nil => cases hlength
      | cons typeName typeNames =>
          refine (lift_gives _ typing).bind fun ty middle h => ?_
          obtain ⟨hty, rfl⟩ := h
          refine (declareVariable_gives name _ middle).bind fun _ m1 h1 => ?_
          obtain ⟨scopes, hdeclare, rfl⟩ := h1
          refine (ih (index + 1) typeNames { middle with scopes } (by simpa using hlength)).imp
            fun _ finish h => ?_
          exact ⟨h.1, .cons hty hdeclare h.2⟩

/-- The body of a function fits, and the scopes stay as they are. -/
def BodyTyped (notes : Annotations) (scopes : StaticScopes) (f : Function)
    (scopes' : StaticScopes) : Prop :=
  scopes' = scopes ∧ f.Typed notes scopes.globals

theorem body_finds (f : Function) (hlength : f.parameterNames.length = f.parameterTypes.length)
    (typing : Typing) (hdistinct : Node.Distinct (Stmt.blockNodes f.body))
    (htop : AtTop typing.scopes) :
    ItemFinds (body f) (Stmt.blockNodes f.body) typing fun notes scopes =>
      BodyTyped notes typing.scopes f scopes := by
  have hglobal : typing.scopes = ⟨[], [], typing.scopes.globals⟩ := by
    rw [← htop.blocks, ← htop.callers]
  apply within_gives
  refine (parameters_gives f.id 0 f.parameterNames f.parameterTypes
    { typing with scopes := typing.scopes.enterFunction } hlength).bind fun _ m1 h1 => ?_
  obtain ⟨hnotes, hparameters⟩ := h1
  refine (resolveReturn_gives f.returnType m1).bind fun result m2 h2 => ?_
  obtain ⟨hresult, rfl⟩ := h2
  have harity : ArityFits m2.scopes := by
    refine ArityFits.grows (fun signature info hfind => ?_) hparameters.grows
    have hfind : typing.scopes.findFunction? signature = some info := by
      rw [hglobal]
      exact hfind
    exact htop.arity signature info hfind
  refine (block_finds f.body { m2 with returnType := result } hdistinct harity).imp
    fun _ finish h => ?_
  obtain ⟨_, hblock⟩ := h
  have hleave : finish.scopes.leaveFunction = typing.scopes :=
    (hparameters.grows.trans hblock.now.grows).leaveFunction_eq
  rw [hglobal] at hparameters
  refine ⟨by rw [hleave]; exact htop, ?_⟩
  rw [← hnotes]
  exact hblock.imp fun notes hblock => ⟨hleave, .mk hresult hparameters hblock⟩

theorem bodies_typed {notes : Annotations} {scopes scopes' : StaticScopes}
    {functions : List Function} (h : Chain (BodyTyped notes) scopes functions scopes') :
    scopes' = scopes ∧ ∀ f ∈ functions, f.Typed notes scopes.globals := by
  induction h with
  | nil => exact ⟨rfl, by simp⟩
  | cons hfirst _ ih =>
      obtain ⟨rfl, htyped⟩ := hfirst
      exact ⟨ih.1, List.forall_mem_cons.mpr ⟨htyped, ih.2⟩⟩

/-- The same check of every item, from what it finds of one. -/
theorem each_finds {α : Type} {check : α → Check Unit} {nodes : α → List Node}
    {Step : Annotations → StaticScopes → α → StaticScopes → Prop} {items : List α}
    (hitem : ∀ item ∈ items, ∀ typing, Node.Distinct (nodes item) → AtTop typing.scopes →
      ItemFinds (check item) (nodes item) typing fun notes scopes =>
        Step notes typing.scopes item scopes)
    (typing : Typing) (hdistinct : Node.Distinct (items.flatMap nodes))
    (htop : AtTop typing.scopes) :
    ItemFinds (each check items) (items.flatMap nodes) typing fun notes scopes =>
      Chain (Step notes) typing.scopes items scopes := by
  induction items generalizing typing with
  | nil => exact ⟨htop, .nothing fun _ => .nil⟩
  | cons first rest ih =>
      rw [List.forall_mem_cons] at hitem
      rw [List.flatMap_cons] at hdistinct ⊢
      refine (hitem.1 typing hdistinct.left htop).bind fun _ middle h => ?_
      obtain ⟨hmiddle, hfirst⟩ := h
      refine (ih hitem.2 middle hdistinct.right hmiddle).imp fun _ finish h => ?_
      obtain ⟨hfinish, hrest⟩ := h
      exact ⟨hfinish, (hfirst.append hdistinct hrest).imp fun notes ⟨hfirst, hrest⟩ =>
        .cons hfirst hrest⟩

theorem hasMain_gives (typing : Typing) :
    Gives hasMain typing fun _ finish => finish = typing ∧
      ∃ info id, typing.scopes.findFunction? ⟨"main", 0⟩ = some info ∧ info.origin = .user id ∧
        info.returnType = .integer := by
  apply Ensures.get_bind
  split
  next parameterTypes result id hfind =>
    refine (requireAssignable_gives .integer result typing).imp fun _ finish h => ?_
    obtain ⟨haccepts, rfl⟩ := h
    exact ⟨rfl, _, id, hfind, rfl, Ty.eq_of_accepts haccepts (by decide) (by decide)⟩
  · trivial

end Check

/-- The nodes of a program in the order in which they are checked. -/
theorem Program.nodes_perm (p : Program) :
    p.nodes.Perm (p.globals.flatMap Global.nodes ++ (p.functions.flatMap (fun f => [.function f]) ++
      p.functions.flatMap fun f => Stmt.blockNodes f.body)) := by
  refine List.Perm.append_left _ ?_
  induction p.functions with
  | nil => exact .nil
  | cons f rest ih =>
      have hself : (Stmt.blockNodes f.body ++ [Node.function f]).Perm
          ([.function f] ++ Stmt.blockNodes f.body) := List.perm_append_comm
      refine (hself.append ih).trans ?_
      simp only [List.flatMap_cons, List.append_assoc]
      exact (List.perm_append_comm_assoc _ _ _).append_left [Node.function f]

/-- A check of a program that goes through gives derivations of all its parts. -/
theorem Check.program_gives (p : Program) (scopes : StaticScopes) (htop : Check.AtTop scopes)
    (hdistinct : Node.Distinct p.nodes)
    (hlength : ∀ f ∈ p.functions, f.parameterNames.length = f.parameterTypes.length) :
    Gives (Check.program p) (Typing.start scopes) fun _ finish =>
      ∃ middle, p.Typed finish.annotations scopes middle finish.scopes := by
  have hdistinct := hdistinct.perm p.nodes_perm
  refine (each_finds (fun g _ => global_finds g) (.start scopes) hdistinct.left htop).bind
    fun _ m1 h1 => ?_
  obtain ⟨htop1, hglobals⟩ := h1
  refine (each_finds (fun f hf typing _ => signature_finds f (hlength f hf) typing) m1
    hdistinct.right.left htop1).bind fun _ m2 h2 => ?_
  obtain ⟨htop2, hfunctions⟩ := h2
  refine (hasMain_gives m2).bind fun _ m3 h3 => ?_
  obtain ⟨rfl, hmain⟩ := h3
  refine (each_finds (fun f hf => body_finds f (hlength f hf)) m3 hdistinct.right.right
    htop2).imp fun _ finish h4 => ?_
  obtain ⟨_, hbodies⟩ := h4
  obtain ⟨hglobals, hfunctions, hbodies⟩ :=
    (hglobals.append hdistinct (hfunctions.append hdistinct.right hbodies)).now
  obtain ⟨hscopes, hbodies⟩ := bodies_typed hbodies
  exact ⟨m1.scopes, hglobals, hscopes ▸ hfunctions, hscopes ▸ hmain, hscopes ▸ hbodies⟩

end Scriptlet
