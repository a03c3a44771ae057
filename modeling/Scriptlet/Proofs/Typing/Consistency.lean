import Scriptlet.Proofs.Eval.Checked
import Scriptlet.Proofs.Eval.TypedValues
import Scriptlet.Proofs.Typing.LocalRules
import Scriptlet.Proofs.Typing.Widening

/-! # Annotations as a derivation

The annotations of a checked program follow the rules at every node, and there are annotations of
the nodes of the program only, each of the kind that its node carries.
-/

namespace Scriptlet

variable {σ : Type}

/-! ## Constants and operations -/

theorem Literal.type_eq_kind {value : Literal} {ty : Ty} (h : value.type = .ok ty) :
    ty = value.kind := by
  unfold type at h
  cases value with
  | integer n =>
      simp only at h
      split at h
      · exact (Except.ok.inj h).symm
      · cases h
  | decimal d =>
      simp only at h
      split at h
      · cases h
      · exact (Except.ok.inj h).symm
  | _ => exact (Except.ok.inj h).symm

theorem Operator.yields_of_resultType {operator : Operator} {left right ty : Ty}
    (h : operator.resultType left right = .ok ty) : operator.Yields left right ty := by
  cases operator with
  | and | or =>
      obtain ⟨rfl, rfl, rfl⟩ := Operator.resultType_of_deciding rfl h
      exact .logical (by decide)
  | less | greater =>
      obtain ⟨rfl, hkind, rfl⟩ := Ty.of_requireSame h
      exact .ordered (by decide) hkind
  | equal | notEqual =>
      obtain ⟨rfl, hkind, rfl⟩ := Ty.of_requireSame h
      simp only [Bool.or_eq_true, decide_eq_true_eq] at hkind
      exact .compared (by decide) hkind
  | add =>
      unfold resultType at h
      simp only at h
      split at h
      next hstring =>
        cases h
        simp only [Bool.or_eq_true, decide_eq_true_eq] at hstring
        exact .joined hstring
      next =>
        obtain ⟨rfl, hkind, rfl⟩ := Ty.of_requireSame h
        exact .arithmetic (by decide) hkind
  | subtract | multiply | divide =>
      obtain ⟨rfl, hkind, rfl⟩ := Ty.of_requireSame h
      exact .arithmetic (by decide) hkind
  | power =>
      obtain ⟨hleft, h⟩ := Ty.of_requireAssignable h
      obtain ⟨hright, h⟩ := Ty.of_requireAssignable h
      cases Ty.eq_of_accepts hleft (by decide) (by decide)
      cases Ty.eq_of_accepts hright (by decide) (by decide)
      cases h
      exact .power

/-! ## Names -/

/-- What is known of the names that can be seen is what their declarations say. -/
structure Scopes.Grounded (p : Program) (builtins : List (Builtin σ)) (notes : Annotations)
    (scopes : StaticScopes) : Prop where
  ofVariable : ∀ name info, scopes.findVariable? name = some info →
    info.origin.Declares p notes name info.isList info.ty
  ofFunction : ∀ signature info, scopes.findFunction? signature = some info →
    info.origin.Declares p builtins notes signature info.parameterTypes info.returnType

namespace Scopes.Grounded

variable {p : Program} {builtins : List (Builtin σ)} {notes : Annotations}
variable {scopes scopes' : StaticScopes}

theorem enter (h : Grounded p builtins notes scopes) : Grounded p builtins notes scopes.enter where
  ofVariable name info hfind := h.ofVariable name info (by rwa [findVariable?_enter] at hfind)
  ofFunction signature info hfind := h.ofFunction signature info hfind

theorem declareVariable (h : Grounded p builtins notes scopes) {name : String}
    {info : VariableInfo} (hdeclare : scopes.declareVariable name info = .ok scopes')
    (hinfo : info.origin.Declares p notes name info.isList info.ty) :
    Grounded p builtins notes scopes' where
  ofVariable other found hfind := by
    rw [findVariable?_declareVariable hdeclare] at hfind
    by_cases hother : name = other
    · rw [if_pos hother] at hfind
      cases hfind
      exact hother ▸ hinfo
    · rw [if_neg hother] at hfind
      exact h.ofVariable other found hfind
  ofFunction signature found hfind := by
    have hgrows : scopes.Grows scopes' := .declare .refl hdeclare
    rw [hgrows.findFunction?_eq] at hfind
    exact h.ofFunction signature found hfind

theorem declareFunction (h : Grounded p builtins notes scopes) {signature : Signature}
    {info : FunctionInfo} (hdeclare : scopes.declareFunction signature info = .ok scopes')
    (hinfo : info.origin.Declares p builtins notes signature info.parameterTypes info.returnType) :
    Grounded p builtins notes scopes' where
  ofVariable name found hfind := by
    rw [findVariable?_declareFunction hdeclare] at hfind
    exact h.ofVariable name found hfind
  ofFunction other found hfind := by
    rw [findFunction?_declareFunction hdeclare] at hfind
    by_cases hother : signature = other
    · rw [if_pos hother] at hfind
      cases hfind
      exact hother ▸ hinfo
    · rw [if_neg hother] at hfind
      exact h.ofFunction other found hfind

/-- The functions of the host are known before a program is checked, and nothing else. -/
theorem of_staticScopes (h : Builtin.staticScopes builtins = .ok scopes) :
    Grounded p builtins notes scopes := by
  have hempty : Grounded p builtins notes Scopes.empty := by
    constructor
    · intro name info hfind
      cases hfind
    · intro signature info hfind
      cases hfind
  apply ((foldlM_eq_ok.mp h).preserves hempty _).1
  intro before after builtin hmem hbefore hdeclare
  exact hbefore.declareFunction hdeclare (.builtin hmem)

/-- In a new activation the parameters are seen before the globals. -/
theorem parameters {f : Function} (hf : f ∈ p.functions) {index : Nat}
    {names typeNames : List String} (h : Grounded p builtins notes scopes)
    (hparameters : ParametersDeclared f.id index names typeNames scopes scopes')
    (hnames : f.parameterNames.drop index = names)
    (htypes : f.parameterTypes.drop index = typeNames) : Grounded p builtins notes scopes' := by
  induction hparameters with
  | nil => exact h
  | @cons index name typeName names typeNames ty scopes middle scopes' hty hdeclare _ ih =>
      have hname : f.parameterNames[index]? = some name := by
        rw [← List.head?_drop, hnames]
        rfl
      have htypeName : f.parameterTypes[index]? = some typeName := by
        rw [← List.head?_drop, htypes]
        rfl
      apply ih (h.declareVariable hdeclare (.parameter hf hname htypeName hty))
      · rw [← List.tail_drop, hnames]
        rfl
      · rw [← List.tail_drop, htypes]
        rfl

end Scopes.Grounded

/-! ## Expressions -/

section

variable {p : Program} {builtins : List (Builtin σ)} {notes : Annotations}
variable {scopes : StaticScopes}

theorem Expr.Typed.fits {e : Expr} {ty target : Ty} (h : e.Typed notes scopes ty)
    (haccepts : target.accepts ty = true) : notes.Fits target e :=
  ⟨ty, h.typeOf?, haccepts⟩

theorem Expr.Passed.fits {arguments : List Expr} {types : List Ty}
    (h : Expr.Passed notes scopes arguments types) : List.Forall₂ notes.Fits types arguments := by
  induction arguments generalizing types with
  | nil =>
      cases h
      exact .nil
  | cons first rest ih =>
      cases h with
      | cons hfirst haccepts hrest => exact .cons (hfirst.fits haccepts) (ih hrest)

mutual

theorem Expr.Typed.consistent (hground : scopes.Grounded p builtins notes) :
    ∀ (e : Expr) {ty : Ty}, e.Typed notes scopes ty →
      ∀ node ∈ e.nodes, node.Consistent p builtins notes
  | .literal id value, ty, h => by
      rw [Expr.nodes, List.forall_mem_singleton]
      cases h with
      | literal hvalue hnote =>
          cases Literal.type_eq_kind hvalue
          exact ⟨_, hnote, .literal⟩
  | .group id inner, ty, h => by
      rw [Expr.nodes, List.forall_mem_append, List.forall_mem_singleton]
      cases h with
      | group hinner hnote =>
          exact ⟨Expr.Typed.consistent hground inner hinner, _, hnote, .group hinner.typeOf?⟩
  | .binary id operator left right, ty, h => by
      rw [Expr.nodes, List.forall_mem_append, List.forall_mem_append, List.forall_mem_singleton]
      cases h with
      | binary hleft hright hresult hnote =>
          have hyields := Operator.yields_of_resultType hresult
          exact ⟨⟨Expr.Typed.consistent hground left hleft,
            Expr.Typed.consistent hground right hright⟩,
            _, hnote, .binary hleft.typeOf? hright.typeOf? hyields⟩
  | .access id name, ty, h => by
      rw [Expr.nodes, List.forall_mem_singleton]
      cases h with
      | @access _ _ info hfind horigin hnote =>
          have hdeclares := hground.ofVariable name info hfind
          refine ⟨_, hnote, ?_⟩
          unfold VariableInfo.bareType
          cases hlist : info.isList with
          | true =>
              rw [hlist] at hdeclares
              exact .whole horigin hdeclares
          | false =>
              rw [hlist] at hdeclares
              exact .scalar horigin hdeclares
  | .element id name index, ty, h => by
      rw [Expr.nodes, List.forall_mem_append, List.forall_mem_singleton]
      cases h with
      | @element _ _ _ info hfind hindex hkind horigin hnote =>
          have hdeclares := hground.ofVariable name info hfind
          refine ⟨Expr.Typed.consistent hground index hindex, _, hnote, ?_⟩
          cases hlist : info.isList with
          | true =>
              rw [hlist] at hdeclares
              exact .element hindex.typeOf? horigin hdeclares
          | false =>
              rw [hlist] at hdeclares hkind
              have hany := hkind.resolve_left (by decide)
              rw [hany] at hdeclares ⊢
              exact .unknown hindex.typeOf? horigin hdeclares
  | .call id name arguments, ty, h => by
      rw [Expr.nodes, List.forall_mem_append, List.forall_mem_singleton]
      cases h with
      | @call _ _ _ info hfind hpassed horigin hnote =>
          have hdeclares := hground.ofFunction _ info hfind
          exact ⟨Expr.Passed.consistent hground arguments hpassed,
            _, hnote, .call horigin hdeclares hpassed.fits⟩
  | .list id elements, ty, h => by
      rw [Expr.nodes, List.forall_mem_append, List.forall_mem_singleton]
      cases h with
      | list hpassed hnote =>
          exact ⟨Expr.Passed.consistent hground elements hpassed, _, hnote, .list⟩

theorem Expr.Passed.consistent (hground : scopes.Grounded p builtins notes) :
    ∀ (arguments : List Expr) {types : List Ty}, Expr.Passed notes scopes arguments types →
      ∀ node ∈ Expr.listNodes arguments, node.Consistent p builtins notes
  | [], types, h => by simp [Expr.listNodes]
  | first :: rest, types, h => by
      rw [Expr.listNodes, List.forall_mem_append]
      cases h with
      | cons hfirst _ hrest =>
          exact ⟨Expr.Typed.consistent hground first hfirst,
            Expr.Passed.consistent hground rest hrest⟩

end

/-! ## Statements -/

/-- A local declaration suits its type, and its variable is grounded in it. -/
theorem Stmt.declaration_consistent {result : Ty} {scopes' : StaticScopes} {id : NodeId}
    {name : String} {typeName : Option String} {initial : Option Expr}
    (h : Stmt.Typed notes result scopes (.declaration id name typeName initial) scopes')
    (hground : scopes.Grounded p builtins notes)
    (hnodes : Stmt.nodes (.declaration id name typeName initial) ⊆ p.nodes) :
    (∀ node ∈ Stmt.nodes (.declaration id name typeName initial),
      node.Consistent p builtins notes) ∧ scopes'.Grounded p builtins notes := by
  rw [Stmt.nodes, List.append_subset] at hnodes
  rw [Stmt.nodes, List.forall_mem_append, List.forall_mem_singleton]
  have hnode : Node.declaration id name typeName initial ∈ p.nodes := hnodes.2 List.mem_cons_self
  cases h with
  | typed hname hinitial haccepts hnote hdeclare =>
      refine ⟨⟨Expr.Typed.consistent hground _ hinitial, _, hnote, hname, ?_⟩,
        hground.declareVariable hdeclare (.declaration hnode hnote)⟩
      intro e he
      cases he
      exact hinitial.fits haccepts
  | unset hname hnote hdeclare =>
      refine ⟨⟨by simp [Expr.optionNodes], _, hnote, hname, ?_⟩,
        hground.declareVariable hdeclare (.declaration hnode hnote)⟩
      intro e he
      cases he
  | inferred hinitial hnote hdeclare =>
      exact ⟨⟨Expr.Typed.consistent hground _ hinitial, _, hnote, _, rfl, hinitial.typeOf?⟩,
        hground.declareVariable hdeclare (.declaration hnode hnote)⟩

mutual

theorem Stmt.Typed.consistent {result : Ty} :
    ∀ (s : Stmt) {scopes scopes' : StaticScopes}, Stmt.Typed notes result scopes s scopes' →
      scopes.Grounded p builtins notes → s.nodes ⊆ p.nodes →
      s.Consistent notes result ∧ (∀ node ∈ s.nodes, node.Consistent p builtins notes) ∧
        scopes'.Grounded p builtins notes
  | .expression value, _, _, h, hground, _ => by
      rw [Stmt.nodes]
      cases h with
      | expression hvalue =>
          exact ⟨.expression, Expr.Typed.consistent hground value hvalue, hground⟩
  | .declaration id name typeName initial, _, _, h, hground, hnodes =>
      ⟨.declaration, Stmt.declaration_consistent h hground hnodes⟩
  | .assignment receiver value, _, _, h, hground, _ => by
      rw [Stmt.nodes, List.forall_mem_append]
      cases h with
      | assignment hplace hreceiver hvalue haccepts =>
          exact ⟨.assignment hplace hreceiver.typeOf? (hvalue.fits haccepts),
            ⟨Expr.Typed.consistent hground receiver hreceiver,
              Expr.Typed.consistent hground value hvalue⟩, hground⟩
  | .branch test thenBlock elseBlock, _, _, h, hground, hnodes => by
      rw [Stmt.nodes, List.append_subset, List.append_subset] at hnodes
      rw [Stmt.nodes, List.forall_mem_append, List.forall_mem_append]
      cases h with
      | branch htest hthen helse =>
          obtain ⟨hthen, hthenNodes⟩ :=
            Stmt.BlockTyped.consistent thenBlock hthen hground.enter hnodes.1.2
          obtain ⟨helse, helseNodes⟩ :=
            Stmt.BlockTyped.consistent elseBlock helse hground.enter hnodes.2
          exact ⟨.branch htest.typeOf? hthen helse,
            ⟨⟨Expr.Typed.consistent hground test htest, hthenNodes⟩, helseNodes⟩, hground⟩
  | .switch subject arms, _, _, h, hground, hnodes => by
      rw [Stmt.nodes, List.append_subset] at hnodes
      rw [Stmt.nodes, List.forall_mem_append]
      cases h with
      | switch hsubject harms =>
          obtain ⟨hvalues, hbodies, hcaseNodes⟩ :=
            Case.Typed.consistent arms harms hground hnodes.2
          exact ⟨.switch hsubject.typeOf? hvalues hbodies,
            ⟨Expr.Typed.consistent hground subject hsubject, hcaseNodes⟩, hground⟩
  | .loop test body, _, _, h, hground, hnodes => by
      rw [Stmt.nodes, List.append_subset] at hnodes
      rw [Stmt.nodes, List.forall_mem_append]
      cases h with
      | loop htest hbody =>
          obtain ⟨hbody, hbodyNodes⟩ :=
            Stmt.BlockTyped.consistent body hbody hground.enter hnodes.2
          exact ⟨.loop htest.typeOf? hbody,
            ⟨Expr.Typed.consistent hground test htest, hbodyNodes⟩, hground⟩
  | .ret value, _, _, h, hground, _ => by
      rw [Stmt.nodes]
      cases h with
      | ret hvalue haccepts =>
          exact ⟨.ret (hvalue.fits haccepts), Expr.Typed.consistent hground value hvalue, hground⟩

theorem Stmt.BlockTyped.consistent {result : Ty} :
    ∀ (statements : List Stmt) {scopes scopes' : StaticScopes},
      Stmt.BlockTyped notes result scopes statements scopes' →
      scopes.Grounded p builtins notes → Stmt.blockNodes statements ⊆ p.nodes →
      (∀ s ∈ statements, s.Consistent notes result) ∧
        ∀ node ∈ Stmt.blockNodes statements, node.Consistent p builtins notes
  | [], _, _, _, _, _ => by simp [Stmt.blockNodes]
  | first :: rest, _, _, h, hground, hnodes => by
      rw [Stmt.blockNodes, List.append_subset] at hnodes
      rw [Stmt.blockNodes, List.forall_mem_append, List.forall_mem_cons]
      cases h with
      | cons hfirst hrest =>
          obtain ⟨hfirst, hfirstNodes, hground⟩ :=
            Stmt.Typed.consistent first hfirst hground hnodes.1
          obtain ⟨hrest, hrestNodes⟩ :=
            Stmt.BlockTyped.consistent rest hrest hground hnodes.2
          exact ⟨⟨hfirst, hrest⟩, hfirstNodes, hrestNodes⟩

theorem Case.Typed.consistent {result ty : Ty} :
    ∀ (arms : List Case) {scopes : StaticScopes},
      (∀ arm ∈ arms, Case.Typed notes result scopes ty arm) →
      scopes.Grounded p builtins notes → Stmt.caseNodes arms ⊆ p.nodes →
      (∀ arm ∈ arms, ∀ value, arm.value = some value → notes.typeOf? value.id = some ty) ∧
        (∀ arm ∈ arms, ∀ s ∈ arm.body, s.Consistent notes result) ∧
        ∀ node ∈ Stmt.caseNodes arms, node.Consistent p builtins notes
  | [], _, _, _, _ => by simp [Stmt.caseNodes]
  | .mk value body :: rest, scopes, h, hground, hnodes => by
      rw [Stmt.caseNodes, List.append_subset, List.append_subset] at hnodes
      rw [Stmt.caseNodes, List.forall_mem_append, List.forall_mem_append, List.forall_mem_cons,
        List.forall_mem_cons]
      obtain ⟨harm, hrest⟩ := List.forall_mem_cons.mp h
      obtain ⟨hvalues, hbodies, hrestNodes⟩ := Case.Typed.consistent rest hrest hground hnodes.2
      cases harm with
      | value hvalue hbody =>
          obtain ⟨hbody, hbodyNodes⟩ :=
            Stmt.BlockTyped.consistent body hbody hground.enter hnodes.1.2
          refine ⟨⟨?_, hvalues⟩, ⟨hbody, hbodies⟩,
            ⟨Expr.Typed.consistent hground _ hvalue, hbodyNodes⟩, hrestNodes⟩
          intro e he
          cases he
          exact hvalue.typeOf?
      | default hbody =>
          obtain ⟨hbody, hbodyNodes⟩ :=
            Stmt.BlockTyped.consistent body hbody hground.enter hnodes.1.2
          refine ⟨⟨?_, hvalues⟩, ⟨hbody, hbodies⟩,
            ⟨by simp [Expr.optionNodes], hbodyNodes⟩, hrestNodes⟩
          intro e he
          cases he

end

/-! ## Programs -/

theorem Global.InitialTyped.suits {ty : Ty} {initial : Option Expr}
    (h : Global.InitialTyped notes scopes ty initial) : notes.SuitsGlobal ty initial := by
  cases h with
  | unset => trivial
  | list hpassed _ =>
      have hfits := hpassed.fits
      rw [List.forall₂_map_left_iff] at hfits
      exact List.forall₂_same.mp hfits
  | @scalar initial given hscalar htyped haccepts =>
      cases initial with
      | list id elements => cases hscalar
      | _ => exact htyped.fits haccepts

theorem Global.Typed.consistent {g : Global} {scopes' : StaticScopes} (hg : g ∈ p.globals)
    (h : g.Typed notes scopes scopes') (hground : scopes.Grounded p builtins notes) :
    (∀ node ∈ g.nodes, node.Consistent p builtins notes) ∧ scopes'.Grounded p builtins notes := by
  cases h with
  | mk hname hinitial hnote hdeclare =>
      rw [Global.nodes, List.forall_mem_append, List.forall_mem_singleton]
      refine ⟨⟨?_, _, hnote, hname, hinitial.suits⟩,
        hground.declareVariable hdeclare (.global hg hnote)⟩
      cases hvalue : g.initial with
      | none => simp [Expr.optionNodes]
      | some e =>
          rw [hvalue] at hinitial
          obtain ⟨given, htyped⟩ := hinitial.typed
          exact Expr.Typed.consistent hground e htyped

theorem Function.Declared.grounded {f : Function} {scopes' : StaticScopes} (hf : f ∈ p.functions)
    (h : f.Declared notes scopes scopes') (hground : scopes.Grounded p builtins notes) :
    scopes'.Grounded p builtins notes := by
  cases h with
  | @mk _ _ info hdescribed hnote hdeclare =>
      obtain ⟨types, ty, origin⟩ := info
      obtain ⟨hparameters, _, rfl⟩ := hdescribed
      exact hground.declareFunction hdeclare (.user hf hparameters hnote)

theorem Function.Typed.consistent {f : Function} (hf : f ∈ p.functions)
    {globals : Frame VariableInfo FunctionInfo} (h : f.Typed notes globals)
    (hground : Scopes.Grounded p builtins notes ⟨[], [], globals⟩) {ty : Ty}
    (hreturn : Ty.ofReturn f.returnType = .ok ty) (hnote : notes.declaredTypeOf? f.id = some ty) :
    ∀ node ∈ f.nodes, node.Consistent p builtins notes := by
  rw [Function.nodes, List.forall_mem_append, List.forall_mem_singleton]
  cases h with
  | mk hresult hparameters hbody =>
      cases hresult.symm.trans hreturn
      have hinside : Scopes.Grounded p builtins notes (Scopes.enterFunction ⟨[], [], globals⟩) :=
        ⟨hground.enter.ofVariable, hground.enter.ofFunction⟩
      obtain ⟨hrules, hnodes⟩ := Stmt.BlockTyped.consistent f.body hbody
        (hinside.parameters hf hparameters rfl rfl)
        fun _ hnode => Program.mem_nodes_of_function hf (List.mem_append_left _ hnode)
      exact ⟨hnodes, _, hnote, hreturn, hrules⟩

/-- Only the global frame is there after the declarations of a program. -/
theorem Program.Typed.atTop {start middle finish : StaticScopes}
    (h : p.Typed notes start middle finish) (htop : Check.AtTop start)
    (hlength : ∀ f ∈ p.functions, f.parameterNames.length = f.parameterTypes.length) :
    Check.AtTop finish := by
  have hmiddle : Check.AtTop middle := by
    apply (h.globals.preserves htop _).1
    intro before after g _ hbefore hstep
    cases hstep with
    | mk _ _ _ hdeclare => exact hbefore.declareVariable hdeclare
  apply (h.functions.preserves hmiddle _).1
  intro before after f hf hbefore hstep
  cases hstep with
  | mk hdescribed _ hdeclare =>
      have harity := hdescribed.parameters.length_eq.symm.trans (hlength f hf).symm
      exact hbefore.declareFunction harity hdeclare

/-- All nodes of a typed program are consistent. -/
theorem Program.Typed.consistent {start middle finish : StaticScopes}
    (h : p.Typed notes start middle finish) (hground : start.Grounded p builtins notes)
    (htop : Check.AtTop finish) : ∀ node ∈ p.nodes, node.Consistent p builtins notes := by
  obtain ⟨hmiddle, hglobals⟩ := h.globals.preserves hground fun g hg hbefore hstep =>
    (hstep.consistent hg hbefore).2
  obtain ⟨hfinish, hfunctions⟩ := h.functions.preserves hmiddle fun f hf hbefore hstep =>
    hstep.grounded hf hbefore
  have hglobal : finish = ⟨[], [], finish.globals⟩ := by rw [← htop.blocks, ← htop.callers]
  rw [hglobal] at hfinish
  rw [Program.nodes, List.forall_mem_append, List.forall_mem_flatMap, List.forall_mem_flatMap]
  constructor
  · intro g hg
    obtain ⟨before, after, hbefore, htyped⟩ := hglobals g hg
    exact (htyped.consistent hg hbefore).1
  · intro f hf
    obtain ⟨before, after, hbefore, hdeclared⟩ := hfunctions f hf
    cases hdeclared with
    | mk hdescribed hnote _ =>
        exact (h.bodies f hf).consistent hf hfinish hdescribed.result hnote

/-! ## Records -/

/-- Records are made for the nodes of a program only. -/
theorem Program.recordsOf_of_check (h : p.check builtins = .ok notes) :
    notes.RecordsOf p.nodes := by
  obtain ⟨start, finish, hstart, hok, rfl⟩ := Program.check_eq_ok.mp h
  have htop : (Typing.start start).scopes.blocks = [] :=
    (Builtin.atTop_of_staticScopes hstart).blocks
  have hfollows : Check.Follows p.nodes false (Check.program p) (.start start) (.start start) :=
    Check.program_follows htop (fun _ _ => rfl) ⟨.refl start, fun _ => rfl⟩
  obtain ⟨_, _, _, batch, hbatch, hnotes, _⟩ := hfollows.of_ok hok
  rw [hnotes]
  exact hbatch.append .empty

/-- What a consistent node carries is recorded for it. -/
theorem Node.Consistent.has {node : Node} {note : Note} (h : node.Consistent p builtins notes)
    (hcarries : node.carries note = true) : notes.has node.id note = true := by
  cases node with
  | expression e =>
      obtain ⟨ty, hnote, hrule⟩ := h
      cases note with
      | type => exact Option.isSome_of_eq_some hnote
      | declaredType => cases hcarries
      | variableOrigin =>
          cases hrule with
          | scalar horigin _ => exact Option.isSome_of_eq_some horigin
          | whole horigin _ => exact Option.isSome_of_eq_some horigin
          | element _ horigin _ => exact Option.isSome_of_eq_some horigin
          | unknown _ horigin _ => exact Option.isSome_of_eq_some horigin
          | _ => cases hcarries
      | functionOrigin =>
          cases hrule with
          | call horigin _ _ => exact Option.isSome_of_eq_some horigin
          | _ => cases hcarries
  | declaration id name typeName initial =>
      obtain ⟨ty, hnote, _⟩ := h
      cases (of_decide_eq_true hcarries : note = .declaredType)
      exact Option.isSome_of_eq_some hnote
  | global g =>
      obtain ⟨ty, hnote, _⟩ := h
      cases (of_decide_eq_true hcarries : note = .declaredType)
      exact Option.isSome_of_eq_some hnote
  | function f =>
      obtain ⟨ty, hnote, _⟩ := h
      cases (of_decide_eq_true hcarries : note = .declaredType)
      exact Option.isSome_of_eq_some hnote

/-- Only a declaration carries a declared type, and it carries nothing else. -/
theorem Node.exists_carries_iff {nodes : List Node} {id : NodeId} {note : Note}
    (hnote : note ≠ .declaredType) :
    (∃ node ∈ nodes, node.id = id ∧ node.carries note = true) ↔
      ∃ e, .expression e ∈ nodes ∧ (Node.expression e).carries note = true ∧ e.id = id := by
  constructor
  · intro h
    obtain ⟨node, hnode, hid, hcarries⟩ := h
    cases node with
    | expression e => exact ⟨e, hnode, hcarries, hid⟩
    | _ => exact absurd (of_decide_eq_true hcarries) hnote
  · intro h
    obtain ⟨e, hnode, hcarries, hid⟩ := h
    exact ⟨.expression e, hnode, hid, hcarries⟩

theorem Annotations.complete_of_consistent (hrecords : notes.RecordsOf p.nodes)
    (hconsistent : ∀ node ∈ p.nodes, node.Consistent p builtins notes) : notes.Complete p := by
  have hhas (id : NodeId) (note : Note) : notes.has id note = true ↔
      ∃ node ∈ p.nodes, node.id = id ∧ node.carries note = true := by
    constructor
    · exact hrecords id note
    · intro h
      obtain ⟨node, hnode, rfl, hcarries⟩ := h
      exact (hconsistent node hnode).has hcarries
  constructor
  · intro id
    have htype := (hhas id .type).trans (Node.exists_carries_iff (by decide))
    simpa [Node.carries, Annotations.has] using htype
  · intro id
    apply (hhas id .declaredType).trans
    constructor
    · intro h
      obtain ⟨node, hnode, rfl, hcarries⟩ := h
      cases node with
      | expression e => cases hcarries
      | declaration id name typeName initial =>
          exact .inr (.inr ⟨name, typeName, initial, hnode⟩)
      | global g => exact .inl ⟨g, Program.mem_globals_of_mem_nodes hnode, rfl⟩
      | function f => exact .inr (.inl ⟨f, Program.mem_functions_of_mem_nodes hnode, rfl⟩)
    · intro h
      obtain ⟨g, hg, rfl⟩ | ⟨f, hf, rfl⟩ | ⟨name, typeName, initial, hnode⟩ := h
      · exact ⟨.global g, Program.mem_nodes_of_global hg (by simp [Global.nodes]), rfl, rfl⟩
      · exact ⟨.function f, Program.mem_nodes_of_function hf (by simp [Function.nodes]), rfl, rfl⟩
      · exact ⟨_, hnode, rfl, rfl⟩
  · intro id
    exact (hhas id .variableOrigin).trans (Node.exists_carries_iff (by decide))
  · intro id
    exact (hhas id .functionOrigin).trans (Node.exists_carries_iff (by decide))

end

/-- The annotations of a checked program are a typing derivation that can be read off them alone.
There are annotations of the nodes of the program and of nothing else, each of the kind that its
node carries. And at every node they say what the rule of the node asks for. -/
theorem Annotations.derivation_of_check {text : String} {builtins : List (Builtin σ)}
    {p : Program} {notes : Annotations} (h : check text builtins = .ok (p, notes)) :
    notes.Complete p ∧ ∀ node ∈ p.nodes, node.Consistent p builtins notes := by
  have hchecked := checked_of_check h
  obtain ⟨start, middle, finish, hstart, htyped⟩ :=
    Program.typed_of_check hchecked.checked hchecked.distinct hchecked.parameters
  have htop := htyped.atTop (Builtin.atTop_of_staticScopes hstart) hchecked.parameters
  have hconsistent := htyped.consistent (Scopes.Grounded.of_staticScopes hstart) htop
  have hrecords := Program.recordsOf_of_check hchecked.checked
  exact ⟨Annotations.complete_of_consistent hrecords hconsistent, hconsistent⟩

/-- A program with a loop and a switch, in which a list is passed whole and indexed, and a value
that can be anything is indexed as well. -/
theorem Annotations.derivation_of_check_lists :
    ∃ (text : String) (p : Program) (notes : Annotations),
      let builtins := [Builtin.print fun line lines => lines ++ [line]]
      check text builtins = .ok (p, notes) ∧ p.nodes.length = 29 ∧ notes.Complete p ∧
        ∀ node ∈ p.nodes, node.Consistent p builtins notes := by
  let text := "LIST xs: Integer = [4, 5];
    FUN f(a: Any): Any DO SWITCH xs[0] CASE 4: RETURN a[1]; DEFAULT RETURN xs; END END
    FUN main(): Integer DO
      LET n = 2; WHILE n < xs[1] DO n = (n + 1) * 2; END print(f(xs)); RETURN n;
    END"
  let builtins : List (Builtin (List String)) := [.print fun line lines => lines ++ [line]]
  have hlength : (check text builtins).toOption.map (·.1.nodes.length) = some 29 := by
    decide +kernel
  cases h : check text builtins with
  | error error =>
      rw [h] at hlength
      cases hlength
  | ok result =>
      rw [h] at hlength
      obtain ⟨hcomplete, hconsistent⟩ := Annotations.derivation_of_check h
      exact ⟨text, result.1, result.2, h, Option.some.inj hlength, hcomplete, hconsistent⟩

end Scriptlet
