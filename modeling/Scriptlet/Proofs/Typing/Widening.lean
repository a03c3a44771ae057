import Scriptlet.Proofs.Typing.Composed
import Scriptlet.Proofs.Typing.Outline
import Scriptlet.Proofs.Typing.ProgramSoundness

/-! # Checks where more functions are known

A check that goes through goes through wherever more functions are known, with the same result and
the same records, whatever has been recorded before. In particular what one check records does not
matter to the next.
-/

namespace Scriptlet

/-- Two states of a check, of which the second may know more functions. The records of the two have
nothing to do with each other, and nor have the types that returns must fit, unless the check
`returns`. -/
structure Typing.Widened (returns : Bool) (narrow wide : Typing) : Prop where
  scopes : narrow.scopes.Widened wide.scopes
  returnType : returns = true → wide.returnType = narrow.returnType

/-- What a call of the function names. -/
abbrev Function.signature (f : Function) : Signature :=
  ⟨f.name, f.arity⟩

/-- The record of the type of what a function returns. -/
def Function.record (f : Function) (ty : Ty) : Annotations :=
  ⟨[], [(f.id, ty)], [], []⟩

/-- The state after the types of a function of the program have been found. -/
def Typing.withFunction (typing : Typing) (f : Function) (info : FunctionInfo) : Typing where
  scopes := typing.scopes.withFunction f.signature info
  annotations := f.record info.returnType ++ typing.annotations
  returnType := typing.returnType

/-- From both states the same records are made, each for one of the nodes. -/
def Typing.RecordAlike (nodes : List Node) (narrow wide narrow' wide' : Typing) : Prop :=
  ∃ batch : Annotations, batch.RecordsOf nodes ∧
    narrow'.annotations = batch ++ narrow.annotations ∧
    wide'.annotations = batch ++ wide.annotations

namespace Typing.RecordAlike

variable {nodes : List Node} {narrow wide narrow' wide' narrow'' wide'' : Typing}

theorem same (hnarrow : narrow'.annotations = narrow.annotations)
    (hwide : wide'.annotations = wide.annotations) :
    RecordAlike nodes narrow wide narrow' wide' :=
  ⟨.empty, .empty, hnarrow, hwide⟩

theorem trans (hfirst : RecordAlike nodes narrow wide narrow' wide')
    (hsecond : RecordAlike nodes narrow' wide' narrow'' wide'') :
    RecordAlike nodes narrow wide narrow'' wide'' := by
  obtain ⟨first, hrecords, hnarrow, hwide⟩ := hfirst
  obtain ⟨second, hrecords', hnarrow', hwide'⟩ := hsecond
  refine ⟨second ++ first, hrecords'.append hrecords, ?_, ?_⟩
  · rw [hnarrow', hnarrow, Annotations.append_assoc]
  · rw [hwide', hwide, Annotations.append_assoc]

end Typing.RecordAlike

namespace Check

variable {α β δ : Type} {nodes : List Node} {returns : Bool} {narrow wide : Typing}

/-- If the check goes through from the narrow state, it does so from the wide one with the same
result and the same records. -/
def Follows (nodes : List Node) (returns : Bool) (check : Check α) (narrow wide : Typing) : Prop :=
  Gives check narrow fun result narrow' =>
    ∃ wide', check wide = .ok result wide' ∧ narrow'.Widened returns wide' ∧
      Typing.RecordAlike nodes narrow wide narrow' wide'

namespace Follows

theorem pure (hwide : narrow.Widened returns wide) (result : α) :
    Follows nodes returns (pure result) narrow wide :=
  ⟨wide, rfl, hwide, .same rfl rfl⟩

theorem bind_after {check : Check α} {next : α → Check β}
    (hcheck : Follows nodes returns check narrow wide)
    (hnext : ∀ result narrow' wide', check narrow = .ok result narrow' →
      check wide = .ok result wide' → narrow'.Widened returns wide' →
      Follows nodes returns (next result) narrow' wide') :
    Follows nodes returns (check >>= next) narrow wide := by
  apply Ensures.of_forall
  intro last narrow'' hok
  obtain ⟨result, narrow', hfirst, hlast⟩ := bind_eq_ok.mp hok
  obtain ⟨wide', hfirst', hwide', hrecords⟩ := hcheck.of_ok hfirst
  have hfollows := hnext result narrow' wide' hfirst hfirst' hwide'
  obtain ⟨wide'', hlast', hwide'', hrecords'⟩ := hfollows.of_ok hlast
  exact ⟨wide'', bind_eq_ok.mpr ⟨result, wide', hfirst', hlast'⟩, hwide'', hrecords.trans hrecords'⟩

theorem bind {check : Check α} {next : α → Check β}
    (hcheck : Follows nodes returns check narrow wide)
    (hnext : ∀ result narrow wide, narrow.Widened returns wide →
      Follows nodes returns (next result) narrow wide) :
    Follows nodes returns (check >>= next) narrow wide :=
  hcheck.bind_after fun result narrow' wide' _ _ hwide => hnext result narrow' wide' hwide

theorem within {check : Check α} {enter leave : StaticScopes → StaticScopes}
    (h : Follows nodes returns check { narrow with scopes := enter narrow.scopes }
      { wide with scopes := enter wide.scopes })
    (hleave : ∀ {narrow wide : StaticScopes}, narrow.Widened wide →
      (leave narrow).Widened (leave wide)) :
    Follows nodes returns (within enter leave check) narrow wide := by
  apply within_gives
  apply h.imp
  intro result narrow' hinner
  obtain ⟨wide', hok, hwide, hrecords⟩ := hinner
  refine ⟨{ wide' with scopes := leave wide'.scopes }, ?_, ⟨hleave hwide.scopes, hwide.returnType⟩,
    hrecords⟩
  unfold Check.within
  rw [hok]

end Follows

theorem knownVariable_of_find {name : String} {info : VariableInfo} {typing : Typing}
    (h : typing.scopes.findVariable? name = some info) :
    knownVariable name typing = .ok info typing := by
  have hget : (get : Check Typing) typing = .ok typing typing := rfl
  rw [knownVariable, bind_of_ok hget, h]
  rfl

theorem knownFunction_of_find {signature : Signature} {info : FunctionInfo} {typing : Typing}
    (h : typing.scopes.findFunction? signature = some info) :
    knownFunction signature typing = .ok info typing := by
  have hget : (get : Check Typing) typing = .ok typing typing := rfl
  rw [knownFunction, bind_of_ok hget, h]
  rfl

theorem declareVariable_of_ok {name : String} {info : VariableInfo} {typing : Typing}
    {scopes : StaticScopes} (h : typing.scopes.declareVariable name info = .ok scopes) :
    declareVariable name info typing = .ok () { typing with scopes } := by
  have hget : (get : Check Typing) typing = .ok typing typing := rfl
  rw [declareVariable, bind_of_ok hget, h]
  rfl

/-- A check that is put together from elementary checks goes through where more functions are
known. -/
theorem Composed.follows {check : Check α} (h : Composed nodes returns check)
    (hwide : narrow.Widened returns wide) : Follows nodes returns check narrow wide := by
  induction h generalizing narrow wide with
  | pure result => exact .pure hwide result
  | throw cause => trivial
  | bind _ _ ihcheck ihnext =>
      exact (ihcheck hwide).bind fun result _ _ hwide => ihnext result hwide
  | inBlock _ ih =>
      exact .within (ih ⟨hwide.scopes.enter, hwide.returnType⟩) fun hwide => hwide.leaveBlock
  | @record batch hbatch =>
      exact ⟨_, rfl, ⟨hwide.scopes, hwide.returnType⟩, batch, hbatch, rfl, rfl⟩
  | knownVariable name =>
      apply Ensures.get_bind
      cases hfind : narrow.scopes.findVariable? name with
      | none => trivial
      | some info =>
          rw [← hwide.scopes.findVariable?_eq] at hfind
          exact ⟨wide, knownVariable_of_find hfind, hwide, .same rfl rfl⟩
  | knownFunction signature =>
      apply Ensures.get_bind
      cases hfind : narrow.scopes.findFunction? signature with
      | none => trivial
      | some info =>
          have hfind := hwide.scopes.findFunction?_eq_some hfind
          exact ⟨wide, knownFunction_of_find hfind, hwide, .same rfl rfl⟩
  | @returning ty hreturns =>
      apply (lift_gives (Ty.requireAssignable narrow.returnType ty) narrow).imp
      intro _ narrow' h
      obtain ⟨hok, rfl⟩ := h
      rw [← hwide.returnType hreturns] at hok
      refine ⟨wide, ?_, hwide, .same rfl rfl⟩
      change Check.lift (Ty.requireAssignable wide.returnType ty) wide = _
      rw [hok]
      rfl
  | declareVariable name info =>
      apply (declareVariable_gives name info narrow).imp
      intro _ narrow' h
      obtain ⟨scopes, hdeclare, rfl⟩ := h
      obtain ⟨scopes', hdeclare', hscopes⟩ := hwide.scopes.declareVariable hdeclare
      exact ⟨_, declareVariable_of_ok hdeclare', ⟨hscopes, hwide.returnType⟩, .same rfl rfl⟩

/-! ## Globals and bodies -/

theorem Follows.each {check : δ → Check Unit} {items : List δ}
    (hitem : ∀ item ∈ items, ∀ {narrow wide : Typing}, narrow.Widened returns wide →
      Follows nodes returns (check item) narrow wide)
    (hwide : narrow.Widened returns wide) :
    Follows nodes returns (each check items) narrow wide := by
  induction items generalizing narrow wide with
  | nil => exact .pure hwide ()
  | cons first rest ih =>
      obtain ⟨hfirst, hrest⟩ := List.forall_mem_cons.mp hitem
      exact (hfirst hwide).bind fun _ _ _ hwide => ih hrest hwide

/-- The type that returns must fit is set before a body is checked, so what it was does not
matter. -/
theorem body_follows {f : Function} (hnodes : Stmt.blockNodes f.body ⊆ nodes)
    (hwide : narrow.Widened false wide) : Follows nodes false (body f) narrow wide := by
  apply Follows.within _ fun hwide => hwide.leaveFunction
  have hinside : Typing.Widened false { narrow with scopes := narrow.scopes.enterFunction }
      { wide with scopes := wide.scopes.enterFunction } :=
    ⟨hwide.scopes.enterFunction, hwide.returnType⟩
  apply ((Composed.parameters _ _ _ _).follows hinside).bind
  intro _ narrow wide hwide
  apply ((Composed.resolveReturn _).follows hwide).bind
  intro result narrow wide hwide
  have hblock : Follows nodes true (block f.body) { narrow with returnType := result }
      { wide with returnType := result } :=
    (Composed.block f.body hnodes).follows ⟨hwide.scopes, fun _ => rfl⟩
  apply hblock.imp
  intro _ narrow' hinner
  obtain ⟨wide', hok, hwide', hrecords⟩ := hinner
  exact ⟨wide', hok, ⟨hwide'.scopes, fun h => by cases h⟩, hrecords⟩

/-- Such a check at most declares variables in the current frame. -/
theorem Composed.growing {check : Check α} (h : Composed nodes returns check) : Growing check := by
  induction h with
  | pure result => exact (Steady.pure result).growing
  | throw cause => exact (Steady.throw cause).growing
  | bind _ _ ihcheck ihnext => exact ihcheck.bind ihnext
  | inBlock _ ih => exact ih.inBlock.growing
  | record _ => exact (Steady.record _).growing
  | knownVariable name =>
      apply Steady.growing
      apply Steady.get_bind
      intro typing
      split
      · exact .throw _
      · exact .pure _
  | knownFunction signature =>
      apply Steady.growing
      apply Steady.get_bind
      intro typing
      split
      · exact .throw _
      · exact .pure _
  | returning _ => exact (Steady.get_bind fun _ => .lift _).growing
  | declareVariable name info =>
      intro typing
      apply Ensures.get_bind
      cases hdeclare : typing.scopes.declareVariable name info with
      | ok scopes =>
          have hgrows : typing.scopes.Grows scopes := .declare .refl hdeclare
          exact hgrows
      | error cause =>
          have hgrows : typing.scopes.Grows typing.scopes := .refl
          exact hgrows

/-- Where only the global frame is in use, such a check leaves the functions as they are. -/
theorem top_of_growing {check : Check Unit} {typing finish : Typing} (h : Growing check)
    (htop : typing.scopes.blocks = []) (hok : check typing = .ok () finish) :
    finish.scopes.blocks = [] ∧ finish.scopes.globals.funs = typing.scopes.globals.funs := by
  obtain ⟨vars, hscopes⟩ := ((h typing).of_ok hok).globals_eq htop
  rw [hscopes]
  exact ⟨htop, rfl⟩

theorem body_steady (f : Function) : Steady (body f) := by
  have hparameters : Composed [] false
      (parameters f.id 0 f.parameterNames f.parameterTypes) := .parameters _ _ _ _
  have hreturn : Composed [] false (resolveReturn f.returnType) := .resolveReturn _
  apply Growing.inFunction
  apply hparameters.growing.bind
  intro _
  apply hreturn.growing.bind
  intro result
  exact fun typing => block_growing f.body { typing with returnType := result }

/-! ## Functions -/

theorem resolveAll_of_forall₂ {names : List String} {types : List Ty}
    (h : List.Forall₂ (fun name ty => Ty.ofName name = .ok ty) names types) (typing : Typing) :
    resolveAll names typing = .ok types typing := by
  induction h with
  | nil => rfl
  | @cons name ty names types hname _ ih =>
      have hresolve : resolve name typing = .ok ty typing := by
        rw [resolve, hname]
        rfl
      rw [resolveAll, bind_of_ok hresolve, bind_of_ok ih]
      rfl

theorem resolveReturn_of_ok {returnType : Option String} {ty : Ty}
    (h : Ty.ofReturn returnType = .ok ty) (typing : Typing) :
    resolveReturn returnType typing = .ok ty typing := by
  cases returnType with
  | some name =>
      rw [resolveReturn, resolve, show Ty.ofName name = .ok ty from h]
      rfl
  | none =>
      cases h
      rfl

/-- Once the types of a function are known, only its name can stand against it. -/
theorem signature_of_described {f : Function} {info : FunctionInfo} (h : f.Described info)
    (typing : Typing) : signature f typing = declareFunction f.signature info
      { typing with annotations := typing.annotations.recordDeclaration f.id info.returnType } := by
  obtain ⟨parameterTypes, returnType, origin⟩ := info
  obtain ⟨hparameters, hresult, rfl⟩ := h
  rw [signature, bind_of_ok (resolveAll_of_forall₂ hparameters typing),
    bind_of_ok (resolveReturn_of_ok hresult typing)]
  rfl

theorem described_of_signature {f : Function} {typing finish : Typing}
    (h : signature f typing = .ok () finish) : ∃ info, f.Described info := by
  obtain ⟨types, middle, htypes, h⟩ := bind_eq_ok.mp h
  obtain ⟨result, last, hresult, _⟩ := bind_eq_ok.mp h
  obtain ⟨htypes, _⟩ := (resolveAll_gives f.parameterTypes typing).of_ok htypes
  obtain ⟨hresult, _⟩ := (resolveReturn_gives f.returnType middle).of_ok hresult
  exact ⟨⟨types, result, .user f.id⟩, htypes, hresult, rfl⟩

theorem declareFunction_of_ok {signature : Signature} {info : FunctionInfo} {typing : Typing}
    {scopes : StaticScopes} (h : typing.scopes.declareFunction signature info = .ok scopes) :
    declareFunction signature info typing = .ok () { typing with scopes } := by
  have hget : (get : Check Typing) typing = .ok typing typing := rfl
  rw [declareFunction, bind_of_ok hget, h]
  rfl

theorem declareFunction_of_error {signature : Signature} {info : FunctionInfo} {typing : Typing}
    {cause : Cause} (h : typing.scopes.declareFunction signature info = .error cause) :
    declareFunction signature info typing = .error cause typing := by
  have hget : (get : Check Typing) typing = .ok typing typing := rfl
  rw [declareFunction, bind_of_ok hget, h]
  rfl

/-- At the top a function is declared if its types are known and its signature is free. -/
theorem signature_eq_ok {f : Function} {typing finish : Typing}
    (htop : typing.scopes.blocks = []) : signature f typing = .ok () finish ↔
      ∃ info, f.Described info ∧ typing.scopes.globals.funs.binds f.signature = false ∧
        finish = typing.withFunction f info := by
  constructor
  · intro h
    obtain ⟨info, hdescribed⟩ := described_of_signature h
    rw [signature_of_described hdescribed] at h
    obtain ⟨scopes, hdeclare, rfl⟩ := (declareFunction_gives _ _ _).of_ok h
    obtain ⟨hfree, rfl⟩ := (Scopes.declareFunction_eq_ok_of_top htop).mp hdeclare
    exact ⟨info, hdescribed, hfree, rfl⟩
  · intro h
    obtain ⟨info, hdescribed, hfree, rfl⟩ := h
    rw [signature_of_described hdescribed]
    exact declareFunction_of_ok ((Scopes.declareFunction_eq_ok_of_top htop).mpr ⟨hfree, rfl⟩)

theorem signature_eq_error {f : Function} {info : FunctionInfo} {typing : Typing}
    (htop : typing.scopes.blocks = []) (hdescribed : f.Described info)
    (hbinds : typing.scopes.globals.funs.binds f.signature = true) :
    ∃ finish, signature f typing = .error (.functionAlreadyDeclared f.name f.arity) finish := by
  rw [signature_of_described hdescribed]
  exact ⟨_, declareFunction_of_error (Scopes.declareFunction_eq_error_of_top htop hbinds)⟩

/-- Functions can be declared where more functions are known, if none of these has one of their
signatures. -/
theorem signatures_follow {functions : List Function}
    (hnodes : ∀ f ∈ functions, .function f ∈ nodes) (htop : narrow.scopes.blocks = [])
    (hbinds : ∀ f ∈ functions, wide.scopes.globals.funs.binds f.signature =
      narrow.scopes.globals.funs.binds f.signature)
    (hwide : narrow.Widened returns wide) :
    Follows nodes returns (each signature functions) narrow wide := by
  induction functions generalizing narrow wide with
  | nil => exact .pure hwide ()
  | cons f rest ih =>
      obtain ⟨hnode, hnodes⟩ := List.forall_mem_cons.mp hnodes
      obtain ⟨hbind, hbinds⟩ := List.forall_mem_cons.mp hbinds
      have htop' : wide.scopes.blocks = [] := hwide.scopes.blocks.trans htop
      have hfirst : Follows nodes returns (signature f) narrow wide := by
        apply Ensures.of_forall
        intro _ narrow' hok
        obtain ⟨info, hdescribed, hfree, rfl⟩ := (signature_eq_ok htop).mp hok
        rw [← hbind] at hfree
        exact ⟨_, (signature_eq_ok htop').mpr ⟨info, hdescribed, hfree, rfl⟩,
          ⟨hwide.scopes.withFunction _ _, hwide.returnType⟩,
          _, .ofDeclaredType hnode rfl info.returnType, rfl, rfl⟩
      apply hfirst.bind_after
      intro _ narrow' wide' hok hok' hwide'
      obtain ⟨info, _, _, rfl⟩ := (signature_eq_ok htop).mp hok
      obtain ⟨info', _, _, rfl⟩ := (signature_eq_ok htop').mp hok'
      have htop1 : (narrow.withFunction f info).scopes.blocks = [] := htop
      apply ih hnodes htop1 _ hwide'
      intro g hg
      rw [Typing.withFunction, Typing.withFunction, Scopes.binds_withFunction,
        Scopes.binds_withFunction, hbinds g hg]

/-- Functions cannot all be declared where one of their signatures is taken. -/
theorem signatures_clash {functions : List Function} {finish : Typing} {clash : Signature}
    (htop : narrow.scopes.blocks = []) (htop' : wide.scopes.blocks = [])
    (hok : each signature functions narrow = .ok () finish)
    (hclash : ∃ f ∈ functions, f.signature = clash)
    (hbinds : ∀ f ∈ functions, wide.scopes.globals.funs.binds f.signature =
      (decide (clash = f.signature) || narrow.scopes.globals.funs.binds f.signature)) :
    ∃ finish', each signature functions wide =
      .error (.functionAlreadyDeclared clash.name clash.arity) finish' := by
  induction functions generalizing narrow wide with
  | nil => simp at hclash
  | cons f rest ih =>
      obtain ⟨hbind, hbinds⟩ := List.forall_mem_cons.mp hbinds
      obtain ⟨_, middle, hfirst, hrest⟩ := bind_eq_ok.mp hok
      obtain ⟨info, hdescribed, hfree, rfl⟩ := (signature_eq_ok htop).mp hfirst
      by_cases hsame : clash = f.signature
      · rw [decide_eq_true hsame, Bool.true_or] at hbind
        obtain ⟨finish', herror⟩ := signature_eq_error htop' hdescribed hbind
        rw [hsame]
        exact ⟨finish', bind_of_error herror⟩
      · rw [decide_eq_false hsame, hfree] at hbind
        have hfirst' : signature f wide = .ok () (wide.withFunction f info) :=
          (signature_eq_ok htop').mpr ⟨info, hdescribed, hbind, rfl⟩
        have hclash : ∃ g ∈ rest, g.signature = clash := by
          obtain ⟨g, hg, hgclash⟩ := hclash
          rcases List.mem_cons.mp hg with rfl | hg
          · exact absurd hgclash.symm hsame
          · exact ⟨g, hg, hgclash⟩
        have htop1 : (narrow.withFunction f info).scopes.blocks = [] := htop
        have htop1' : (wide.withFunction f info).scopes.blocks = [] := htop'
        rw [each, bind_of_ok hfirst']
        apply ih htop1 htop1' hrest hclash
        intro g hg
        rw [Typing.withFunction, Typing.withFunction, Scopes.binds_withFunction,
          Scopes.binds_withFunction, hbinds g hg, Bool.or_left_comm]

/-! ## Programs -/

theorem hasMain_of_find {typing : Typing} {info : FunctionInfo} {id : NodeId}
    (hfind : typing.scopes.findFunction? ⟨"main", 0⟩ = some info) (horigin : info.origin = .user id)
    (hreturn : info.returnType = .integer) : hasMain typing = .ok () typing := by
  obtain ⟨parameterTypes, returnType, origin⟩ := info
  cases horigin
  cases hreturn
  have hget : (get : Check Typing) typing = .ok typing typing := rfl
  rw [hasMain, bind_of_ok hget, hfind]
  rfl

theorem hasMain_follows (hwide : narrow.Widened returns wide) :
    Follows nodes returns hasMain narrow wide := by
  apply (hasMain_gives narrow).imp
  intro _ narrow' h
  obtain ⟨rfl, info, id, hfind, horigin, hreturn⟩ := h
  have hfind' := hwide.scopes.findFunction?_eq_some hfind
  exact ⟨wide, hasMain_of_find hfind' horigin hreturn, hwide, .same rfl rfl⟩

/-- A program that goes through does so where more functions are known, if none of these has the
signature of one of its own. -/
theorem program_follows {p : Program} (htop : narrow.scopes.blocks = [])
    (hbinds : ∀ f ∈ p.functions, wide.scopes.globals.funs.binds f.signature =
      narrow.scopes.globals.funs.binds f.signature)
    (hwide : narrow.Widened false wide) : Follows p.nodes false (program p) narrow wide := by
  have hglobals : Composed p.nodes false (each global p.globals) :=
    .globals p.globals fun g hg _ hnode => Program.mem_nodes_of_global hg hnode
  apply (hglobals.follows hwide).bind_after
  intro _ narrow1 wide1 hok hok' hwide1
  obtain ⟨htop1, hfuns⟩ := top_of_growing hglobals.growing htop hok
  obtain ⟨_, hfuns'⟩ := top_of_growing hglobals.growing (hwide.scopes.blocks.trans htop) hok'
  rw [← hfuns, ← hfuns'] at hbinds
  have hnodes (f : Function) (hf : f ∈ p.functions) : f.nodes ⊆ p.nodes :=
    fun _ hnode => Program.mem_nodes_of_function hf hnode
  apply (signatures_follow (fun f hf => hnodes f hf (by simp [Function.nodes])) htop1 hbinds
    hwide1).bind
  intro _ narrow2 wide2 hwide2
  apply (hasMain_follows hwide2).bind
  intro _ narrow3 wide3 hwide3
  apply Follows.each _ hwide3
  intro f hf _ _ hwide
  exact body_follows (fun _ hnode => hnodes f hf (List.mem_append_left _ hnode)) hwide

/-- A program that goes through does not do so where one more function is known, if this one has the
signature of one of its own. -/
theorem program_clash {p : Program} {finish : Typing} {clash : Signature}
    (htop : narrow.scopes.blocks = []) (hok : program p narrow = .ok () finish)
    (hclash : ∃ f ∈ p.functions, f.signature = clash)
    (hbinds : ∀ f ∈ p.functions, wide.scopes.globals.funs.binds f.signature =
      (decide (clash = f.signature) || narrow.scopes.globals.funs.binds f.signature))
    (hwide : narrow.Widened false wide) :
    ∃ finish', program p wide =
      .error (.functionAlreadyDeclared clash.name clash.arity) finish' := by
  obtain ⟨_, narrow1, hglobals, hok⟩ := bind_eq_ok.mp hok
  obtain ⟨_, narrow2, hsignatures, _⟩ := bind_eq_ok.mp hok
  have hcomposed : Composed p.nodes false (each global p.globals) :=
    .globals p.globals fun g hg _ hnode => Program.mem_nodes_of_global hg hnode
  obtain ⟨wide1, hglobals', hwide1, _⟩ := (hcomposed.follows hwide).of_ok hglobals
  obtain ⟨htop1, hfuns⟩ := top_of_growing hcomposed.growing htop hglobals
  obtain ⟨htop1', hfuns'⟩ :=
    top_of_growing hcomposed.growing (hwide.scopes.blocks.trans htop) hglobals'
  rw [← hfuns, ← hfuns'] at hbinds
  obtain ⟨finish', herror⟩ := signatures_clash htop1 htop1' hsignatures hclash hbinds
  rw [program, bind_of_ok hglobals']
  exact ⟨finish', bind_of_error herror⟩

end Check

end Scriptlet
