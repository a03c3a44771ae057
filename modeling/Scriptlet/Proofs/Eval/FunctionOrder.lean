import Scriptlet.Proofs.Eval.Observed
import Scriptlet.Proofs.Scope.FunctionOrder
import Scriptlet.Proofs.Typing.FunctionOrder

/-! # The order of functions

A program declares its functions before it calls one of them, and calls find a function by its
signature. So a checked program runs in the same way in whatever order it has its functions.
-/

namespace Scriptlet

variable {σ : Type}

/-! ## Declarations of functions -/

/-- The machine with one more function in the global frame. -/
def Machine.withFunction (machine : Machine σ) (f : Function) : Machine σ :=
  { machine with scopes := machine.scopes.withFunction f.signature (.user f) }

/-- The functions can be declared one after the other. -/
abbrev Machine.Declares (machine : Machine σ) : List Function → RunScopes σ → Prop :=
  Chain (Scopes.Declares Function.signature Callable.user) machine.scopes

namespace Traced

variable {machine : Machine σ}

theorem apply_declareFunction (htop : machine.scopes.blocks = []) (f : Function) :
    (Change.declareFunction f).apply machine = machine.withFunction f := by
  obtain ⟨⟨blocks, callers, globals⟩, heap, host⟩ := machine
  cases (htop : blocks = [])
  rfl

theorem declareFunction_eq (htop : machine.scopes.blocks = []) (f : Function) :
    declareFunction f machine =
      if machine.scopes.globals.funs.binds f.signature then
        ([], .error (.error (.functionAlreadyDeclared f.name f.arity)))
      else ([.declareFunction f], .ok ()) := by
  obtain ⟨⟨blocks, callers, globals⟩, heap, host⟩ := machine
  cases (htop : blocks = [])
  cases hbinds : globals.funs.binds f.signature with
  | true => simp [declareFunction, view_bind, Scopes.current, hbinds, fail, halt]
  | false => simp [declareFunction, view_bind, Scopes.current, hbinds, make]

theorem each_declareFunction_cons (htop : machine.scopes.blocks = []) {f : Function}
    (hfree : machine.scopes.globals.funs.binds f.signature = false) (rest : List Function) :
    each declareFunction (f :: rest) machine =
      (.declareFunction f :: (each declareFunction rest (machine.withFunction f)).1,
        (each declareFunction rest (machine.withFunction f)).2) := by
  have hdeclare := declareFunction_eq htop f
  rw [hfree] at hdeclare
  rw [each, bind_eq hdeclare, Machine.after_cons, Machine.after_nil, apply_declareFunction htop]
  rfl

/-- What is done to declare functions. -/
theorem each_declareFunction {functions : List Function} {scopes : RunScopes σ}
    (htop : machine.scopes.blocks = []) (h : machine.Declares functions scopes) :
    each declareFunction functions machine = (functions.map .declareFunction, .ok ()) ∧
      machine.after (functions.map .declareFunction) = { machine with scopes } := by
  induction functions generalizing machine with
  | nil =>
      cases h
      exact ⟨rfl, rfl⟩
  | cons f rest ih =>
      cases h with
      | cons hfirst hrest =>
          obtain ⟨hfree, rfl⟩ := (Scopes.declares_iff_of_top htop).mp hfirst
          have htop' : (machine.withFunction f).scopes.blocks = [] := htop
          obtain ⟨heach, hafter⟩ := ih htop' hrest
          rw [each_declareFunction_cons htop hfree, List.map_cons, Machine.after_cons,
            apply_declareFunction htop, heach, hafter]
          exact ⟨rfl, rfl⟩

/-- Functions are declared unless one of them has a signature that is there already. -/
theorem declares_or_clash (functions : List Function) (htop : machine.scopes.blocks = []) :
    (∃ scopes, machine.Declares functions scopes) ∨
      ∃ name arity, (each declareFunction functions machine).2 =
        .error (.error (.functionAlreadyDeclared name arity)) := by
  induction functions generalizing machine with
  | nil => exact .inl ⟨machine.scopes, .nil⟩
  | cons f rest ih =>
      cases hbinds : machine.scopes.globals.funs.binds f.signature with
      | true =>
          right
          have hclash := declareFunction_eq htop f
          rw [if_pos hbinds] at hclash
          rw [each, bind_eq_error (congrArg Prod.snd hclash)]
          exact ⟨f.name, f.arity, rfl⟩
      | false =>
          have hfirst : Scopes.Declares Function.signature Callable.user machine.scopes f
              (machine.withFunction f).scopes :=
            (Scopes.declares_iff_of_top htop).mpr ⟨hbinds, rfl⟩
          have htop' : (machine.withFunction f).scopes.blocks = [] := htop
          rw [each_declareFunction_cons htop hbinds]
          obtain ⟨scopes, hrest⟩ | hclash := ih htop'
          · exact .inl ⟨scopes, .cons hfirst hrest⟩
          · exact .inr hclash

theorem hostCalls_declareFunctions (machine : Machine σ) (functions : List Function) :
    machine.hostCalls (functions.map .declareFunction) = [] := by
  induction functions generalizing machine with
  | nil => rfl
  | cons f rest ih => exact ih _

/-! ## Runs -/

variable (policy : Division) (limit : Nat)

/-- Where only the global frame is in use, it stays so while globals are made. -/
theorem blocks_after_globals (htop : machine.scopes.blocks = []) (globals : List Global) :
    (machine.after (each (global policy limit) globals machine).1).scopes.blocks = [] := by
  -- Nothing is asked of the changes here, only of the frames that they leave.
  have hregular : Regular fun (_ : Machine σ) _ => True :=
    ⟨fun _ => trivial, fun _ _ => trivial, fun _ => trivial, fun _ => trivial⟩
  apply (hregular.each _ htop).2
  intro g _ machine htop
  exact ⟨trivial, blocks_after_global policy limit htop g⟩

/-- After the same globals, functions are declared in another order, and `main` is called. -/
theorem declare_and_call_reorder {functions functions' : List Function}
    (hperm : functions.Perm functions') (htop : machine.scopes.blocks = [])
    (hvalues : ∀ cause,
      ((each declareFunction functions >>= fun _ => call policy limit "main" []) machine).2 =
        .error (.error cause) → cause.isOfValues = true) :
    Alike (each declareFunction functions >>= fun _ => call policy limit "main" []) machine
      (each declareFunction functions' >>= fun _ => call policy limit "main" []) machine := by
  obtain ⟨scopes, hchain⟩ | ⟨name, arity, hclash⟩ := declares_or_clash functions htop
  · obtain ⟨scopes', hchain', hreordered⟩ := Scopes.declares_commuting.perm (fun _ => trivial) hperm
      (List.pairwise_of_forall fun _ _ => trivial) ⟨htop, .refl machine.scopes⟩ hchain
    obtain ⟨heach, hafter⟩ := each_declareFunction htop hchain
    obtain ⟨heach', hafter'⟩ := each_declareFunction htop hchain'
    rw [bind_eq heach, hafter] at hvalues
    have hwide : Machine.Widened [] { machine with scopes } { machine with scopes := scopes' } :=
      ⟨hreordered.2.1, by simp, rfl, rfl⟩
    apply Alike.bind heach heach'
    · rw [hostCalls_declareFunctions, hostCalls_declareFunctions]
    · rw [hafter, hafter']
      obtain hsame | ⟨name, arity, hmissing⟩ := call_matches policy limit "main" [] hwide
      · exact .of_eq hwide hsame
      · cases hvalues _ hmissing
  · rw [bind_eq_error hclash] at hvalues
    cases hvalues _ rfl

/-- A program that fails because of values only looks the same to its host in whatever order it has
its functions. -/
theorem program_reorder {p : Program} {functions : List Function}
    (hperm : p.functions.Perm functions) (htop : machine.scopes.blocks = [])
    (hvalues : ∀ cause, (program policy limit p machine).2 = .error (.error cause) →
      cause.isOfValues = true) :
    Alike (program policy limit p) machine (program policy limit { p with functions }) machine := by
  rcases hglobals : each (global policy limit) p.globals machine with ⟨changes, halt | _⟩
  · have hhalts := congrArg Prod.snd hglobals
    exact .of_eq (.refl [] machine) ((bind_eq_error hhalts _).trans (bind_eq_error hhalts _).symm)
  · have hmiddle := blocks_after_globals policy limit htop p.globals
    rw [hglobals] at hmiddle
    rw [program, bind_eq hglobals] at hvalues
    exact .bind hglobals hglobals rfl (declare_and_call_reorder policy limit hperm hmiddle hvalues)

end Traced

/-! ## Checked programs -/

variable {p : Program} {functions : List Function} {builtins : List (Builtin σ)}

/-- A checked program runs in the same way in whatever order it has its functions. -/
theorem Checked.run_reorder {notes : Annotations} (hchecked : Checked builtins p notes)
    (hperm : p.functions.Perm functions) (policy : Division) (limit : Nat) (host : σ) :
    Program.run { p with functions } builtins policy limit host =
        p.run builtins policy limit host ∧
      Program.hostCalls { p with functions } builtins policy limit host =
        p.hostCalls builtins policy limit host := by
  obtain ⟨scopes, hscopes, hvalues⟩ := hchecked.exists_runScopes
  have htop : scopes.blocks = [] := (Scopes.HostOnly.of_runScopes hscopes).blocks
  exact Traced.Alike.program hscopes hscopes
    (Traced.program_reorder policy limit hperm htop (hvalues policy limit host))

/-- The order of the functions of a program that is read from tokens does not matter. The program is
accepted in one order if and only if it is accepted in another. Then its nodes have the same
annotations, and within every limit its runs end in the same way, leave the same lists, and make the
same calls of the host in the same order. -/
theorem Program.order_of_functions_irrelevant {tokens : List Token}
    (htokens : Program.ofTokens tokens = .ok p) (hperm : p.functions.Perm functions)
    (builtins : List (Builtin σ)) :
    let reordered : Program := { p with functions }
    ((∃ notes, p.check builtins = .ok notes) ↔ ∃ notes, reordered.check builtins = .ok notes) ∧
    ∀ notes notes', p.check builtins = .ok notes → reordered.check builtins = .ok notes' →
      (∀ id, notes.entry id = notes'.entry id) ∧
      ∀ policy limit host,
        reordered.run builtins policy limit host = p.run builtins policy limit host ∧
        reordered.hostCalls builtins policy limit host =
          p.hostCalls builtins policy limit host := by
  intro reordered
  have hapart := Program.functions_apart (wellFormed_of_ofTokens htokens).1
  have hapart' : reordered.functions.Pairwise Function.Apart :=
    (hperm.pairwise_iff Function.Apart.symm).mp hapart
  constructor
  · constructor
    · intro ⟨notes, hcheck⟩
      obtain ⟨notes', hcheck', _⟩ := Program.check_reorder hperm hapart hcheck
      exact ⟨notes', hcheck'⟩
    · intro ⟨notes', hcheck'⟩
      obtain ⟨notes, hcheck, _⟩ := Program.check_reorder hperm.symm hapart' hcheck'
      exact ⟨notes, hcheck⟩
  · intro notes notes' hcheck hcheck'
    constructor
    · obtain ⟨_, hsame, hentries⟩ := Program.check_reorder hperm hapart hcheck
      cases hcheck'.symm.trans hsame
      exact hentries
    · exact (checked_of_ofTokens htokens hcheck).run_reorder hperm

/-- Two functions that call each other, one of which prints, with all functions in reverse. -/
theorem Program.order_of_functions_irrelevant_recursion :
    ∃ p : Program,
      let builtins := [Builtin.print fun line lines => lines ++ [line]]
      let reordered : Program := { p with functions := p.functions.reverse }
      parse "FUN f(n: Integer): Integer DO print(n); IF n == 0 DO RETURN 5; END RETURN g(n); END
        FUN g(n: Integer): Integer DO RETURN f(n - 1); END
        FUN main(): Integer DO RETURN f(1); END" = .ok p ∧
      (∃ notes, reordered.check builtins = .ok notes) ∧
      (reordered.run builtins .unscaled 5 []).outcome = .value (.integer 5) ∧
      (reordered.hostCalls builtins .unscaled 5 []).map HostCall.arguments =
        [[.integer 1], [.integer 0]] := by
  let text := "FUN f(n: Integer): Integer DO print(n); IF n == 0 DO RETURN 5; END RETURN g(n); END
        FUN g(n: Integer): Integer DO RETURN f(n - 1); END
        FUN main(): Integer DO RETURN f(1); END"
  let builtins : List (Builtin (List String)) := [.print fun line lines => lines ++ [line]]
  have hruns : (parse text).toOption.map (fun p => ((p.check builtins).isOk,
      (p.run builtins .unscaled 5 []).outcome,
      (p.hostCalls builtins .unscaled 5 []).map HostCall.arguments)) =
        some (true, .value (.integer 5), [[.integer 1], [.integer 0]]) := by
    decide +kernel
  cases hparse : parse text with
  | error error =>
      rw [hparse] at hruns
      cases hruns
  | ok p =>
      rw [hparse] at hruns
      obtain ⟨hok, hrest⟩ := Prod.mk.inj (Option.some.inj hruns)
      obtain ⟨houtcome, hcalls⟩ := Prod.mk.inj hrest
      obtain ⟨tokens, _, htokens⟩ := parse_eq_ok hparse
      obtain ⟨haccepted, hsame⟩ := Program.order_of_functions_irrelevant htokens
        (List.reverse_perm p.functions).symm builtins
      cases hcheck : p.check builtins with
      | error error =>
          rw [hcheck] at hok
          cases hok
      | ok notes =>
          obtain ⟨notes', hcheck'⟩ := haccepted.mp ⟨notes, hcheck⟩
          obtain ⟨hrun, hcalls'⟩ := (hsame notes notes' hcheck hcheck').2 .unscaled 5 []
          exact ⟨p, rfl, ⟨notes', hcheck'⟩, (congrArg Run.outcome hrun).trans houtcome,
            (congrArg (List.map HostCall.arguments) hcalls').trans hcalls⟩

end Scriptlet
