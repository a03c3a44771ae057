import Scriptlet.Proofs.Eval.Observed
import Scriptlet.Proofs.Scope.FunctionOrder
import Scriptlet.Proofs.Typing.Widening

/-! # Hosts with more functions

A host can provide one more function, and in any order. A checked program does not notice, unless
the signature of that function is taken: then the program is refused for it.
-/

namespace Scriptlet

variable {σ : Type} {builtins builtins' : List (Builtin σ)} {extra : Builtin σ}
variable {p : Program} {notes : Annotations}

section

variable (hperm : (extra :: builtins).Perm builtins')
include hperm

/-! ## A new function -/

/-- A program is checked with one more function of the host in the same way. -/
theorem Program.check_extend (hcheck : p.check builtins = .ok notes)
    (hnew : ¬∃ builtin ∈ builtins, builtin.signature = extra.signature)
    (hown : ∀ f ∈ p.functions, f.signature ≠ extra.signature) :
    p.check builtins' = .ok notes := by
  obtain ⟨start, finish, hstart, hok, rfl⟩ := Program.check_eq_ok.mp hcheck
  have htop : (Typing.start start).scopes.blocks = [] :=
    (Builtin.atTop_of_staticScopes hstart).blocks
  obtain ⟨wide, hscopes, hwidened, hbinds⟩ := Scopes.exists_declareAll_of_new hperm hstart hnew
  have hwide : (Typing.start start).Widened false (.start wide) := ⟨hwidened, fun _ => rfl⟩
  have hfollows : Check.Follows p.nodes false (Check.program p) (.start start) (.start wide) := by
    apply Check.program_follows htop _ hwide
    intro f hf
    rw [Typing.start, hbinds, decide_eq_false (hown f hf).symm]
    rfl
  obtain ⟨finish', hok', _, batch, _, hnotes, hnotes'⟩ := hfollows.of_ok hok
  exact Program.check_eq_ok.mpr ⟨wide, finish', hscopes, hok', hnotes'.trans hnotes.symm⟩

/-- A checked program runs with one more function of the host in the same way. -/
theorem Checked.run_extend (hchecked : Checked builtins p notes)
    (hnew : ¬∃ builtin ∈ builtins, builtin.signature = extra.signature)
    (hown : ∀ f ∈ p.functions, f.signature ≠ extra.signature) (policy : Division) (limit : Nat)
    (host : σ) :
    p.run builtins' policy limit host = p.run builtins policy limit host ∧
      p.hostCalls builtins' policy limit host = p.hostCalls builtins policy limit host := by
  obtain ⟨scopes, hscopes, hvalues⟩ := hchecked.exists_runScopes
  obtain ⟨scopes', hscopes', hwidened, hbinds⟩ :=
    Scopes.exists_declareAll_of_new hperm hscopes hnew
  have hwide : Machine.Widened (p.functions.map Function.signature) ⟨scopes, .empty, host⟩
      ⟨scopes', .empty, host⟩ := by
    refine ⟨hwidened, ?_, rfl, rfl⟩
    intro signature hmem
    obtain ⟨f, hf, rfl⟩ := List.mem_map.mp hmem
    rw [hbinds, decide_eq_false (hown f hf).symm]
    rfl
  apply Traced.Alike.program hscopes hscopes'
  obtain hsame | ⟨name, arity, hmissing⟩ := Traced.program_matches policy limit
    (fun f hf => List.mem_map_of_mem hf) hwide
  · exact .of_eq hwide hsame
  · cases hvalues _ _ _ _ hmissing

/-! ## A function whose signature is taken -/

theorem Program.check_clash (hcheck : p.check builtins = .ok notes)
    (hclash : (∃ builtin ∈ builtins, builtin.signature = extra.signature) ∨
      ∃ f ∈ p.functions, f.signature = extra.signature) :
    p.check builtins' =
      .error ⟨.functionAlreadyDeclared extra.name extra.parameterTypes.length, .typing⟩ := by
  obtain ⟨start, finish, hstart, hok, _⟩ := Program.check_eq_ok.mp hcheck
  unfold Program.check Program.annotate
  by_cases hmember : ∃ builtin ∈ builtins, builtin.signature = extra.signature
  · have hscopes : Builtin.staticScopes builtins' = .error _ :=
      Scopes.declareAll_eq_error_of_clash hperm hstart hmember
    rw [hscopes]
    rfl
  · -- All functions of the host are declared, so it is one of the program that cannot be.
    have hown := hclash.resolve_left hmember
    have htop : (Typing.start start).scopes.blocks = [] :=
      (Builtin.atTop_of_staticScopes hstart).blocks
    obtain ⟨wide, hscopes, hwidened, hbinds⟩ :=
      Scopes.exists_declareAll_of_new hperm hstart hmember
    have hwide : (Typing.start start).Widened false (.start wide) := ⟨hwidened, fun _ => rfl⟩
    obtain ⟨finish', herror⟩ :=
      Check.program_clash htop hok hown (fun f _ => hbinds f.signature) hwide
    have hscopes : Builtin.staticScopes builtins' = .ok wide := hscopes
    rw [hscopes]
    simp only [herror]
    rfl

end

/-! ## Texts -/

/-- A host extends programs conservatively. If a text is a checked program, then for a host that
provides one more function, in whatever order, there are two cases. If the signature of that
function is new, the text is the same program with the same annotations, and within every limit its
runs end in the same way, leave the same lists, and make the same calls of the host. If a function
of the host or of the program has that signature, the text is refused for it. -/
theorem check_and_evaluate_of_more_builtins {text : String}
    (hcheck : check text builtins = .ok (p, notes)) (hperm : (extra :: builtins).Perm builtins') :
    ((∀ builtin ∈ builtins, builtin.signature ≠ extra.signature) →
      (∀ f ∈ p.functions, f.signature ≠ extra.signature) →
      check text builtins' = .ok (p, notes) ∧
      ∀ policy limit host,
        evaluate text builtins' policy limit host = evaluate text builtins policy limit host ∧
        p.hostCalls builtins' policy limit host = p.hostCalls builtins policy limit host) ∧
    ((∃ builtin ∈ builtins, builtin.signature = extra.signature) ∨
      (∃ f ∈ p.functions, f.signature = extra.signature) →
      check text builtins' =
        .error ⟨.functionAlreadyDeclared extra.name extra.parameterTypes.length, .typing⟩) := by
  have hchecked := checked_of_check hcheck
  have hparse := (parse_of_check hcheck).1
  constructor
  · intro hnew hown
    have hnew : ¬∃ builtin ∈ builtins, builtin.signature = extra.signature :=
      fun ⟨builtin, hmem, hsame⟩ => hnew builtin hmem hsame
    have hcheck' : check text builtins' = .ok (p, notes) := by
      rw [check_of_parse hparse, Program.check_extend hperm hchecked.checked hnew hown]
      rfl
    refine ⟨hcheck', ?_⟩
    intro policy limit host
    unfold evaluate
    rw [hcheck, hcheck']
    exact hchecked.run_extend hperm hnew hown policy limit host
  · intro hclash
    rw [check_of_parse hparse, Program.check_clash hperm hchecked.checked hclash]
    rfl

/-- A text that prints, for hosts that provide a function of two parameters with the name of the
one it prints with, another of one parameter with that name, and one with the signature of its
own. -/
theorem check_and_evaluate_of_more_builtins_print :
    ∃ (p : Program) (notes : Annotations),
      let text := "FUN show(n: Integer): Integer DO print(n); RETURN n; END
        FUN main(): Integer DO RETURN show(7); END"
      let print := Builtin.print fun line lines => lines ++ [line]
      let more (name : String) (parameterTypes : List Ty) : Builtin (List String) :=
        ⟨name, parameterTypes, .nil, fun _ heap host => (.nil, heap, host ++ ["other"])⟩
      check text [print] = .ok (p, notes) ∧
      check text [more "print" [.any, .any], print] = .ok (p, notes) ∧
      (evaluate text [more "print" [.any, .any], print] .unscaled 3 []).host = ["7"] ∧
      check text [print, more "print" [.integer]] =
        .error ⟨.functionAlreadyDeclared "print" 1, .typing⟩ ∧
      check text [print, more "show" [.any]] =
        .error ⟨.functionAlreadyDeclared "show" 1, .typing⟩ := by
  let text := "FUN show(n: Integer): Integer DO print(n); RETURN n; END
        FUN main(): Integer DO RETURN show(7); END"
  let print : Builtin (List String) := .print fun line lines => lines ++ [line]
  let other : Builtin (List String) :=
    ⟨"print", [.any, .any], .nil, fun _ heap host => (.nil, heap, host ++ ["other"])⟩
  have hfunctions : (check text [print]).toOption.map (·.1.functions.map Function.signature) =
      some [⟨"show", 1⟩, ⟨"main", 0⟩] := by
    decide +kernel
  have hhost : (evaluate text [print] .unscaled 3 []).host = ["7"] := by decide +kernel
  cases hcheck : check text [print] with
  | error error =>
      rw [hcheck] at hfunctions
      cases hfunctions
  | ok checked =>
      obtain ⟨p, notes⟩ := checked
      rw [hcheck] at hfunctions
      have hfunctions : p.functions.map Function.signature = [⟨"show", 1⟩, ⟨"main", 0⟩] :=
        Option.some.inj hfunctions
      have hshow : ∃ f ∈ p.functions, f.signature = ⟨"show", 1⟩ := by
        rw [← List.mem_map, hfunctions]
        exact List.mem_cons_self
      have hown (f : Function) (hf : f ∈ p.functions) : f.signature ≠ other.signature := by
        have hmem : f.signature ∈ p.functions.map Function.signature := List.mem_map_of_mem hf
        rw [hfunctions] at hmem
        intro hsame
        rw [hsame] at hmem
        revert hmem
        decide
      have hnew : ∀ builtin ∈ [print], builtin.signature ≠ other.signature := by decide
      obtain ⟨hcheck', heval⟩ :=
        (check_and_evaluate_of_more_builtins hcheck (.refl [other, print])).1 hnew hown
      refine ⟨p, notes, hcheck, hcheck', ?_, ?_, ?_⟩
      · exact (congrArg Run.host (heval .unscaled 3 []).1).trans hhost
      · exact (check_and_evaluate_of_more_builtins hcheck (.swap _ _ _)).2
          (.inl ⟨print, List.mem_cons_self, rfl⟩)
      · exact (check_and_evaluate_of_more_builtins hcheck (.swap _ _ _)).2 (.inr hshow)

end Scriptlet
