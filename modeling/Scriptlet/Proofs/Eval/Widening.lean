import Scriptlet.Proofs.Eval.Isolation
import Scriptlet.Proofs.Scope.Widening

/-! # Runs where more functions are known

A run that misses no function makes the same changes, one by one, and ends in the same way on a
machine that knows more functions.
-/

namespace Scriptlet

variable {σ α β : Type}

/-! ## Changes -/

namespace Scopes.Widened

variable {V F : Type} {narrow wide : Scopes V F}

theorem addFunction (h : Widened narrow wide) (signature : Signature) (value : F) :
    Widened (narrow.addFunction signature value) (wide.addFunction signature value) := by
  obtain ⟨blocks, callers, globals⟩ := narrow
  obtain ⟨blocks', callers', globals'⟩ := wide
  have hfunction := h.withFunction signature value
  obtain ⟨rfl, rfl, hvars, hfuns⟩ := h
  cases blocks' with
  | nil => exact ⟨rfl, rfl, hfunction.vars, hfunction.funs⟩
  | cons block blocks => exact ⟨rfl, rfl, hvars, hfuns⟩

theorem binds_addFunction (h : Widened narrow wide) (signature : Signature) (value : F)
    {other : Signature}
    (hbinds : wide.globals.funs.binds other = narrow.globals.funs.binds other) :
    (wide.addFunction signature value).globals.funs.binds other =
      (narrow.addFunction signature value).globals.funs.binds other := by
  have hglobals := narrow.binds_withFunction signature value other
  have hglobals' := wide.binds_withFunction signature value other
  rw [hbinds] at hglobals'
  obtain ⟨blocks, callers, globals⟩ := narrow
  obtain ⟨blocks', callers', globals'⟩ := wide
  obtain ⟨rfl, rfl, _, _⟩ := h
  cases blocks' with
  | nil => exact hglobals'.trans hglobals.symm
  | cons block blocks => exact hbinds

end Scopes.Widened

/-- Only the declaration of a function changes the functions of the global frame. -/
theorem Change.globalFuns_apply {change : Change σ} (hchange : ∀ f, change ≠ .declareFunction f)
    (machine : Machine σ) :
    (change.apply machine).scopes.globals.funs = machine.scopes.globals.funs := by
  obtain ⟨⟨blocks, callers, globals⟩, heap, host⟩ := machine
  cases change with
  | leaveFunction => cases callers <;> rfl
  | declare name slot given => cases blocks <;> rfl
  | declareFunction f => exact absurd rfl (hchange f)
  | store name value =>
      unfold apply Scopes.modifyVariable
      simp only
      split <;> rfl
  | _ => rfl

namespace Machine

/-- The second machine differs from the first in functions that only it knows, none of which has one
of the given signatures. -/
structure Widened (own : List Signature) (narrow wide : Machine σ) : Prop where
  scopes : narrow.scopes.Widened wide.scopes
  binds : ∀ signature ∈ own, wide.scopes.globals.funs.binds signature =
    narrow.scopes.globals.funs.binds signature
  heap : wide.heap = narrow.heap
  host : wide.host = narrow.host

namespace Widened

variable {own : List Signature} {narrow wide : Machine σ}

theorem refl (own : List Signature) (machine : Machine σ) : Widened own machine machine :=
  ⟨.refl machine.scopes, fun _ _ => rfl, rfl, rfl⟩

theorem scopes_apply (h : Widened own narrow wide) (change : Change σ) :
    (change.apply narrow).scopes.Widened (change.apply wide).scopes := by
  cases change with
  | enterBlock => exact h.scopes.enter
  | leaveBlock => exact h.scopes.leaveBlock
  | enterFunction => exact h.scopes.enterFunction
  | leaveFunction => exact h.scopes.leaveFunction
  | declare name slot given => exact h.scopes.bindVariable name slot
  | declareFunction f => exact h.scopes.addFunction _ _
  | store name value => exact h.scopes.modifyVariable name _
  | _ => exact h.scopes

theorem binds_apply (h : Widened own narrow wide) (change : Change σ) {signature : Signature}
    (hown : signature ∈ own) : (change.apply wide).scopes.globals.funs.binds signature =
      (change.apply narrow).scopes.globals.funs.binds signature := by
  by_cases hchange : ∃ f, change = .declareFunction f
  · obtain ⟨f, rfl⟩ := hchange
    exact h.scopes.binds_addFunction _ _ (h.binds signature hown)
  · have hother : ∀ f, change ≠ .declareFunction f := fun f hsame => hchange ⟨f, hsame⟩
    rw [Change.globalFuns_apply hother, Change.globalFuns_apply hother]
    exact h.binds signature hown

/-- The same change on both machines. -/
theorem apply (h : Widened own narrow wide) (change : Change σ) :
    Widened own (change.apply narrow) (change.apply wide) := by
  refine ⟨h.scopes_apply change, fun _ hown => h.binds_apply change hown, ?_, ?_⟩
  · cases change with
    | createList elements | storeElement name address position value =>
        simp only [Change.apply, h.heap]
    | native name run arguments => simp only [Change.apply, h.heap, h.host]
    | _ => exact h.heap
  · cases change with
    | native name run arguments => simp only [Change.apply, h.heap, h.host]
    | _ => exact h.host

theorem after (h : Widened own narrow wide) (changes : List (Change σ)) :
    Widened own (narrow.after changes) (wide.after changes) := by
  induction changes generalizing narrow wide with
  | nil => exact h
  | cons change changes ih => exact ih (h.apply change)

theorem hostCalls (h : Widened own narrow wide) (changes : List (Change σ)) :
    wide.hostCalls changes = narrow.hostCalls changes := by
  induction changes generalizing narrow wide with
  | nil => rfl
  | cons change changes ih =>
      rw [Machine.hostCalls, Machine.hostCalls, ih (h.apply change)]
      congr 1
      cases change with
      | native name run arguments => simp only [Change.hostCalls, h.heap]
      | _ => rfl

end Widened

end Machine

/-! ## Evaluation -/

namespace Traced

theorem bind_eq {step : Traced σ α} {machine : Machine σ} {changes : List (Change σ)} {result : α}
    (h : step machine = (changes, .ok result)) (next : α → Traced σ β) :
    (step >>= next) machine =
      (changes ++ (next result (machine.after changes)).1,
        (next result (machine.after changes)).2) := by
  simp only [Bind.bind, h]

theorem bind_eq_error {step : Traced σ α} {machine : Machine σ} {halt : Halt}
    (h : (step machine).2 = .error halt) (next : α → Traced σ β) :
    (step >>= next) machine = ((step machine).1, .error halt) := by
  rcases hstep : step machine with ⟨changes, result⟩
  rw [hstep] at h
  cases (h : result = .error halt)
  simp only [Bind.bind, hstep]

/-- From the second machine the step makes the same changes and ends in the same way as from the
first, unless there it misses a function. -/
def Matches (step : Traced σ α) (narrow wide : Machine σ) : Prop :=
  step wide = step narrow ∨
    ∃ name arity, (step narrow).2 = .error (.error (.functionNotDeclared name arity))

namespace Matches

variable {own : List Signature} {narrow wide : Machine σ}
variable {step : Traced σ α} {next : α → Traced σ β}

theorem pure (result : α) : Matches (pure result) narrow wide := .inl rfl

theorem halt (reason : Halt) : Matches (halt reason : Traced σ α) narrow wide := .inl rfl

theorem make (change : Change σ) : Matches (make change) narrow wide := .inl rfl

theorem lift (result : Except Cause α) : Matches (lift result) narrow wide := by
  cases result with
  | ok value => exact pure value
  | error cause => exact halt _

theorem view_bind {look : Machine σ → α} (hlook : look wide = look narrow)
    (h : Matches (next (look narrow)) narrow wide) :
    Matches (view look >>= next) narrow wide := by
  unfold Matches
  rw [Traced.view_bind, Traced.view_bind, hlook]
  exact h

theorem bind (hwide : Machine.Widened own narrow wide) (hstep : Matches step narrow wide)
    (hnext : ∀ result {narrow wide}, Machine.Widened own narrow wide →
      Matches (next result) narrow wide) : Matches (step >>= next) narrow wide := by
  obtain hsame | ⟨name, arity, hmissing⟩ := hstep
  · rcases hnarrow : step narrow with ⟨changes, reason | result⟩
    · left
      simp only [Bind.bind, hsame, hnarrow]
    · obtain hlast | ⟨name, arity, hmissing⟩ := hnext result (hwide.after changes)
      · left
        rw [bind_eq hnarrow, bind_eq (hsame.trans hnarrow), hlast]
      · right
        rw [bind_eq hnarrow]
        exact ⟨name, arity, hmissing⟩
  · right
    rw [bind_eq_error hmissing]
    exact ⟨name, arity, rfl⟩

theorem within {enter leave : Change σ}
    (h : Matches step (enter.apply narrow) (enter.apply wide)) :
    Matches (within enter leave step) narrow wide := by
  obtain hsame | hmissing := h
  · left
    simp only [Traced.within, hsame]
  · exact .inr hmissing

theorem slot (hwide : Machine.Widened own narrow wide) (name : String) :
    Matches (slot name) narrow wide := by
  apply view_bind (hwide.scopes.findVariable?_eq name)
  cases narrow.scopes.findVariable? name with
  | none => exact halt _
  | some found => exact pure found

theorem heap (hwide : Machine.Widened own narrow wide) (look : Heap → α) :
    Matches (view fun machine => look machine.heap) narrow wide := by
  left
  simp only [Traced.view, hwide.heap]

theorem declare (hwide : Machine.Widened own narrow wide) (name : String) (slot : Slot)
    (given : Bool) : Matches (declare name slot given) narrow wide := by
  apply view_bind
  · rw [hwide.scopes.current_vars]
  · split
    · exact halt _
    · exact make _

theorem requireIf (given : Bool) (target : Ty) (value : Value) :
    Matches (requireIf given target value) narrow wide := by
  cases given with
  | true => exact lift _
  | false => exact pure ()

theorem assign (hwide : Machine.Widened own narrow wide) (name : String) (value : Value) :
    Matches (assign name value) narrow wide := by
  apply (slot hwide name).bind hwide
  intro found narrow wide hwide
  apply (lift _).bind hwide
  intro _ narrow wide hwide
  split
  · exact make _
  · exact halt _

theorem assignElement (hwide : Machine.Widened own narrow wide) (name : String)
    (index value : Value) : Matches (assignElement name index value) narrow wide := by
  apply (slot hwide name).bind hwide
  intro found narrow wide hwide
  apply (lift _).bind hwide
  intro _ narrow wide hwide
  apply (lift _).bind hwide
  intro address narrow wide hwide
  have hposition : Matches (position address index) narrow wide := by
    apply view_bind
    · rw [hwide.heap]
    · exact lift _
  exact hposition.bind hwide fun _ _ _ _ => make _

theorem createList (hwide : Machine.Widened own narrow wide) (elements : List Value) :
    Matches (createList elements) narrow wide := by
  apply view_bind
  · rw [hwide.heap]
  · exact (make _).bind hwide fun _ _ _ _ => pure _

theorem runNative (hwide : Machine.Widened own narrow wide) (name : String) (run : Native σ)
    (arguments : List Value) : Matches (runNative name run arguments) narrow wide := by
  apply view_bind
  · rw [hwide.heap, hwide.host]
  · exact (make _).bind hwide fun _ _ _ _ => pure _

theorem returned (hwide : Machine.Widened own narrow wide) (f : Function) (flow : Flow) :
    Matches (returned f flow) narrow wide := by
  cases flow with
  | next => exact pure _
  | returning value =>
      have htype : Matches (returnType f.returnType) narrow wide := by
        cases f.returnType with
        | some name => exact lift _
        | none => exact pure _
      apply htype.bind hwide
      intro ty narrow wide hwide
      exact (lift _).bind hwide fun _ _ _ _ => pure _

end Matches

/-- Evaluation matches if calls do. -/
theorem Composed.matches {own : List Signature} {call : String → List Value → Traced σ Value}
    (hcall : ∀ name arguments {narrow wide : Machine σ}, Machine.Widened own narrow wide →
      Matches (call name arguments) narrow wide)
    {declares : Bool} {step : Traced σ α} (h : Composed call declares step)
    {narrow wide : Machine σ} (hwide : Machine.Widened own narrow wide) :
    Matches step narrow wide := by
  induction h generalizing narrow wide with
  | pure result => exact .pure result
  | halt reason => exact .halt reason
  | bind _ _ ihstep ihnext =>
      exact (ihstep hwide).bind hwide fun result _ _ hwide => ihnext result hwide
  | inBlock _ ih => exact .within (ih (hwide.apply .enterBlock))
  | slot name => exact .slot hwide name
  | heap look => exact .heap hwide look
  | introduce _ _ _ _ =>
      exact (Matches.requireIf _ _ _).bind hwide fun _ _ _ hwide => .declare hwide _ _ _
  | assign name value => exact .assign hwide name value
  | assignElement name index value => exact .assignElement hwide name index value
  | createList elements => exact .createList hwide elements
  | call name arguments => exact hcall name arguments hwide

theorem call_matches {own : List Signature} (policy : Division) (limit : Nat) (name : String)
    (arguments : List Value) {narrow wide : Machine σ} (hwide : Machine.Widened own narrow wide) :
    Matches (call policy limit name arguments) narrow wide := by
  induction limit generalizing name arguments narrow wide with
  | zero => exact .halt _
  | succ limit ih =>
      cases hfind : narrow.scopes.findFunction? ⟨name, arguments.length⟩ with
      | none =>
          right
          rw [call, Traced.view_bind, hfind]
          exact ⟨name, arguments.length, rfl⟩
      | some callable =>
          have hfind' := hwide.scopes.findFunction?_eq_some hfind
          apply Matches.view_bind (hfind'.trans hfind.symm)
          rw [hfind]
          cases callable with
          | native run => exact .runNative hwide name run arguments
          | user f =>
              have hbody := (Composed.body policy limit f arguments).matches ih
                (hwide.apply .enterFunction)
              have hflow : Matches (inFunction _) narrow wide := .within hbody
              exact hflow.bind hwide fun flow _ _ hwide => .returned hwide f flow

/-! ## Programs -/

theorem Matches.each {own : List Signature} {item : Type} {step : item → Traced σ Unit}
    {items : List item} (hstep : ∀ x ∈ items, ∀ {narrow wide : Machine σ},
      Machine.Widened own narrow wide → Matches (step x) narrow wide)
    {narrow wide : Machine σ} (hwide : Machine.Widened own narrow wide) :
    Matches (each step items) narrow wide := by
  induction items generalizing narrow wide with
  | nil => exact .pure ()
  | cons first rest ih =>
      obtain ⟨hfirst, hrest⟩ := List.forall_mem_cons.mp hstep
      exact (hfirst hwide).bind hwide fun _ _ _ hwide => ih hrest hwide

theorem requireAll_matches (target : Ty) (elements : List Value) {own : List Signature}
    {narrow wide : Machine σ} (hwide : Machine.Widened own narrow wide) :
    Matches (requireAll target elements) narrow wide := by
  induction elements generalizing narrow wide with
  | nil => exact .pure ()
  | cons first rest ih => exact (Matches.lift _).bind hwide fun _ _ _ hwide => ih hwide

theorem requireInitial_matches (g : Global) (ty : Ty) (value : Value) {own : List Signature}
    {narrow wide : Machine σ} (hwide : Machine.Widened own narrow wide) :
    Matches (requireInitial g ty value) narrow wide := by
  unfold requireInitial
  split
  · apply Matches.view_bind
    · rw [hwide.heap]
    · exact requireAll_matches _ _ hwide
  · exact .requireIf _ _ _

theorem global_matches (policy : Division) (limit : Nat) (g : Global) {own : List Signature}
    {narrow wide : Machine σ} (hwide : Machine.Widened own narrow wide) :
    Matches (global policy limit g) narrow wide := by
  apply (Matches.lift _).bind hwide
  intro ty narrow wide hwide
  have hinitial : Matches (initialValue policy limit g.initial) narrow wide := by
    cases g.initial with
    | none => exact .pure _
    | some e =>
        have hcomposed : Composed (call policy limit) false
            (expression policy (call policy limit) e : Traced σ Value) := .expression policy e
        exact hcomposed.matches (call_matches policy limit) hwide
  apply hinitial.bind hwide
  intro value narrow wide hwide
  apply (requireInitial_matches g ty value hwide).bind hwide
  intro _ narrow wide hwide
  exact .declare hwide _ _ _

theorem declareFunction_matches {f : Function} {own : List Signature}
    (hown : ⟨f.name, f.arity⟩ ∈ own) {narrow wide : Machine σ}
    (hwide : Machine.Widened own narrow wide) : Matches (declareFunction f) narrow wide := by
  apply Matches.view_bind
  · unfold Scopes.current
    rw [hwide.scopes.blocks]
    cases narrow.scopes.blocks with
    | nil => exact hwide.binds _ hown
    | cons block blocks => rfl
  · split
    · exact .halt _
    · exact .make _

/-- A program that misses no function runs in the same way where more functions are known, if none
of these has the signature of one of its own. -/
theorem program_matches (policy : Division) (limit : Nat) {p : Program} {own : List Signature}
    (hown : ∀ f ∈ p.functions, ⟨f.name, f.arity⟩ ∈ own) {narrow wide : Machine σ}
    (hwide : Machine.Widened own narrow wide) : Matches (program policy limit p) narrow wide := by
  have hglobals := Matches.each
    (fun g (_ : g ∈ p.globals) {_ _} hwide => global_matches policy limit g hwide) hwide
  apply hglobals.bind hwide
  intro _ narrow wide hwide
  have hfunctions := Matches.each
    (fun f hf {_ _} hwide => declareFunction_matches (hown f hf) hwide) hwide
  apply hfunctions.bind hwide
  intro _ narrow wide hwide
  exact call_matches policy limit "main" [] hwide

end Traced

end Scriptlet
