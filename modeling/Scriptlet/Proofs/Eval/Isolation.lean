import Scriptlet.Proofs.Eval.Functions

/-! # Calls are isolated from their callers

A call sees the global frame and the lists, and nothing of the frames that are in use when it is
made. So it does the same wherever it is made, and it leaves those frames as they are.
-/

namespace Scriptlet

variable {σ α β : Type}

/-- What the function returns and does to lists depends on its arguments and on the lists only. -/
def Builtin.Settled (builtin : Builtin σ) : Prop :=
  ∀ arguments heap host host',
    (builtin.run arguments heap host).1 = (builtin.run arguments heap host').1 ∧
      (builtin.run arguments heap host).2.1 = (builtin.run arguments heap host').2.1

theorem Builtin.settled_print (sink : String → σ → σ) : (print sink).Settled := by
  intro arguments heap host host'
  cases arguments <;> exact ⟨rfl, rfl⟩

/-! ## What a call leaves alone -/

namespace Scopes

/-- The activation that ends gives way to those that have waited. -/
theorem activations_leaveFunction {V F : Type} {scopes before : Scopes V F}
    (h : scopes.callers = before.activations) :
    scopes.leaveFunction.activations = before.activations := by
  unfold leaveFunction
  rw [h]
  rfl

theorem callers_addVariable {V F : Type} (scopes : Scopes V F) (name : String) (value : V) :
    (scopes.addVariable name value).callers = scopes.callers := by
  unfold addVariable setCurrent
  split <;> rfl

end Scopes

namespace Traced

/-- Whether changes leave the frames of waiting activations alone is seen from each by itself. -/
theorem regular_callers : Regular fun (machine : Machine σ) changes =>
    (machine.after changes).scopes.callers = machine.scopes.callers where
  nil _ := rfl
  append hfirst hsecond := by
    rw [Machine.after_append]
    exact hsecond.trans hfirst
  ordinary h := by
    cases h with
    | declare _ _ _ _ _ => exact Scopes.callers_addVariable _ _ _
    | store _ _ _ => exact Scopes.callers_modifyVariable _ _ _
    | createList _ => rfl
    | storeElement _ _ _ _ => rfl
  inBlock h := by
    rw [List.cons_append, Machine.after_cons, Machine.after_append]
    exact h

/-- A call leaves all frames above the global one as they are. -/
theorem activations_after_call (policy : Division) (limit : Nat) (name : String)
    (arguments : List Value) (machine : Machine σ) :
    (machine.after (call policy limit name arguments machine).1).scopes.activations =
      machine.scopes.activations := by
  induction limit generalizing name arguments machine with
  | zero => rfl
  | succ limit ih =>
      have hcallers (name : String) (arguments : List Value) (machine : Machine σ) :
          (machine.after (call policy limit name arguments machine).1).scopes.callers =
            machine.scopes.callers :=
        (List.cons.inj (ih name arguments machine)).2
      rcases call_changes machine policy limit name arguments with
        hnone | ⟨run, _, hone⟩ | ⟨body, hbody, hbetween⟩
      · rw [hnone]
        rfl
      · rw [hone]
        rfl
      · rw [hbetween, List.cons_append, Machine.after_cons, Machine.after_append]
        apply Scopes.activations_leaveFunction
        exact regular_callers.body hcallers hbody machine

end Traced

/-! ## What a call sees -/

/-- A call of the host, with the lists as the host sees them. -/
structure HostCall where
  name : String
  arguments : List Value
  heap : Heap
deriving DecidableEq, Repr

def Change.hostCalls (machine : Machine σ) : Change σ → List HostCall
  | native name _ arguments => [⟨name, arguments, machine.heap⟩]
  | _ => []

/-- The change is one of what the running activation sees, other than by the host. -/
def Change.isLocal : Change σ → Bool
  | enterBlock | leaveBlock | declare _ _ _ => true
  | store _ _ | createList _ | storeElement _ _ _ _ => true
  | enterFunction | leaveFunction | declareFunction _ | native _ _ _ => false

theorem Change.hostCalls_of_isLocal {change : Change σ} (h : change.isLocal = true)
    (machine : Machine σ) : change.hostCalls machine = [] := by
  cases change with
  | native name run arguments => cases h
  | _ => rfl

namespace Machine

/-- The calls of the host among changes that are made on the machine. -/
def hostCalls : Machine σ → List (Change σ) → List HostCall
  | _, [] => []
  | machine, change :: changes =>
      change.hostCalls machine ++ (change.apply machine).hostCalls changes

theorem hostCalls_append (machine : Machine σ) (first second : List (Change σ)) :
    machine.hostCalls (first ++ second) =
      machine.hostCalls first ++ (machine.after first).hostCalls second := by
  induction first generalizing machine with
  | nil => rfl
  | cons change changes ih => simp [hostCalls, ih]

/-- Machines with the same global frame and the same lists, whatever other frames they have. -/
structure Apart (builtins : List (Builtin σ)) (first second : Machine σ) : Prop where
  globals : first.scopes.globals = second.scopes.globals
  heap : first.heap = second.heap
  plain : Scopes.Plain builtins first.scopes
  plain' : Scopes.Plain builtins second.scopes

/-- Machines that differ in the waiting activations and in the host at most. -/
structure Alike (builtins : List (Builtin σ)) (first second : Machine σ) : Prop
    extends Apart builtins first second where
  blocks : first.scopes.blocks = second.scopes.blocks

namespace Alike

variable {builtins : List (Builtin σ)} {first second : Machine σ}

theorem visible (h : Alike builtins first second) :
    first.scopes.visible = second.scopes.visible := by
  unfold Scopes.visible
  rw [h.blocks, h.globals]

theorem findVariable? (h : Alike builtins first second) (name : String) :
    first.scopes.findVariable? name = second.scopes.findVariable? name := by
  unfold Scopes.findVariable?
  rw [h.visible]

theorem current (h : Alike builtins first second) :
    first.scopes.current = second.scopes.current := by
  unfold Scopes.current
  rw [h.blocks, h.globals]

/-- A change of what both machines see is the same change on both. -/
theorem apply (h : Alike builtins first second) {change : Change σ}
    (hlocal : change.isLocal = true) :
    Alike builtins (change.apply first) (change.apply second) := by
  have hplace (f : Function) (hchange : change = .declareFunction f) (blocks : Prop) : blocks := by
    subst hchange
    cases hlocal
  have hplain := h.plain.apply fun f hchange => hplace f hchange _
  have hplain' := h.plain'.apply fun f hchange => hplace f hchange _
  obtain ⟨⟨blocks, callers, globals⟩, heap, host⟩ := first
  obtain ⟨⟨blocks', callers', globals'⟩, heap', host'⟩ := second
  obtain ⟨⟨rfl, rfl, _, _⟩, rfl⟩ := h
  cases change with
  | enterBlock => exact ⟨⟨rfl, rfl, hplain, hplain'⟩, rfl⟩
  | leaveBlock => exact ⟨⟨rfl, rfl, hplain, hplain'⟩, rfl⟩
  | declare name slot given =>
      cases blocks with
      | nil => exact ⟨⟨rfl, rfl, hplain, hplain'⟩, rfl⟩
      | cons block blocks => exact ⟨⟨rfl, rfl, hplain, hplain'⟩, rfl⟩
  | store name value =>
      -- Where the variable is found depends only on the blocks, which both machines have.
      refine ⟨⟨?_, rfl, hplain, hplain'⟩, ?_⟩
      · simp only [Change.apply, Scopes.modifyVariable]
        split <;> rfl
      · simp only [Change.apply, Scopes.modifyVariable]
        split <;> rfl
  | createList elements => exact ⟨⟨rfl, rfl, hplain, hplain'⟩, rfl⟩
  | storeElement name address position value => exact ⟨⟨rfl, rfl, hplain, hplain'⟩, rfl⟩
  | _ => cases hlocal

theorem enter (h : Alike builtins first second) : Alike builtins first.enter second.enter := by
  have henter : Alike builtins (Change.enterBlock.apply first)
      (Change.enterBlock.apply second) := h.apply rfl
  exact henter

end Alike

theorem Apart.findFunction? {builtins : List (Builtin σ)} {first second : Machine σ}
    (h : Apart builtins first second) (signature : Signature) :
    first.scopes.findFunction? signature = second.scopes.findFunction? signature := by
  rw [h.plain.findFunction?, h.plain'.findFunction?, h.globals]

/-- A new activation sees nothing else than the global frame and the lists. -/
theorem Apart.enterFunction {builtins : List (Builtin σ)} {first second : Machine σ}
    (h : Apart builtins first second) :
    Alike builtins first.enterFunction second.enterFunction :=
  ⟨⟨h.globals, h.heap, h.plain.enterFunction, h.plain'.enterFunction⟩, rfl⟩

theorem Alike.leaveFunction {builtins : List (Builtin σ)} {first second : Machine σ}
    (h : Alike builtins first second) :
    Apart builtins first.leaveFunction second.leaveFunction := by
  have hglobals (scopes : RunScopes σ) : scopes.leaveFunction.globals = scopes.globals := by
    unfold Scopes.leaveFunction
    split <;> rfl
  refine ⟨?_, h.heap, h.plain.leaveFunction, h.plain'.leaveFunction⟩
  exact (hglobals _).trans (h.globals.trans (hglobals _).symm)

end Machine

namespace Traced

/-- From both machines the step ends in the same way and with the same calls of the host, and what
it leaves of the machines is related. -/
structure Agrees (related : Machine σ → Machine σ → Prop) (step : Traced σ α)
    (first second : Machine σ) : Prop where
  result : (step first).2 = (step second).2
  hostCalls : first.hostCalls (step first).1 = second.hostCalls (step second).1
  related : related (first.after (step first).1) (second.after (step second).1)

namespace Agrees

variable {related : Machine σ → Machine σ → Prop} {step : Traced σ α}
variable {next : α → Traced σ β} {first second : Machine σ} {builtins : List (Builtin σ)}

theorem pure (h : related first second) (result : α) :
    Agrees related (pure result) first second :=
  ⟨rfl, rfl, h⟩

theorem halt (h : related first second) (reason : Halt) :
    Agrees related (halt reason : Traced σ α) first second :=
  ⟨rfl, rfl, h⟩

theorem lift (h : related first second) (result : Except Cause α) :
    Agrees related (lift result) first second := by
  cases result with
  | ok value => exact pure h value
  | error cause => exact halt h _

theorem view (h : related first second) {look : Machine σ → α} (heq : look first = look second) :
    Agrees related (view look) first second :=
  ⟨congrArg Except.ok heq, rfl, h⟩

theorem view_bind {look : Machine σ → α} (heq : look first = look second)
    (h : Agrees related (next (look first)) first second) :
    Agrees related (Traced.view look >>= next) first second := by
  refine ⟨?_, ?_, ?_⟩
  · simpa [Bind.bind, Traced.view, heq] using h.result
  · simpa [Bind.bind, Traced.view, heq] using h.hostCalls
  · simpa [Bind.bind, Traced.view, heq] using h.related

theorem bind (hstep : Agrees related step first second)
    (hnext : ∀ result first second, related first second →
      Agrees related (next result) first second) :
    Agrees related (step >>= next) first second := by
  rcases hfirst : step first with ⟨changes, outcome⟩
  rcases hsecond : step second with ⟨changes', outcome'⟩
  obtain ⟨hresult, hcalls, hrelated⟩ := hstep
  rw [hfirst, hsecond] at hresult hcalls hrelated
  -- Both machines stop here, or both go on with the same result.
  cases (hresult : outcome = outcome')
  cases outcome with
  | error reason =>
      refine ⟨?_, ?_, ?_⟩ <;> simp only [Bind.bind, hfirst, hsecond]
      · exact hcalls
      · exact hrelated
  | ok result =>
      obtain ⟨hresult, hmore, hrelated⟩ := hnext result _ _ hrelated
      refine ⟨?_, ?_, ?_⟩ <;>
        simp only [Bind.bind, hfirst, hsecond, Machine.after_append, Machine.hostCalls_append]
      · exact hresult
      · rw [hcalls, hmore]
      · exact hrelated

theorem make (h : Machine.Alike builtins first second) {change : Change σ}
    (hlocal : change.isLocal = true) :
    Agrees (Machine.Alike builtins) (make change) first second := by
  refine ⟨rfl, ?_, h.apply hlocal⟩
  simp [Traced.make, Machine.hostCalls, Change.hostCalls_of_isLocal hlocal]

theorem slot (h : Machine.Alike builtins first second) (name : String) :
    Agrees (Machine.Alike builtins) (slot name) first second := by
  apply view_bind (h.findVariable? name)
  cases first.scopes.findVariable? name with
  | none => exact halt h _
  | some found => exact pure h found

theorem introduce (h : Machine.Alike builtins first second) (name : String) (slot : Slot)
    (given : Bool) :
    Agrees (Machine.Alike builtins) (introduce name slot given) first second := by
  apply Agrees.bind
  · cases given with
    | true => exact lift h _
    | false => exact pure h ()
  · intro _ first second h
    apply view_bind
    · rw [h.current]
    · split
      · exact halt h _
      · exact make h rfl

theorem assign (h : Machine.Alike builtins first second) (name : String) (value : Value) :
    Agrees (Machine.Alike builtins) (assign name value) first second := by
  apply (slot h name).bind
  intro found first second h
  apply (lift h _).bind
  intro _ first second h
  split
  · exact make h rfl
  · exact halt h _

theorem assignElement (h : Machine.Alike builtins first second) (name : String)
    (index value : Value) :
    Agrees (Machine.Alike builtins) (assignElement name index value) first second := by
  apply (slot h name).bind
  intro found first second h
  apply (lift h _).bind
  intro _ first second h
  apply (lift h _).bind
  intro address first second h
  apply Agrees.bind
  · apply view_bind
    · rw [h.heap]
    · exact lift h _
  · intro position first second h
    exact make h rfl

theorem createList (h : Machine.Alike builtins first second) (elements : List Value) :
    Agrees (Machine.Alike builtins) (createList elements) first second := by
  apply view_bind
  · rw [h.heap]
  · exact (make h rfl).bind fun _ _ _ h => pure h _

theorem runNative (hsettled : ∀ builtin ∈ builtins, builtin.Settled)
    (h : Machine.Apart builtins first second) {name : String} {run : Native σ}
    {arguments : List Value}
    (hfind : first.scopes.findFunction? ⟨name, arguments.length⟩ = some (.native run)) :
    Agrees (Machine.Apart builtins) (runNative name run arguments) first second := by
  obtain ⟨builtin, hmem, rfl⟩ := h.plain.exists_builtin hfind
  obtain ⟨hvalue, hheap⟩ := hsettled builtin hmem arguments first.heap first.host second.host
  rw [h.heap] at hvalue hheap
  refine ⟨?_, ?_, ?_⟩
  · change Except.ok (builtin.run arguments first.heap first.host).1 = _
    rw [h.heap, hvalue]
    rfl
  · change [HostCall.mk name arguments first.heap] = _
    rw [h.heap]
    rfl
  · refine ⟨h.globals, ?_, h.plain, h.plain'⟩
    change (builtin.run arguments first.heap first.host).2.1 = _
    rw [h.heap, hheap]
    rfl

theorem within {enter leave : Change σ} (henter : ∀ machine, enter.hostCalls machine = [])
    (hleave : ∀ machine, leave.hostCalls machine = [])
    {inner : Machine σ → Machine σ → Prop}
    (h : Agrees inner step (enter.apply first) (enter.apply second))
    (hrelated : ∀ first second, inner first second →
      related (leave.apply first) (leave.apply second)) :
    Agrees related (within enter leave step) first second := by
  have hcalls (machine : Machine σ) : machine.hostCalls (Traced.within enter leave step machine).1 =
      (enter.apply machine).hostCalls (step (enter.apply machine)).1 := by
    simp [Traced.within, Machine.hostCalls, Machine.hostCalls_append, henter, hleave]
  refine ⟨h.result, ?_, ?_⟩
  · rw [hcalls, hcalls]
    exact h.hostCalls
  · rw [after_within, after_within]
    exact hrelated _ _ h.related

end Agrees

/-- Evaluation does not see waiting activations if calls do not. -/
theorem Composed.agrees {builtins : List (Builtin σ)} {call : String → List Value → Traced σ Value}
    (hcall : ∀ name arguments {first second : Machine σ}, Machine.Alike builtins first second →
      Agrees (Machine.Alike builtins) (call name arguments) first second)
    {declares : Bool} {step : Traced σ α} (h : Composed call declares step)
    {first second : Machine σ} (halike : Machine.Alike builtins first second) :
    Agrees (Machine.Alike builtins) step first second := by
  induction h generalizing first second with
  | pure result => exact .pure halike result
  | halt reason => exact .halt halike reason
  | bind _ _ ihstep ihnext =>
      exact (ihstep halike).bind fun result _ _ halike => ihnext result halike
  | inBlock _ ih =>
      exact .within (fun _ => rfl) (fun _ => rfl) (ih halike.enter) fun _ _ h => h.apply rfl
  | slot name => exact .slot halike name
  | heap look => exact .view halike (congrArg look halike.heap)
  | introduce _ _ _ _ => exact .introduce halike _ _ _
  | assign name value => exact .assign halike name value
  | assignElement name index value => exact .assignElement halike name index value
  | createList elements => exact .createList halike elements
  | call name arguments => exact hcall name arguments halike

theorem returned_agrees {related : Machine σ → Machine σ → Prop} {first second : Machine σ}
    (h : related first second) (f : Function) (flow : Flow) :
    Agrees related (returned f flow) first second := by
  cases flow with
  | next => exact .pure h _
  | returning value =>
      apply Agrees.bind
      · cases f.returnType with
        | some name => exact .lift h _
        | none => exact .pure h _
      · intro ty first second h
        exact (Agrees.lift h _).bind fun _ _ _ h => .pure h value

/-- A call does the same on machines that have the same global frame and the same lists. -/
theorem call_agrees {builtins : List (Builtin σ)}
    (hsettled : ∀ builtin ∈ builtins, builtin.Settled) (policy : Division) (limit : Nat)
    (name : String) (arguments : List Value) {first second : Machine σ}
    (h : Machine.Apart builtins first second) :
    Agrees (Machine.Apart builtins) (call policy limit name arguments) first second := by
  induction limit generalizing name arguments first second with
  | zero => exact .halt h _
  | succ limit ih =>
      -- Inside an activation the blocks are the same as well, and a call leaves them so.
      have hcall (name : String) (arguments : List Value) {first second : Machine σ}
          (h : Machine.Alike builtins first second) :
          Agrees (Machine.Alike builtins) (call policy limit name arguments) first second := by
        obtain ⟨hresult, hcalls, hapart⟩ := ih name arguments h.toApart
        refine ⟨hresult, hcalls, hapart, ?_⟩
        have hkept (machine : Machine σ) :=
          (List.cons.inj (activations_after_call policy limit name arguments machine)).1
        exact (hkept first).trans (h.blocks.trans (hkept second).symm)
      apply Agrees.view_bind (h.findFunction? _)
      cases hfound : first.scopes.findFunction? ⟨name, arguments.length⟩ with
      | none => exact .halt h _
      | some callable =>
          cases callable with
          | native run => exact .runNative hsettled h hfound
          | user f =>
              have hbody := (Composed.body policy limit f arguments).agrees hcall h.enterFunction
              have hflow : Agrees (Machine.Apart builtins) (inFunction _) first second :=
                .within (fun _ => rfl) (fun _ => rfl) hbody fun _ _ h => h.leaveFunction
              exact hflow.bind fun flow _ _ h => returned_agrees h f flow

end Traced

/-! ## Isolation -/

/-- A call is isolated from its caller. On any two machines that runs of a program pass through and
that have the same global frame and the same lists, whatever other frames they have, a call ends in
the same way within every limit, with the same calls of the host, and leaves the same global frame
and the same lists. On each machine it leaves all other frames as they are. -/
theorem call_isolated {p : Program} {builtins : List (Builtin σ)} {policy : Division}
    (hsettled : ∀ builtin ∈ builtins, builtin.Settled) {first second : Machine σ}
    (hfirst : p.PassesThrough builtins policy first)
    (hsecond : p.PassesThrough builtins policy second)
    (hglobals : first.scopes.globals = second.scopes.globals) (hheap : first.heap = second.heap)
    (limit : Nat) (name : String) (arguments : List Value) :
    let call : Eval σ Value := Eval.call policy limit name arguments
    Eval.outcome call first = Eval.outcome call second ∧
    first.hostCalls (Traced.call policy limit name arguments first).1 =
      second.hostCalls (Traced.call policy limit name arguments second).1 ∧
    (Eval.final call first).scopes.globals = (Eval.final call second).scopes.globals ∧
    (Eval.final call first).heap = (Eval.final call second).heap ∧
    (Eval.final call first).scopes.activations = first.scopes.activations ∧
    (Eval.final call second).scopes.activations = second.scopes.activations := by
  obtain ⟨_, _, hpasses, rfl⟩ := hfirst
  obtain ⟨_, _, hpasses', rfl⟩ := hsecond
  have hapart := Machine.Apart.mk hglobals hheap hpasses.plain hpasses'.plain
  obtain ⟨hresult, hcalls, hapart⟩ := Traced.call_agrees hsettled policy limit name arguments hapart
  simp only [← Traced.run_call, (Traced.run_eq _ _).1, (Traced.run_eq _ _).2]
  exact ⟨hresult, hcalls, hapart.globals, hapart.heap,
    Traced.activations_after_call policy limit name arguments _,
    Traced.activations_after_call policy limit name arguments _⟩

/-- A function that reads and changes a global and prints it, called where `main` begins and behind
a local variable of `main` that hides that global. -/
theorem call_isolated_hidden :
    ∃ (p : Program) (first second : Machine (List String)),
      let builtins := [Builtin.print fun line lines => lines ++ [line]]
      let call : Eval (List String) Value := Eval.call .unscaled 2 "f" [.integer 7]
      p.PassesThrough builtins .unscaled first ∧ p.PassesThrough builtins .unscaled second ∧
      first.scopes.findVariable? "g" ≠ second.scopes.findVariable? "g" ∧
      Eval.outcome call second = .ok (.integer 1) ∧
      Eval.outcome call first = Eval.outcome call second ∧
      (Eval.final call first).scopes.globals = (Eval.final call second).scopes.globals ∧
      (Eval.final call second).scopes.activations = second.scopes.activations := by
  let p : Program :=
    ⟨[⟨1, "g", "Integer", true, some (.literal 0 (.integer 1))⟩],
      [⟨9, "f", ["n"], ["Integer"], some "Integer",
          [.declaration 3 "old" none (some (.access 2 "g")),
            .assignment (.access 4 "g") (.access 5 "n"),
            .expression (.call 7 "print" [.access 6 "g"]), .ret (.access 8 "old")]⟩,
        ⟨12, "main", [], [], none,
          [.declaration 11 "g" none (some (.literal 10 (.string "local")))]⟩]⟩
  let builtins : List (Builtin (List String)) := [.print fun line lines => lines ++ [line]]
  let start : Machine (List String) :=
    ⟨⟨[], [], [], [(⟨"print", 1⟩, .native (Builtin.print fun line lines => lines ++ [line]).run)]⟩,
      .empty, []⟩
  let changes := (Traced.program .unscaled 2 p start).1
  have hpasses (count : Nat) :
      p.PassesThrough builtins .unscaled (start.after (changes.take count)) :=
    ⟨start, _, ⟨rfl, rfl, 2, List.take_prefix count changes⟩, rfl⟩
  have hsettled (builtin : Builtin (List String)) (hmem : builtin ∈ builtins) : builtin.Settled :=
    List.mem_singleton.mp hmem ▸ Builtin.settled_print _
  -- The fourth change enters `main`, the fifth declares its local variable.
  have hlocal : changes[4]?.bind Change.declared? =
      some ("g", ⟨.string "local", .string, true, false, some (.declaration 11)⟩) := by
    decide +kernel
  obtain ⟨change, hchange, hdeclared⟩ := Option.bind_eq_some_iff.mp hlocal
  have hblocks : (start.after (changes.take 4)).scopes.blocks.isEmpty = false := by
    decide +kernel
  have hsecond : start.after (changes.take 5) = change.apply (start.after (changes.take 4)) := by
    rw [List.take_add_one, hchange, Machine.after_append]
    rfl
  have hsame : (start.after (changes.take 4)).scopes.globals =
        (start.after (changes.take 5)).scopes.globals ∧
      (start.after (changes.take 4)).heap = (start.after (changes.take 5)).heap := by
    rw [hsecond]
    generalize start.after (changes.take 4) = first at hblocks
    obtain ⟨⟨blocks, callers, globals⟩, heap, host⟩ := first
    cases change with
    | declare name slot given =>
        cases blocks with
        | nil => cases hblocks
        | cons block blocks => exact ⟨rfl, rfl⟩
    | _ => cases hdeclared
  obtain ⟨houtcome, _, hfinal, _, _, hkept⟩ := call_isolated hsettled (hpasses 4) (hpasses 5)
    hsame.1 hsame.2 2 "f" [.integer 7]
  refine ⟨p, _, _, hpasses 4, hpasses 5, ?_, ?_, houtcome, hfinal, hkept⟩
  · decide +kernel
  · decide +kernel

end Scriptlet
