import Scriptlet.Proofs.Eval.Names
import Scriptlet.Proofs.Eval.Widening

/-! # What a host sees of a run

A host sees how a run ends, the lists that it leaves, and the calls that it makes of the host's
functions on the way. Runs of different programs, or with different functions of the host, can look
the same to it.
-/

namespace Scriptlet

variable {σ α β : Type}

/-- The calls of the host that a run of the program makes, in their order. -/
def Program.hostCalls (p : Program) (builtins : List (Builtin σ)) (policy : Division) (limit : Nat)
    (host : σ) : List HostCall :=
  match Builtin.runScopes builtins with
  | .error _ => []
  | .ok scopes =>
      let start : Machine σ := ⟨scopes, .empty, host⟩
      start.hostCalls (Traced.program policy limit p start).1

/-- The outcome of a run whose last step ends in the given way. -/
def Outcome.ofResult : Except Halt Value → Outcome
  | .ok result => .value result
  | .error (.error cause) => .error ⟨cause, .runtime⟩
  | .error .outOfFuel => .outOfFuel

namespace Traced

theorem ofResult_run (step : Traced σ Value) (machine : Machine σ) :
    Run.ofResult (step.run machine) =
      ⟨.ofResult (step machine).2, (machine.after (step machine).1).heap,
        (machine.after (step machine).1).host⟩ := by
  unfold run
  rcases step machine with ⟨changes, halt | value⟩
  · cases halt with
    | error cause => rfl
    | outOfFuel => rfl
  · rfl

/-- The two steps, each taken from its machine, look the same to a host. -/
structure Alike (step : Traced σ α) (machine : Machine σ) (step' : Traced σ α)
    (machine' : Machine σ) : Prop where
  result : (step' machine').2 = (step machine).2
  hostCalls : machine'.hostCalls (step' machine').1 = machine.hostCalls (step machine).1
  heap : (machine'.after (step' machine').1).heap = (machine.after (step machine).1).heap
  host : (machine'.after (step' machine').1).host = (machine.after (step machine).1).host

namespace Alike

variable {machine machine' : Machine σ}

/-- Steps look the same if they make the same changes on a machine and on a wider one. -/
theorem of_eq {own : List Signature} (hwide : Machine.Widened own machine machine')
    {step step' : Traced σ α} (h : step' machine' = step machine) :
    Alike step machine step' machine' where
  result := congrArg Prod.snd h
  hostCalls := by rw [h, hwide.hostCalls]
  heap := by rw [h, (hwide.after _).heap]
  host := by rw [h, (hwide.after _).host]

/-- What comes after steps that look the same. -/
theorem bind {step step' : Traced σ α} {next next' : α → Traced σ β}
    {changes changes' : List (Change σ)} {result : α} (hstep : step machine = (changes, .ok result))
    (hstep' : step' machine' = (changes', .ok result))
    (hcalls : machine'.hostCalls changes' = machine.hostCalls changes)
    (hnext : Alike (next result) (machine.after changes) (next' result)
      (machine'.after changes')) :
    Alike (step >>= next) machine (step' >>= next') machine' := by
  obtain ⟨hresult, hmore, hheap, hhost⟩ := hnext
  constructor
  · rw [bind_eq hstep, bind_eq hstep']
    exact hresult
  · rw [bind_eq hstep, bind_eq hstep', Machine.hostCalls_append, Machine.hostCalls_append, hcalls,
      hmore]
  · rw [bind_eq hstep, bind_eq hstep', Machine.after_append, Machine.after_append]
    exact hheap
  · rw [bind_eq hstep, bind_eq hstep', Machine.after_append, Machine.after_append]
    exact hhost

theorem ofResult_eq {step step' : Traced σ Value} (h : Alike step machine step' machine') :
    Run.ofResult (step'.run machine') = Run.ofResult (step.run machine) := by
  rw [ofResult_run, ofResult_run, h.result, h.heap, h.host]

end Alike

end Traced

/-! ## Runs of programs -/

variable {builtins builtins' : List (Builtin σ)} {scopes scopes' : RunScopes σ}

/-- Programs whose runs look the same to the host. -/
theorem Traced.Alike.program {policy : Division} {limit : Nat} {host : σ} {p p' : Program}
    (hscopes : Builtin.runScopes builtins = .ok scopes)
    (hscopes' : Builtin.runScopes builtins' = .ok scopes')
    (h : Alike (Traced.program policy limit p) ⟨scopes, .empty, host⟩
      (Traced.program policy limit p') ⟨scopes', .empty, host⟩) :
    p'.run builtins' policy limit host = p.run builtins policy limit host ∧
      p'.hostCalls builtins' policy limit host = p.hostCalls builtins policy limit host := by
  unfold Program.run Program.hostCalls
  rw [hscopes, hscopes', ← Traced.run_program, ← Traced.run_program]
  exact ⟨h.ofResult_eq, h.hostCalls⟩

/-- A checked program starts, and it fails because of values only. -/
theorem Checked.exists_runScopes {p : Program} {notes : Annotations}
    (hchecked : Checked builtins p notes) :
    ∃ scopes, Builtin.runScopes builtins = .ok scopes ∧
      ∀ policy limit host cause,
        (Traced.program policy limit p ⟨scopes, .empty, host⟩).2 = .error (.error cause) →
          cause.isOfValues = true := by
  obtain ⟨start, _, _, hstart, _⟩ :=
    Program.typed_of_check hchecked.checked hchecked.distinct hchecked.parameters
  obtain ⟨scopes, hscopes, _⟩ :=
    (Discipline.names p notes .unscaled builtins).exists_runScopes hstart
  refine ⟨scopes, hscopes, ?_⟩
  intro policy limit host cause hresult
  have hstore : (Discipline.names p notes policy builtins).store () .empty host := trivial
  have hrun := (Discipline.names p notes policy builtins).run_ensured hchecked
    (fun _ hnode => hnode) hstore limit
  have houtcome : (p.run builtins policy limit host).outcome = .error ⟨cause, .runtime⟩ := by
    unfold Program.run
    rw [hscopes, ← Traced.run_program]
    simp only [Traced.ofResult_run, hresult, Outcome.ofResult]
  rw [houtcome] at hrun
  exact hrun.2

end Scriptlet
