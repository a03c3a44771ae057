import Scriptlet.Host
import Scriptlet.Proofs.Eval.Permitted

/-! # Histories of runs

The changes that a run has made up to a moment are its history. Every prefix of the changes of a run
is one, so the machines after histories are all those that a run passes through, whether it ends or
not.
-/

namespace Scriptlet

variable {σ : Type}

/-- A run of the program begins on the machine `start` and makes the changes of the history, and
then it ends or makes others. -/
structure Program.Passes (p : Program) (builtins : List (Builtin σ)) (policy : Division)
    (start : Machine σ) (history : List (Change σ)) : Prop where
  scopes : Builtin.runScopes builtins = .ok start.scopes
  heap : start.heap = .empty
  changes : ∃ limit, history <+: (Traced.program policy limit p start).1

/-- A run of the program passes through the machine. -/
def Program.PassesThrough (p : Program) (builtins : List (Builtin σ)) (policy : Division)
    (machine : Machine σ) : Prop :=
  ∃ start history, p.Passes builtins policy start history ∧ start.after history = machine

/-- A run passes through the machine that it leaves. -/
theorem Program.passesThrough_final (p : Program) {builtins : List (Builtin σ)} (policy : Division)
    (limit : Nat) {start : Machine σ} (hscopes : Builtin.runScopes builtins = .ok start.scopes)
    (hheap : start.heap = .empty) :
    p.PassesThrough builtins policy (Eval.final (Eval.program policy limit p) start) := by
  refine ⟨start, _, ⟨hscopes, hheap, limit, List.prefix_rfl⟩, ?_⟩
  rw [← Traced.run_program, (Traced.run_eq _ _).2]

/-! ## Where a run begins -/

/-- There is only the global frame, with functions of the host and nothing else. -/
structure Scopes.HostOnly (builtins : List (Builtin σ)) (scopes : RunScopes σ) : Prop where
  blocks : scopes.blocks = []
  callers : scopes.callers = []
  vars : scopes.globals.vars = []
  funs : ∀ entry ∈ scopes.globals.funs, ∃ builtin ∈ builtins, entry.2 = .native builtin.run

namespace Scopes.HostOnly

variable {builtins : List (Builtin σ)} {scopes scopes' : RunScopes σ}

theorem empty : HostOnly builtins (Scopes.empty : RunScopes σ) :=
  ⟨rfl, rfl, rfl, nofun⟩

theorem declareFunction (h : HostOnly builtins scopes) {builtin : Builtin σ}
    (hmem : builtin ∈ builtins)
    (hdeclare : scopes.declareFunction builtin.signature (.native builtin.run) = .ok scopes') :
    HostOnly builtins scopes' := by
  obtain ⟨_, rfl⟩ := declareFunction_eq_ok.mp hdeclare
  simp only [setCurrent, current, h.blocks, List.headD_nil]
  refine ⟨rfl, h.callers, h.vars, ?_⟩
  exact List.forall_mem_cons.mpr ⟨⟨builtin, hmem, rfl⟩, h.funs⟩

theorem of_runScopes (h : Builtin.runScopes builtins = .ok scopes) : HostOnly builtins scopes := by
  apply ((foldlM_eq_ok.mp h).preserves empty _).1
  intro before after builtin hmem hbefore hdeclare
  exact hbefore.declareFunction hmem hdeclare

end Scopes.HostOnly

/-! ## What holds all along a run -/

/-- What holds at first and is kept by every permitted change holds after permitted changes. -/
theorem Machine.Permits.keeps {good : Machine σ → Prop}
    (hstep : ∀ (machine : Machine σ) (change : Change σ), good machine →
      change.Permitted machine → good (change.apply machine))
    {machine : Machine σ} {changes : List (Change σ)} (h : machine.Permits changes)
    (hgood : good machine) : good (machine.after changes) := by
  induction changes generalizing machine with
  | nil => exact hgood
  | cons change changes ih => exact ih h.2 (hstep machine change hgood h.1)

/-- Every change in the history of a run is permitted. -/
theorem Program.Passes.permits {p : Program} {builtins : List (Builtin σ)} {policy : Division}
    {start : Machine σ} {history : List (Change σ)} (h : p.Passes builtins policy start history) :
    start.Permits history := by
  obtain ⟨limit, rest, hchanges⟩ := h.changes
  have hblocks := (Scopes.HostOnly.of_runScopes h.scopes).blocks
  have hpermits := Traced.program_permits policy limit p hblocks
  rw [← hchanges, Machine.permits_append] at hpermits
  exact hpermits.1

end Scriptlet
