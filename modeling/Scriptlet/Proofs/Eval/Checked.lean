import Scriptlet.Proofs.Eval.ProgramPreservation
import Scriptlet.Proofs.Syntax.ProgramSoundness

/-! # Runs of checked programs

A program that is checked and run with the functions of the same host starts in scopes that say the
same. So a discipline that admits the program holds from the start of its run to the end.
-/

namespace Scriptlet

variable {σ : Type}

/-! ## The functions of the host -/

namespace Builtin

/-- Only the global frame is there before a program is checked. -/
theorem atTop_of_staticScopes {builtins : List (Builtin σ)} {scopes : StaticScopes}
    (h : staticScopes builtins = .ok scopes) : Check.AtTop scopes := by
  have hempty : Check.AtTop Scopes.empty := by
    refine ⟨rfl, rfl, fun signature info hfind => ?_⟩
    cases hfind
  apply ((foldlM_eq_ok.mp h).preserves hempty _).1
  intro before after builtin _ hbefore hdeclare
  exact hbefore.declareFunction rfl hdeclare

end Builtin

namespace Discipline

variable {notes : Annotations} {policy : Division} {builtins : List (Builtin σ)}
variable (D : Discipline σ notes policy builtins)

/-- The functions of the host are declared in step. -/
theorem top_of_foldlM {rest : List (Builtin σ)} (hrest : ∀ builtin ∈ rest, builtin ∈ builtins)
    {scopes scopes' : StaticScopes} {run : RunScopes σ}
    (htop : D.Top [] scopes (run.mapVars Slot.outline)) (hslots : ∀ w, run.All (D.keeps w))
    (hstatic : rest.foldlM (fun scopes builtin =>
      scopes.declareFunction builtin.signature builtin.info) scopes = .ok scopes') :
    ∃ run', rest.foldlM (fun scopes builtin =>
        scopes.declareFunction builtin.signature (.native builtin.run)) run = .ok run' ∧
      D.Top [] scopes' (run'.mapVars Slot.outline) ∧ ∀ w, run'.All (D.keeps w) := by
  induction rest generalizing scopes run with
  | nil =>
      cases hstatic
      exact ⟨run, rfl, htop, hslots⟩
  | cons first rest ih =>
      obtain ⟨hfirst, hrest⟩ := List.forall_mem_cons.mp hrest
      rw [List.foldlM_cons] at hstatic
      cases hdeclare : scopes.declareFunction first.signature first.info with
      | error cause =>
          rw [hdeclare] at hstatic
          cases hstatic
      | ok middle =>
          rw [hdeclare] at hstatic
          have hcallable : (Callable.native first.run).Described builtins _ _ := .native hfirst
          obtain ⟨outline', houtline', _⟩ :=
            htop.inStep.declareFunction htop.blocks hdeclare hcallable
          obtain ⟨declared, hdeclared⟩ := Scopes.exists_declareFunction Slot.outline houtline'
          have htop := htop.declareFunction hdeclare hcallable nofun
            (Scopes.declareFunction_mapVars Slot.outline hdeclared)
          obtain ⟨run', hrun', h⟩ := ih hrest htop
            (fun w => (hslots w).declareFunction hdeclared) hstatic
          refine ⟨run', ?_, h⟩
          rw [List.foldlM_cons, hdeclared]
          exact hrun'

/-- A run starts in scopes that say what those of the typing say. -/
theorem exists_runScopes {scopes : StaticScopes} (h : Builtin.staticScopes builtins = .ok scopes) :
    ∃ run, Builtin.runScopes builtins = .ok run ∧ D.Top [] scopes (run.mapVars Slot.outline) ∧
      ∀ w, run.All (D.keeps w) := by
  exact D.top_of_foldlM (fun _ hmem => hmem) ⟨⟨.nil, .nil, .nil⟩, rfl, nofun⟩ (fun _ => .empty) h

end Discipline

/-! ## Checked programs -/

/-- A program is checked after the functions of its host have been declared. -/
theorem Program.check_eq_ok {p : Program} {builtins : List (Builtin σ)} {notes : Annotations} :
    p.check builtins = .ok notes ↔ ∃ start finish, Builtin.staticScopes builtins = .ok start ∧
      Check.program p (.start start) = .ok () finish ∧ finish.annotations = notes := by
  unfold Program.check Program.annotate
  cases hstart : Builtin.staticScopes builtins with
  | error cause => simp
  | ok start =>
      cases hresult : Check.program p (.start start) with
      | error cause finish => simp [hresult]
      | ok _ finish => simp [hresult]

/-- A check against the functions of a host gives derivations. -/
theorem Program.typed_of_check {p : Program} {builtins : List (Builtin σ)} {notes : Annotations}
    (h : p.check builtins = .ok notes) (hdistinct : Node.Distinct p.nodes)
    (hlength : ∀ f ∈ p.functions, f.parameterNames.length = f.parameterTypes.length) :
    ∃ start middle finish, Builtin.staticScopes builtins = .ok start ∧
      p.Typed notes start middle finish := by
  obtain ⟨start, typing, hstart, hok, rfl⟩ := Program.check_eq_ok.mp h
  have htop := Builtin.atTop_of_staticScopes hstart
  obtain ⟨middle, htyped⟩ := (Check.program_gives p start htop hdistinct hlength).of_ok hok
  exact ⟨start, middle, typing.scopes, hstart, htyped⟩

/-- What is known of a checked program that was read from tokens. -/
structure Checked (builtins : List (Builtin σ)) (p : Program) (notes : Annotations) : Prop where
  checked : p.check builtins = .ok notes
  distinct : Node.Distinct p.nodes
  wellFormed : p.WellFormed

theorem parse_eq_ok {text : String} {p : Program} (h : parse text = .ok p) :
    ∃ tokens, tokenize text = .ok tokens ∧ Program.ofTokens tokens = .ok p := by
  unfold parse at h
  cases htokens : tokenize text with
  | error error =>
      rw [htokens] at h
      cases h
  | ok tokens =>
      rw [htokens] at h
      exact ⟨tokens, rfl, h⟩

/-- The nodes of a program that is read are numbered apart, and its parts are well formed. -/
theorem wellFormed_of_ofTokens {tokens : List Token} {p : Program}
    (h : Program.ofTokens tokens = .ok p) : Node.Distinct p.nodes ∧ p.WellFormed := by
  obtain ⟨_, hreads, _, hwellFormed⟩ := Parse.program_of_ofTokens h
  exact ⟨hreads.nodup, hwellFormed⟩

theorem check_of_parse {text : String} {p : Program} (h : parse text = .ok p)
    (builtins : List (Builtin σ)) :
    check text builtins = (p.check builtins).map fun notes => (p, notes) := by
  have hbind : check text builtins = p.check builtins >>= fun notes => pure (p, notes) := by
    unfold check
    rw [h]
    rfl
  rw [hbind]
  cases p.check builtins with
  | error error => rfl
  | ok notes => rfl

/-- A text is checked if the program that it is read as is. -/
theorem parse_of_check {text : String} {builtins : List (Builtin σ)} {p : Program}
    {notes : Annotations} (h : check text builtins = .ok (p, notes)) :
    parse text = .ok p ∧ p.check builtins = .ok notes := by
  cases hparse : parse text with
  | error error =>
      unfold check at h
      rw [hparse] at h
      cases h
  | ok program =>
      rw [check_of_parse hparse] at h
      cases hcheck : program.check builtins with
      | error error =>
          rw [hcheck] at h
          cases h
      | ok annotations =>
          rw [hcheck] at h
          cases h
          exact ⟨rfl, hcheck⟩

theorem checked_of_ofTokens {tokens : List Token} {builtins : List (Builtin σ)} {p : Program}
    {notes : Annotations} (htokens : Program.ofTokens tokens = .ok p)
    (hcheck : p.check builtins = .ok notes) : Checked builtins p notes := by
  obtain ⟨hdistinct, hwellFormed⟩ := wellFormed_of_ofTokens htokens
  exact ⟨hcheck, hdistinct, hwellFormed⟩

theorem checked_of_check {text : String} {builtins : List (Builtin σ)} {p : Program}
    {notes : Annotations} (h : check text builtins = .ok (p, notes)) :
    Checked builtins p notes := by
  obtain ⟨hparse, hcheck⟩ := parse_of_check h
  obtain ⟨tokens, _, htokens⟩ := parse_eq_ok hparse
  exact checked_of_ofTokens htokens hcheck

/-- The functions of a checked program have as many names as types of parameters. -/
theorem Checked.parameters {builtins : List (Builtin σ)} {p : Program} {notes : Annotations}
    (h : Checked builtins p notes) :
    ∀ f ∈ p.functions, f.parameterNames.length = f.parameterTypes.length :=
  fun f hf => (h.wellFormed.functions f hf).parameters

/-- A checked program is typed, and its run starts in order. -/
theorem Discipline.exists_start {notes : Annotations} {policy : Division}
    {builtins : List (Builtin σ)} (D : Discipline σ notes policy builtins) {p : Program}
    (hchecked : Checked builtins p notes) {w : D.World} {host : σ}
    (hstore : D.store w .empty host) :
    ∃ start middle finish run, p.Typed notes start middle finish ∧
      Builtin.runScopes builtins = .ok run ∧
      D.Top [] start (Machine.outline ⟨run, .empty, host⟩) ∧ D.Holds w ⟨run, .empty, host⟩ := by
  obtain ⟨start, middle, finish, hstart, htyped⟩ :=
    Program.typed_of_check hchecked.checked hchecked.distinct hchecked.parameters
  obtain ⟨run, hrun, htop, hslots⟩ := D.exists_runScopes hstart
  exact ⟨start, middle, finish, run, htyped, hrun, htop, hslots w, hstore⟩

/-- A discipline that admits a checked program holds to the end of its run, which never fails to
start. If the run ends with a value, it is an integer. -/
theorem Discipline.run_ensured {notes : Annotations} {policy : Division}
    {builtins : List (Builtin σ)} (D : Discipline σ notes policy builtins) {p : Program}
    (hchecked : Checked builtins p notes)
    (hadmits : ∀ node ∈ p.nodes, D.admits node) {w : D.World} {host : σ}
    (hstore : D.store w .empty host) (limit : Nat) :
    match (p.run builtins policy limit host).outcome with
    | .value value => ∃ w', D.fits w' .integer value
    | .error error => error.stage = .runtime ∧ D.allows error.cause
    | .outOfFuel => True := by
  obtain ⟨start, middle, finish, run, htyped, hrun, htop, hholds⟩ := D.exists_start hchecked hstore
  have hensured : Ensures (Eval.program policy limit p) ⟨run, .empty, host⟩ _ _ :=
    program_runs htyped hadmits hchecked.parameters htop hholds
  unfold Program.run
  rw [hrun]
  simp only
  cases hresult : Eval.program policy limit p ⟨run, .empty, host⟩ with
  | ok value machine =>
      obtain ⟨w', _, hfits⟩ := hensured.of_ok hresult
      exact ⟨w', hfits⟩
  | error halt machine =>
      have hhalts := hensured.of_error hresult
      cases halt with
      | error cause => exact ⟨rfl, hhalts⟩
      | outOfFuel => exact trivial

end Scriptlet
