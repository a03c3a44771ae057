import Scriptlet.Eval.Program
import Scriptlet.Proofs.Eval.Outline

/-! # How steps halt

Steps in sequence halt where the first of them halts that has no result. Only calls and loops use
fuel: every other step of a machine ends with a result or an error, whatever it starts from.
-/

namespace Scriptlet.Eval

variable {σ α β : Type}

/-- Taken from the machine, the step has no result, for the given reason. -/
def Halts (step : Eval σ α) (machine : Machine σ) (halt : Halt) : Prop :=
  ∃ finish, step machine = .error halt finish

section

variable {step : Eval σ α} {next : α → Eval σ β} {machine middle : Machine σ} {halt : Halt}

theorem Halts.bind (h : Halts step machine halt) : Halts (step >>= next) machine halt := by
  obtain ⟨finish, herror⟩ := h
  exact ⟨finish, bind_of_error herror⟩

/-- After a step with a result, the sequence halts if the rest does. -/
theorem Halts.after {result : α} (hok : step machine = .ok result middle)
    (h : Halts (next result) middle halt) : Halts (step >>= next) machine halt := by
  obtain ⟨finish, herror⟩ := h
  exact ⟨finish, (bind_of_ok hok).trans herror⟩

theorem halts_bind : Halts (step >>= next) machine halt ↔ Halts step machine halt ∨
    ∃ result middle, step machine = .ok result middle ∧ Halts (next result) middle halt := by
  constructor
  · rintro ⟨finish, herror⟩
    cases hstep : step machine with
    | ok result middle =>
        rw [bind_of_ok hstep] at herror
        exact .inr ⟨result, middle, rfl, finish, herror⟩
    | error _ _ =>
        rw [bind_of_error hstep] at herror
        cases herror
        exact .inl ⟨finish, hstep⟩
  · rintro (h | ⟨result, middle, hok, h⟩)
    · exact h.bind
    · exact h.after hok

theorem not_halts_of_ok {result : α} (hok : step machine = .ok result middle) :
    ¬ Halts step machine halt := by
  rintro ⟨finish, herror⟩
  cases hok.symm.trans herror

theorem halts_get_bind {next : Machine σ → Eval σ β} :
    Halts (get >>= next) machine halt ↔ Halts (next machine) machine halt := .rfl

theorem halts_within {enter leave : RunScopes σ → RunScopes σ} :
    Halts (within enter leave step) machine halt ↔
      Halts step { machine with scopes := enter machine.scopes } halt := by
  unfold Halts within
  cases step { machine with scopes := enter machine.scopes } with
  | ok result finish => simp
  | error halt' finish => simp

/-- A step in a block of its own halts as it does from within the block. -/
theorem halts_inBlock : Halts (inBlock step) machine halt ↔ Halts step machine.enter halt :=
  halts_within

theorem halts_inFunction :
    Halts (inFunction step) machine halt ↔ Halts step machine.enterFunction halt :=
  halts_within

end

theorem lift_eq_ok {result : Except Cause α} {value : α} {machine finish : Machine σ} :
    lift result machine = .ok value finish ↔ result = .ok value ∧ finish = machine := by
  cases result with
  | ok value' =>
      constructor
      · intro h
        cases h
        exact ⟨rfl, rfl⟩
      · rintro ⟨⟨⟩, rfl⟩
        rfl
  | error cause =>
      constructor
      · intro h
        cases h
      · rintro ⟨⟨⟩, _⟩

/-! ## Steps that use no fuel -/

/-- The step never runs out of fuel. -/
def Lasts (step : Eval σ α) : Prop :=
  ∀ machine, ¬ Halts step machine .outOfFuel

namespace Lasts

theorem ensures {step : Eval σ α} (h : Lasts step) (machine : Machine σ) :
    Ensures step machine (fun _ _ => True) fun halt _ => halt ≠ .outOfFuel := by
  refine (Ensures.self step machine).weaken (fun _ _ _ => trivial) ?_
  rintro halt finish herror rfl
  exact h machine ⟨finish, herror⟩

theorem of_ok {step : Eval σ α}
    (h : ∀ machine, ∃ result finish, step machine = .ok result finish) : Lasts step := by
  intro machine
  obtain ⟨result, finish, hok⟩ := h machine
  exact not_halts_of_ok hok

theorem pure (result : α) : Lasts (pure result : Eval σ α) :=
  .of_ok fun machine => ⟨result, machine, rfl⟩

theorem fail (cause : Cause) : Lasts (fail cause : Eval σ α) := by
  rintro machine ⟨finish, herror⟩
  cases herror

theorem lift (result : Except Cause α) : Lasts (lift result : Eval σ α) := by
  cases result with
  | ok result => exact pure result
  | error cause => exact fail cause

theorem modify (change : Machine σ → Machine σ) : Lasts (modify change : Eval σ PUnit) :=
  .of_ok fun machine => ⟨_, change machine, rfl⟩

theorem set (machine : Machine σ) : Lasts (set machine : Eval σ PUnit) :=
  .of_ok fun _ => ⟨_, machine, rfl⟩

theorem bind {step : Eval σ α} {next : α → Eval σ β} (hstep : Lasts step)
    (hnext : ∀ result, Lasts (next result)) : Lasts (step >>= next) := by
  intro machine h
  obtain h | ⟨result, middle, _, h⟩ := halts_bind.mp h
  · exact hstep machine h
  · exact hnext result middle h

theorem get_bind {next : Machine σ → Eval σ β} (hnext : ∀ machine, Lasts (next machine)) :
    Lasts (get >>= next) :=
  fun machine => hnext machine machine

end Lasts

/-- If the rest uses no fuel, it is the first step that runs out. -/
theorem Halts.of_bind {step : Eval σ α} {next : α → Eval σ β} {machine : Machine σ}
    (h : Halts (step >>= next) machine .outOfFuel) (hnext : ∀ result, Lasts (next result)) :
    Halts step machine .outOfFuel := by
  obtain h | ⟨result, middle, _, h⟩ := halts_bind.mp h
  · exact h
  · exact absurd h (hnext result middle)

/-! ## Elementary steps -/

theorem slot_lasts (name : String) : Lasts (slot name : Eval σ Slot) := by
  apply Lasts.get_bind
  intro machine
  split
  · exact .pure _
  · exact .fail _

theorem declare_lasts (name : String) (slot : Slot) : Lasts (declare name slot : Eval σ Unit) :=
  .get_bind fun _ => (Lasts.lift _).bind fun _ => .set _

theorem store_lasts (name : String) (value : Value) : Lasts (store name value : Eval σ Unit) :=
  .modify _

theorem createList_lasts (elements : List Value) : Lasts (createList elements : Eval σ Value) :=
  .get_bind fun _ => (Lasts.set _).bind fun _ => .pure _

theorem position_lasts (address : Address) (index : Value) :
    Lasts (position address index : Eval σ Nat) :=
  .get_bind fun _ => .lift _

theorem elementAt_lasts (address : Address) (index : Value) :
    Lasts (elementAt address index : Eval σ Value) :=
  (position_lasts address index).bind fun _ => .get_bind fun _ => .pure _

theorem storeElement_lasts (address : Address) (index value : Value) :
    Lasts (storeElement address index value : Eval σ Unit) :=
  (position_lasts address index).bind fun _ => .modify _

theorem require_lasts (target : Ty) (value : Value) :
    Lasts (require target value : Eval σ Unit) := .lift _

theorem requireIf_lasts (checked : Bool) (target : Ty) (value : Value) :
    Lasts (requireIf checked target value : Eval σ Unit) := by
  cases checked with
  | true => exact require_lasts target value
  | false => exact .pure _

theorem resolve_lasts (name : String) : Lasts (resolve name : Eval σ Ty) := .lift _

theorem runNative_lasts (run : Native σ) (arguments : List Value) :
    Lasts (runNative run arguments : Eval σ Value) :=
  .of_ok fun _ => ⟨_, _, rfl⟩

theorem slotType_lasts (value : Value) (typeName : Option String) :
    Lasts (slotType value typeName : Eval σ Ty) := by
  cases typeName with
  | some name => exact resolve_lasts name
  | none => exact .pure _

theorem parameters_lasts (function : NodeId) (index : Nat) (names typeNames : List String)
    (values : List Value) :
    Lasts (parameters function index names typeNames values : Eval σ Unit) := by
  fun_induction parameters (σ := σ) function index names typeNames values with
  | case1 index name names typeName typeNames value values ih =>
      apply (resolve_lasts typeName).bind
      intro ty
      apply (require_lasts ty value).bind
      intro _
      exact (declare_lasts _ _).bind fun _ => ih
  | case2 => exact .pure _

theorem returned_lasts (f : Function) (flow : Flow) : Lasts (returned f flow : Eval σ Value) := by
  cases flow with
  | next => exact .pure _
  | returning value =>
      have htype : Lasts (returnType f.returnType : Eval σ Ty) := by
        cases f.returnType with
        | some name => exact resolve_lasts name
        | none => exact .pure _
      apply htype.bind
      intro ty
      exact (require_lasts ty value).bind fun _ => .pure _

theorem requireInitial_lasts (g : Global) (ty : Ty) (value : Value) :
    Lasts (requireInitial g ty value : Eval σ Unit) := by
  have hall (values : List Value) : Lasts (requireAll ty values : Eval σ Unit) := by
    induction values with
    | nil => exact .pure _
    | cons value values ih => exact (require_lasts ty value).bind fun _ => ih
  unfold requireInitial
  split
  · exact .get_bind fun _ => hall _
  · exact requireIf_lasts _ _ _

theorem declareFunction_lasts (f : Function) : Lasts (declareFunction f : Eval σ Unit) :=
  .get_bind fun _ => (Lasts.lift _).bind fun _ => .set _

/-- A step that is taken for one item after the other halts at the first item for which it does. -/
theorem halts_each {step : α → Eval σ Unit} {items : List α} {machine : Machine σ} {halt : Halt} :
    Halts (each step items) machine halt ↔ ∃ before item after middle,
      items = before ++ item :: after ∧ each step before machine = .ok () middle ∧
        Halts (step item) middle halt := by
  induction items generalizing machine with
  | nil =>
      constructor
      · intro h
        exact absurd h (not_halts_of_ok rfl)
      · rintro ⟨before, item, after, _, hitems, _⟩
        cases before <;> cases hitems
  | cons first rest ih =>
      constructor
      · intro h
        obtain h | ⟨_, middle, hfirst, h⟩ := halts_bind.mp h
        · exact ⟨[], first, rest, machine, rfl, rfl, h⟩
        · obtain ⟨before, item, after, finish, rfl, hbefore, h⟩ := ih.mp h
          exact ⟨first :: before, item, after, finish, rfl, (bind_of_ok hfirst).trans hbefore, h⟩
      · rintro ⟨before, item, after, middle, hitems, hbefore, h⟩
        cases before with
        | nil =>
            cases hitems
            cases hbefore
            exact h.bind
        | cons _ before =>
            cases hitems
            obtain ⟨_, finish, hfirst, hbefore⟩ := bind_eq_ok.mp hbefore
            exact .after hfirst (ih.mpr ⟨before, item, after, middle, rfl, hbefore, h⟩)

end Scriptlet.Eval
