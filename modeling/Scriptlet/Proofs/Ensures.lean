/-! # What a step ensures

A step over a state either ends with a result or fails with an error, and leaves a state in both
cases. The rules below follow the way steps are put together, so that a fact about a whole step is
assembled from facts about its parts, without computing either.
-/

namespace Scriptlet

variable {ε σ α β : Type}

/-! ## Steps in sequence -/

section

variable {step : EStateM ε σ α} {next : α → EStateM ε σ β} {start middle finish : σ}

theorem bind_of_ok {result : α} (h : step start = .ok result middle) :
    (step >>= next) start = next result middle := by
  change EStateM.bind step next start = _
  unfold EStateM.bind
  rw [h]

theorem bind_of_error {error : ε} (h : step start = .error error finish) :
    (step >>= next) start = .error error finish := by
  change EStateM.bind step next start = _
  unfold EStateM.bind
  rw [h]

/-- Two steps in sequence end with a result if the first does and the second from there. -/
theorem bind_eq_ok {last : β} : (step >>= next) start = .ok last finish ↔
    ∃ result middle, step start = .ok result middle ∧ next result middle = .ok last finish := by
  cases hstep : step start with
  | ok result middle =>
      rw [bind_of_ok hstep]
      constructor
      · intro h
        exact ⟨result, middle, rfl, h⟩
      · intro h
        obtain ⟨_, _, hsame, h⟩ := h
        cases hsame
        exact h
  | error error middle =>
      rw [bind_of_error hstep]
      constructor
      · intro h
        cases h
      · intro h
        obtain ⟨_, _, hok, _⟩ := h
        cases hok

end

/-! ## What a step ensures -/

/-- Taken from `start`, the step ends with a result and a state of which `good` holds, or fails
with an error and a state of which `bad` holds. -/
def Ensures (step : EStateM ε σ α) (start : σ) (good : α → σ → Prop) (bad : ε → σ → Prop) : Prop :=
  match step start with
  | .ok result finish => good result finish
  | .error error finish => bad error finish

/-- Whenever the step ends with a result, `good` holds of it and of the state it leaves. -/
abbrev Gives (step : EStateM ε σ α) (start : σ) (good : α → σ → Prop) : Prop :=
  Ensures step start good fun _ _ => True

namespace Ensures

variable {step : EStateM ε σ α} {next : α → EStateM ε σ β} {start finish : σ}
variable {good middle : α → σ → Prop} {last : β → σ → Prop} {bad : ε → σ → Prop}

theorem of_ok (h : Ensures step start good bad) {result : α}
    (hok : step start = .ok result finish) : good result finish := by
  simpa only [Ensures, hok] using h

theorem of_error (h : Ensures step start good bad) {error : ε}
    (herror : step start = .error error finish) : bad error finish := by
  simpa only [Ensures, herror] using h

theorem weaken {good' : α → σ → Prop} {bad' : ε → σ → Prop} (h : Ensures step start good bad)
    (hgood : ∀ result finish, good result finish → good' result finish)
    (hbad : ∀ error finish, bad error finish → bad' error finish) :
    Ensures step start good' bad' := by
  unfold Ensures at h ⊢
  split
  next hok => simp only [hok] at h; exact hgood _ _ h
  next herror => simp only [herror] at h; exact hbad _ _ h

theorem imp {good' : α → σ → Prop} (h : Ensures step start good bad)
    (hgood : ∀ result finish, good result finish → good' result finish) :
    Ensures step start good' bad :=
  h.weaken hgood fun _ _ hbad => hbad

theorem both {good' : α → σ → Prop} {bad' : ε → σ → Prop} (h : Ensures step start good bad)
    (h' : Ensures step start good' bad') :
    Ensures step start (fun result finish => good result finish ∧ good' result finish)
      fun error finish => bad error finish ∧ bad' error finish := by
  unfold Ensures at h h' ⊢
  split
  next hok => simp only [hok] at h h'; exact ⟨h, h'⟩
  next herror => simp only [herror] at h h'; exact ⟨h, h'⟩

theorem pure {result : α} (h : good result start) :
    Ensures (pure result : EStateM ε σ α) start good bad := h

theorem bind (hstep : Ensures step start middle bad)
    (hnext : ∀ result finish, middle result finish → Ensures (next result) finish last bad) :
    Ensures (step >>= next) start last bad := by
  unfold Ensures at hstep ⊢
  change match EStateM.bind step next start with
    | .ok result finish => last result finish
    | .error error finish => bad error finish
  unfold EStateM.bind
  split at hstep
  next hok => simpa only [hok, Ensures] using hnext _ _ hstep
  next herror => simpa only [herror] using hstep

theorem bind_of_eq_ok {result : α} (hok : step start = .ok result finish)
    (hnext : Ensures (next result) finish last bad) : Ensures (step >>= next) start last bad := by
  unfold Ensures
  rw [bind_of_ok hok]
  exact hnext

/-- Steps that relate every state to what they leave of it, however they end. -/
theorem bind_trans {R : σ → σ → Prop}
    (hstep : Ensures step start (fun _ finish => R start finish) fun _ finish => R start finish)
    (hnext : ∀ result middle, Ensures (next result) middle (fun _ finish => R middle finish)
      fun _ finish => R middle finish)
    (htrans : ∀ {first second third}, R first second → R second third → R first third) :
    Ensures (step >>= next) start (fun _ finish => R start finish)
      fun _ finish => R start finish := by
  apply hstep.bind
  intro result middle hmiddle
  exact (hnext result middle).weaken (fun _ _ => htrans hmiddle) fun _ _ => htrans hmiddle

theorem get_bind {next : σ → EStateM ε σ β} (h : Ensures (next start) start last bad) :
    Ensures (MonadState.get >>= next) start last bad := h

/-- A step ensures that it does what it does. -/
theorem self (step : EStateM ε σ α) (start : σ) :
    Ensures step start (fun result finish => step start = .ok result finish)
      fun error finish => step start = .error error finish := by
  unfold Ensures
  split
  next hok => exact hok
  next herror => exact herror

/-- What holds whenever the step ends with a result, when nothing is asked of its errors. -/
theorem of_forall (h : ∀ result finish, step start = .ok result finish → good result finish) :
    Ensures step start good fun _ _ => True := by
  unfold Ensures
  split
  next hok => exact h _ _ hok
  next => trivial

end Ensures

end Scriptlet
