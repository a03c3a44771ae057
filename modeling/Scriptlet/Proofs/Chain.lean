/-! # Steps along a list

A relation between the states before and after one item, followed along all items of a list. Steps
that commute can be taken in any order.
-/

namespace Scriptlet

/-- A relation on states followed along a list of items. -/
inductive Chain {τ α : Type} (Step : τ → α → τ → Prop) : τ → List α → τ → Prop
  | nil {state : τ} : Chain Step state [] state
  | cons {start middle finish : τ} {first : α} {rest : List α} :
      Step start first middle → Chain Step middle rest finish →
        Chain Step start (first :: rest) finish

/-- A chain along a list runs through its parts. -/
theorem Chain.split {τ α : Type} {Step : τ → α → τ → Prop} {start finish : τ}
    {before after : List α} {item : α} (h : Chain Step start (before ++ item :: after) finish) :
    ∃ middle next, Chain Step start before middle ∧ Step middle item next := by
  induction before generalizing start with
  | nil =>
      cases h with
      | cons hitem _ => exact ⟨_, _, .nil, hitem⟩
  | cons first rest ih =>
      cases h with
      | cons hfirst hrest =>
          obtain ⟨middle, next, hrest, hitem⟩ := ih hrest
          exact ⟨middle, next, .cons hfirst hrest, hitem⟩

/-- What each step along a chain preserves holds at its end and wherever an item is come to. -/
theorem Chain.preserves {τ α : Type} {Step : τ → α → τ → Prop} {holds : τ → Prop} {items : List α}
    {start finish : τ} (h : Chain Step start items finish) (hstart : holds start)
    (hstep : ∀ {before after}, ∀ item ∈ items, holds before → Step before item after →
      holds after) :
    holds finish ∧ ∀ item ∈ items, ∃ before after, holds before ∧ Step before item after := by
  induction h with
  | nil => exact ⟨hstart, by simp⟩
  | @cons start middle finish first rest hfirst _ ih =>
      have hmiddle := hstep first List.mem_cons_self hstart hfirst
      obtain ⟨hfinish, hrest⟩ :=
        ih hmiddle fun item hitem => hstep item (List.mem_cons_of_mem first hitem)
      exact ⟨hfinish, List.forall_mem_cons.mpr ⟨⟨start, middle, hstart, hfirst⟩, hrest⟩⟩

theorem Chain.concat {τ α : Type} {Step : τ → α → τ → Prop} {start middle finish : τ}
    {items : List α} {last : α} (h : Chain Step start items middle)
    (hlast : Step middle last finish) : Chain Step start (items ++ [last]) finish := by
  induction h with
  | nil => exact .cons hlast .nil
  | cons hfirst _ ih => exact .cons hfirst (ih hlast)

/-! ## Folds -/

section

variable {ε τ α : Type} {step : τ → α → Except ε τ} {items : List α} {start finish : τ}

/-- A fold that can fail is a chain of steps that do not. -/
theorem foldlM_eq_ok : items.foldlM step start = .ok finish ↔
    Chain (fun state item next => step state item = .ok next) start items finish := by
  induction items generalizing start with
  | nil =>
      constructor
      · intro h
        cases h
        exact .nil
      · intro h
        cases h
        rfl
  | cons first rest ih =>
      rw [List.foldlM_cons]
      constructor
      · intro h
        cases hfirst : step start first with
        | error error =>
            rw [hfirst] at h
            cases h
        | ok middle =>
            rw [hfirst] at h
            exact .cons hfirst (ih.mp h)
      · intro h
        cases h with
        | cons hfirst hrest =>
            rw [hfirst]
            exact ih.mpr hrest

/-- A fold fails with the first item that makes it fail. -/
theorem exists_chain_of_foldlM_error {error : ε} (h : items.foldlM step start = .error error) :
    ∃ before item after state, items = before ++ item :: after ∧
      Chain (fun state item next => step state item = .ok next) start before state ∧
      step state item = .error error := by
  induction items generalizing start with
  | nil => cases h
  | cons first rest ih =>
      rw [List.foldlM_cons] at h
      cases hfirst : step start first with
      | error error' =>
          rw [hfirst] at h
          cases h
          exact ⟨[], first, rest, start, rfl, .nil, hfirst⟩
      | ok middle =>
          rw [hfirst] at h
          obtain ⟨before, item, after, state, rfl, hchain, herror⟩ := ih h
          exact ⟨first :: before, item, after, state, rfl, .cons hfirst hchain, herror⟩

end

/-! ## Steps that commute -/

/-- Steps that can be taken from related states alike, with related outcomes, and that can be taken
in the other order by items that are `apart`. -/
structure Chain.Commuting {τ α : Type} (Step : τ → α → τ → Prop) (related : τ → τ → Prop)
    (apart : α → α → Prop) : Prop where
  symm : ∀ {first second}, related first second → related second first
  trans : ∀ {first second third}, related first second → related second third →
    related first third
  respect : ∀ {first second item next}, related first second → Step first item next →
    ∃ next', Step second item next' ∧ related next next'
  swap : ∀ {start item middle other finish}, related start start → apart item other →
    Step start item middle → Step middle other finish →
    ∃ middle' finish', Step start other middle' ∧ Step middle' item finish' ∧
      related finish finish'

namespace Chain.Commuting

variable {τ α : Type} {Step : τ → α → τ → Prop} {related : τ → τ → Prop} {apart : α → α → Prop}

theorem chain (h : Commuting Step related apart) {first second next : τ} {items : List α}
    (hrelated : related first second) (hchain : Chain Step first items next) :
    ∃ next', Chain Step second items next' ∧ related next next' := by
  induction hchain generalizing second with
  | nil => exact ⟨second, .nil, hrelated⟩
  | cons hfirst _ ih =>
      obtain ⟨middle', hfirst', hmiddle⟩ := h.respect hrelated hfirst
      obtain ⟨next', hrest', hnext⟩ := ih hmiddle
      exact ⟨next', .cons hfirst' hrest', hnext⟩

/-- A chain along items that are all apart can be followed in any order of them. -/
theorem perm (h : Commuting Step related apart)
    (hsymm : ∀ {item other}, apart item other → apart other item) {items items' : List α}
    (hperm : items.Perm items') (hapart : items.Pairwise apart) {first second next : τ}
    (hrelated : related first second) (hchain : Chain Step first items next) :
    ∃ next', Chain Step second items' next' ∧ related next next' := by
  induction hperm generalizing first second next with
  | nil => exact h.chain hrelated hchain
  | cons item _ ih =>
      cases hchain with
      | cons hfirst hrest =>
          obtain ⟨middle', hfirst', hmiddle⟩ := h.respect hrelated hfirst
          obtain ⟨next', hrest', hnext⟩ := ih hapart.of_cons hmiddle hrest
          exact ⟨next', .cons hfirst' hrest', hnext⟩
  | swap item other rest =>
      cases hchain with
      | cons hother hchain =>
          cases hchain with
          | cons hitem hrest =>
              have hapart := List.rel_of_pairwise_cons hapart List.mem_cons_self
              have hself := h.trans hrelated (h.symm hrelated)
              obtain ⟨_, _, hitem', hother', hsame⟩ := h.swap hself hapart hother hitem
              obtain ⟨_, hitem', hmiddle⟩ := h.respect hrelated hitem'
              obtain ⟨_, hother', hmiddle⟩ := h.respect hmiddle hother'
              obtain ⟨next', hrest', hnext⟩ := h.chain (h.trans hsame hmiddle) hrest
              exact ⟨next', .cons hitem' (.cons hother' hrest'), hnext⟩
  | trans hperm _ ih ih' =>
      obtain ⟨middle, hchain', hmiddle⟩ := ih hapart hrelated hchain
      have hself := h.trans (h.symm hrelated) hrelated
      obtain ⟨next', hchain'', hnext⟩ :=
        ih' ((hperm.pairwise_iff hsymm).mp hapart) hself hchain'
      exact ⟨next', hchain'', h.trans hmiddle hnext⟩

end Chain.Commuting

end Scriptlet
