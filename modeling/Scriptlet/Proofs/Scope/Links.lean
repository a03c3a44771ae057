import Mathlib.Data.Finset.Card
import Mathlib.Data.Finset.Range
import Scriptlet.Proofs.Scope.Places
import Scriptlet.Scope.Linked

/-! # Scopes as linked frames

The activations of scopes can be written out as linked frames, and then every operation on scopes is
the one of the same name on linked frames. In what is written out the current frame is in use and
all links lead down, so a search never loses its way and comes to an end.
-/

namespace Scriptlet

variable {V F α : Type}

/-! ## Searches -/

namespace LinkedScopes

section

variable (scopes : LinkedScopes V F) (look : Nat → Frame V F → Option α)

@[simp] theorem searchWithin_none (count : Nat) :
    scopes.searchWithin look count none = some none := by
  cases count <;> rfl

theorem searchWithin_succ_some (count index : Nat) :
    scopes.searchWithin look (count + 1) (some index) =
      scopes.environments[index]?.bind fun environment =>
        (look index environment.toFrame).elim
          (scopes.searchWithin look count environment.parent) fun found => some (some found) := by
  rw [searchWithin]
  cases scopes.environments[index]? with
  | none => rfl
  | some environment =>
      simp only [Option.bind_eq_bind, Option.bind_some]
      cases look index environment.toFrame <;> rfl

/-- A search that ends is not changed by a larger bound. -/
theorem searchWithin_succ_of_eq_some {count : Nat} {start : Option Nat} {found : Option α}
    (h : scopes.searchWithin look count start = some found) :
    scopes.searchWithin look (count + 1) start = some found := by
  induction count generalizing start with
  | zero =>
      cases start with
      | none => simpa using h
      | some index => simp [searchWithin] at h
  | succ count ih =>
      cases start with
      | none => simpa using h
      | some index =>
          rw [searchWithin_succ_some] at h ⊢
          obtain ⟨environment, henvironment, h⟩ := Option.bind_eq_some_iff.mp h
          rw [henvironment, Option.bind_some]
          cases hlook : look index environment.toFrame with
          | some found => simpa [hlook] using h
          | none =>
              simp only [hlook, Option.elim_none] at h ⊢
              exact ih h

/-- The frames from which a search ends within the bound. -/
def ended (count : Nat) : Finset Nat :=
  (Finset.range scopes.environments.size).filter fun index =>
    (scopes.searchWithin look count (some index)).isSome

theorem mem_ended {count index : Nat} : index ∈ scopes.ended look count ↔
    (scopes.searchWithin look count (some index)).isSome := by
  rw [ended, Finset.mem_filter, Finset.mem_range, and_iff_right_iff_imp]
  intro h
  cases count with
  | zero => simp [searchWithin] at h
  | succ count =>
      by_contra hindex
      rw [searchWithin_succ_some, Array.getElem?_eq_none (Nat.not_lt.mp hindex)] at h
      simp at h

theorem ended_subset_succ (count : Nat) :
    scopes.ended look count ⊆ scopes.ended look (count + 1) := by
  intro index h
  rw [mem_ended] at h ⊢
  obtain ⟨found, hfound⟩ := Option.isSome_iff_exists.mp h
  rw [searchWithin_succ_of_eq_some scopes look hfound]
  rfl

theorem searchWithin_eq_succ {count : Nat}
    (h : scopes.ended look count = scopes.ended look (count + 1)) :
    scopes.searchWithin look count = scopes.searchWithin look (count + 1) := by
  funext start
  cases hsearch : scopes.searchWithin look count start with
  | some found => exact (searchWithin_succ_of_eq_some scopes look hsearch).symm
  | none =>
      cases start with
      | none => simp at hsearch
      | some index =>
          have hnot : index ∉ scopes.ended look (count + 1) := by
            rw [← h, mem_ended, hsearch]
            simp
          rw [mem_ended, Option.not_isSome_iff_eq_none] at hnot
          exact hnot.symm

/-- Each larger bound lets searches end from one more frame at least, until nothing changes. -/
theorem searchWithin_stable_or_le_card (count : Nat) :
    scopes.searchWithin look count = scopes.searchWithin look (count + 1) ∨
      count < (scopes.ended look (count + 1)).card := by
  induction count with
  | zero =>
      by_cases h : scopes.ended look 0 = scopes.ended look 1
      · exact .inl (searchWithin_eq_succ scopes look h)
      · have hlt := Finset.card_lt_card ((ended_subset_succ scopes look 0).ssubset_of_ne h)
        exact .inr (Nat.zero_lt_of_lt hlt)
  | succ count ih =>
      rcases ih with hstable | hcard
      · left
        funext start
        cases start with
        | none => simp
        | some index => rw [searchWithin_succ_some, searchWithin_succ_some, ← hstable]
      · by_cases h : scopes.ended look (count + 1) = scopes.ended look (count + 2)
        · exact .inl (searchWithin_eq_succ scopes look h)
        · have hlt := Finset.card_lt_card
            ((ended_subset_succ scopes look (count + 1)).ssubset_of_ne h)
          exact .inr (by omega)

@[simp] theorem search_none : scopes.search look none = some none :=
  searchWithin_none scopes look _

/-- One round of a search, whatever the links are. So the bound takes nothing away. -/
theorem search_some (index : Nat) :
    scopes.search look (some index) =
      scopes.environments[index]?.bind fun environment =>
        (look index environment.toFrame).elim
          (scopes.search look environment.parent) fun found => some (some found) := by
  have hcard : (scopes.ended look (scopes.environments.size + 1)).card ≤ scopes.environments.size :=
    (Finset.card_filter_le _ _).trans_eq (Finset.card_range _)
  have hstable := (searchWithin_stable_or_le_card scopes look
    scopes.environments.size).resolve_right (Nat.not_lt.mpr hcard)
  rw [search, hstable, searchWithin_succ_some]
  rfl

end

/-- From the frame of the given number, the links lead through the given frames and out of the
global one. -/
inductive Leads (scopes : LinkedScopes V F) : Option Nat → List (Nat × Frame V F) → Prop
  | out : Leads scopes none []
  | through {index : Nat} {environment : Environment V F} {rest : List (Nat × Frame V F)} :
      scopes.environments[index]? = some environment → Leads scopes environment.parent rest →
        Leads scopes (some index) ((index, environment.toFrame) :: rest)

/-- A search takes the first of the frames on its way that has what is looked for. -/
theorem search_of_leads {scopes : LinkedScopes V F} {start : Option Nat}
    {way : List (Nat × Frame V F)} (h : scopes.Leads start way)
    (look : Nat → Frame V F → Option α) :
    scopes.search look start = some (way.findSome? fun (index, frame) => look index frame) := by
  induction h with
  | out => exact search_none scopes look
  | @through index environment rest henvironment _ ih =>
      rw [search_some, henvironment, Option.bind_some, List.findSome?_cons]
      cases hlook : look index environment.toFrame with
      | some found => simp [hlook]
      | none => simpa [hlook] using ih

/-- The current frame is the top one, and every link leads to a lower frame. -/
structure InOrder (scopes : LinkedScopes V F) : Prop where
  current : scopes.current + 1 = scopes.environments.size
  parents : ∀ {index parent : Nat} {environment : Environment V F},
    scopes.environments[index]? = some environment → environment.parent = some parent →
      parent < index

/-- From every frame in use the links lead out. -/
theorem InOrder.exists_leads {scopes : LinkedScopes V F} (h : scopes.InOrder) {index : Nat}
    (hindex : index < scopes.environments.size) : ∃ way, scopes.Leads (some index) way := by
  induction index using Nat.strongRecOn with
  | _ index ih =>
      have henvironment : scopes.environments[index]? = some scopes.environments[index] :=
        Array.getElem?_eq_getElem hindex
      obtain ⟨way, hway⟩ : ∃ way, scopes.Leads scopes.environments[index].parent way := by
        cases hparent : scopes.environments[index].parent with
        | none => exact ⟨[], .out⟩
        | some parent =>
            have hlt := h.parents henvironment hparent
            exact ih parent hlt (Nat.lt_trans hlt hindex)
      exact ⟨_, .through henvironment hway⟩

/-- Every search from the current frame comes to an end. -/
theorem InOrder.exists_search {scopes : LinkedScopes V F} (h : scopes.InOrder)
    (look : Nat → Frame V F → Option α) :
    ∃ found, scopes.search look (some scopes.current) = some found := by
  have hcurrent : scopes.current < scopes.environments.size := by
    have := h.current
    omega
  obtain ⟨way, hway⟩ := h.exists_leads hcurrent
  exact ⟨_, search_of_leads hway look⟩

end LinkedScopes

namespace Scopes

/-! ## Links of activations -/

theorem links_append (start : Nat) (first second : List Nat) :
    links start (first ++ second) =
      links start first ++ links (start + (links start first).length) second := by
  induction first generalizing start with
  | nil => rfl
  | cons size first ih => simp [links, ih, Nat.add_assoc]

/-- More frames of an activation do not change the links of the others. -/
theorem exists_links_add (start size count : Nat) :
    ∃ more, links start [size + count] = links start [size] ++ more := by
  refine ⟨(List.range count).map fun i =>
    some (if size + i = 0 then 0 else start + (size + i) - 1), ?_⟩
  simp only [links, List.append_nil, List.range_add, List.map_append, List.map_map]
  rfl

theorem length_links (start : Nat) (activations : List (List (Frame V F))) :
    (links start (activations.map List.length)).length = activations.flatten.length := by
  induction activations generalizing start with
  | nil => rfl
  | cons blocks activations ih => simp only [List.map_cons, links, List.length_append, ih,
      List.length_map, List.length_range, List.flatten_cons]

theorem lt_of_links {start : Nat} (hstart : 0 < start) {sizes : List Nat} {index parent : Nat}
    (h : (links start sizes)[index]? = some (some parent)) : parent < start + index := by
  induction sizes generalizing start index with
  | nil => simp [links] at h
  | cons size sizes ih =>
      rw [links, List.getElem?_append] at h
      split at h
      next hinside =>
        simp only [List.getElem?_map, Option.map_eq_some_iff, Option.some.injEq] at h
        obtain ⟨i, hi, rfl⟩ := h
        obtain ⟨_, rfl⟩ := List.getElem?_eq_some_iff.mp hi
        simp only [List.getElem_range]
        split <;> omega
      next houtside =>
        simp only [List.length_map, List.length_range, Nat.not_lt] at h houtside
        have hlater := ih (Nat.add_pos_left hstart size) h
        omega

section

variable (scopes : Scopes V F)

theorem length_links_callers :
    (links 1 (scopes.callers.reverse.map List.length)).length = scopes.callers.flatten.length := by
  rw [length_links]
  exact (List.reverse_perm scopes.callers).flatten.length_eq

theorem parents_eq : scopes.parents =
    none :: (links 1 (scopes.callers.reverse.map List.length) ++
      (List.range scopes.blocks.length).map fun i =>
        some (if i = 0 then 0 else scopes.callers.flatten.length + i)) := by
  rw [parents, List.reverse_cons, List.map_append, links_append, length_links_callers]
  simp only [List.map_cons, List.map_nil, links, List.append_nil, List.cons.injEq, true_and,
    List.append_cancel_left_eq, List.map_inj_left, Option.some.injEq]
  intro i _
  split <;> omega

theorem length_parents : scopes.parents.length = scopes.depth := by
  rw [parents_eq, depth_eq, List.length_cons, List.length_append, length_links_callers,
    List.length_map, List.length_range]
  omega

theorem length_frames : scopes.frames.length = scopes.depth := by
  rw [← length_inward]
  exact List.length_reverse

/-- Links lead down. -/
theorem lt_of_parents {index parent : Nat} (h : scopes.parents[index]? = some (some parent)) :
    parent < index := by
  cases index with
  | zero => cases h
  | succ index =>
      have hlinks : (links 1 _)[index]? = some (some parent) := h
      have hlt := lt_of_links Nat.one_pos hlinks
      omega

end

/-! ## Linked frames -/

/-- The frames of scopes, each with the number of the one that it leads to. -/
def environments (scopes : Scopes V F) : List (Environment V F) :=
  List.zipWith (fun frame parent => ⟨frame, parent⟩) scopes.frames scopes.parents

/-- Scopes written out as linked frames. -/
def linked (scopes : Scopes V F) : LinkedScopes V F :=
  ⟨scopes.environments.toArray, scopes.currentIndex⟩

theorem length_environments (scopes : Scopes V F) : scopes.environments.length = scopes.depth := by
  rw [environments, List.length_zipWith, length_frames, length_parents, Nat.min_self]

theorem getElem?_linked {scopes : Scopes V F} {index : Nat} {frame : Frame V F}
    {parent : Option Nat} (hframe : scopes.frames[index]? = some frame)
    (hparent : scopes.parents[index]? = some parent) :
    scopes.linked.environments[index]? = some ⟨frame, parent⟩ := by
  rw [linked, List.getElem?_toArray, environments, List.getElem?_zipWith, hframe, hparent]

/-- Links of linked frames lead down. -/
theorem lt_of_linked {scopes : Scopes V F} {index parent : Nat} {environment : Environment V F}
    (henvironment : scopes.linked.environments[index]? = some environment)
    (hparent : environment.parent = some parent) : parent < index := by
  rw [linked, List.getElem?_toArray, environments, List.getElem?_zipWith_eq_some] at henvironment
  obtain ⟨_, _, _, hlink, rfl⟩ := henvironment
  exact scopes.lt_of_parents (hlink.trans (congrArg some hparent))

@[simp] theorem depth_linked (scopes : Scopes V F) : scopes.linked.depth = scopes.depth :=
  scopes.length_environments

/-- Frames on top of others leave them as they are. -/
theorem environments_append {scopes below : Scopes V F} {frames : List (Frame V F)}
    {parents : List (Option Nat)} (hframes : scopes.frames = below.frames ++ frames)
    (hparents : scopes.parents = below.parents ++ parents) :
    scopes.environments = below.environments ++
      List.zipWith (fun frame parent => ⟨frame, parent⟩) frames parents := by
  rw [environments, hframes, hparents, List.zipWith_append]
  · rfl
  · rw [length_frames, length_parents]

/-! ## Entering -/

theorem currentIndex_eq (scopes : Scopes V F) :
    scopes.currentIndex = if scopes.blocks.length = 0 then 0
      else scopes.callers.flatten.length + scopes.blocks.length := by
  rw [currentIndex, depth_eq, isGlobal]
  cases scopes.blocks with
  | nil => rfl
  | cons block blocks =>
      simp only [List.isEmpty_cons, Bool.false_eq_true, if_false, List.length_cons,
        Nat.succ_ne_zero]
      omega

theorem isGlobal_linked (scopes : Scopes V F) : scopes.linked.isGlobal = scopes.isGlobal := by
  rw [LinkedScopes.isGlobal, linked, currentIndex_eq, isGlobal]
  cases scopes.blocks with
  | nil => rfl
  | cons block blocks => simp

theorem linked_empty : (empty : Scopes V F).linked = .empty := rfl

/-- A frame that is entered is the last one. -/
theorem push_linked {scopes entered : Scopes V F} {parent : Option Nat}
    (hframes : entered.frames = scopes.frames ++ [.empty])
    (hparents : entered.parents = scopes.parents ++ [parent])
    (hcurrent : entered.currentIndex = scopes.depth) :
    scopes.linked.push parent = (scopes.mark, entered.linked) := by
  have henvironments := environments_append hframes hparents
  simp only [LinkedScopes.push, linked, henvironments, hcurrent, mark, List.push_toArray,
    List.size_toArray, length_environments, List.length_append, List.zipWith_cons_cons,
    List.zipWith_nil_left, List.length_singleton, Nat.add_sub_cancel]

theorem enter_linked (scopes : Scopes V F) :
    scopes.linked.enter = (scopes.mark, scopes.enter.linked) := by
  apply push_linked
  · simp [frames, enter]
  · rw [parents_eq, parents_eq, linked, currentIndex_eq]
    simp [enter, List.range_succ]
  · rw [currentIndex_eq, depth_eq]
    simp [enter]
    omega

theorem enterFunction_linked (scopes : Scopes V F) :
    scopes.linked.enterFunction = (scopes.mark, scopes.enterFunction.linked) := by
  apply push_linked
  · simp [frames, enterFunction]
  · simp [parents, enterFunction, links_append, links]
  · rw [currentIndex_eq, depth_eq]
    simp [enterFunction]

/-! ## Leaving -/

/-- The first scopes stand on top of the second: in the running activation of the second there may
be more blocks, and above it more activations. -/
def Above (scopes below : Scopes V F) : Prop :=
  scopes.globals = below.globals ∧ ∃ calls dropped,
    scopes.activations = calls ++ (dropped ++ below.blocks) :: below.callers

namespace Above

variable {scopes middle below : Scopes V F}

theorem refl (scopes : Scopes V F) : scopes.Above scopes :=
  ⟨rfl, [], [], rfl⟩

theorem trans (hfirst : scopes.Above middle) (hsecond : middle.Above below) :
    scopes.Above below := by
  obtain ⟨hglobals, calls, dropped, hactivations⟩ := hfirst
  obtain ⟨hglobals', calls', dropped', hactivations'⟩ := hsecond
  refine ⟨hglobals.trans hglobals', ?_⟩
  cases calls' with
  | nil =>
      obtain ⟨hblocks, hcallers⟩ := List.cons.inj hactivations'
      exact ⟨calls, dropped ++ dropped', by rw [hactivations, hblocks, hcallers]; simp⟩
  | cons call calls' =>
      obtain ⟨hblocks, hcallers⟩ := List.cons.inj hactivations'
      exact ⟨calls ++ (dropped ++ call) :: calls', dropped',
        by rw [hactivations, hblocks, hcallers]; simp⟩

theorem frames (h : scopes.Above below) : below.frames <+: scopes.frames := by
  obtain ⟨hglobals, calls, dropped, hactivations⟩ := h
  have hflat (scopes : Scopes V F) :
      scopes.frames = scopes.globals :: scopes.activations.flatten.reverse := by
    simp [Scopes.frames, activations]
  refine ⟨(calls.flatten ++ dropped).reverse, ?_⟩
  rw [hflat below, hflat scopes, hactivations, hglobals]
  simp [activations]

theorem parents (h : scopes.Above below) : below.parents <+: scopes.parents := by
  obtain ⟨-, calls, dropped, hactivations⟩ := h
  have hsizes : scopes.activations.reverse.map List.length =
      (below.callers.reverse.map List.length ++ [below.blocks.length + dropped.length]) ++
        calls.reverse.map List.length := by
    rw [hactivations]
    simp [Nat.add_comm]
  have hparents : scopes.parents = none :: links 1 _ :=
    congrArg (fun sizes => none :: links 1 sizes) hsizes
  obtain ⟨more, hmore⟩ := exists_links_add
    (1 + (links 1 (below.callers.reverse.map List.length)).length) below.blocks.length
    dropped.length
  rw [hparents, links_append, links_append 1 _ [_], hmore, Scopes.parents, List.reverse_cons,
    List.map_append, links_append, List.prefix_cons_inj, List.append_assoc, List.append_assoc,
    List.prefix_append_right_inj]
  exact List.prefix_append _ _

/-- To leave by the mark of what is below is to come down to it. -/
theorem exit_linked (h : scopes.Above below) : scopes.linked.exit below.mark = below.linked := by
  obtain ⟨frames, hframes⟩ := h.frames
  obtain ⟨parents, hparents⟩ := h.parents
  have henvironments := environments_append hframes.symm hparents.symm
  have hpos := below.depth_pos
  have hdepth : max below.mark.depth 1 = below.environments.length := by
    rw [length_environments]
    exact Nat.max_eq_left hpos
  rw [LinkedScopes.exit, hdepth, linked, henvironments]
  simp [linked, mark]

end Above

theorem above_leaveBlock (scopes : Scopes V F) : scopes.Above scopes.leaveBlock := by
  refine ⟨rfl, [], scopes.blocks.take 1, ?_⟩
  cases hblocks : scopes.blocks <;> simp [leaveBlock, activations, hblocks]

theorem above_leaveFunction (scopes : Scopes V F) : scopes.Above scopes.leaveFunction := by
  unfold leaveFunction
  cases hcallers : scopes.callers with
  | nil => exact ⟨rfl, [], scopes.blocks, by simp [activations, hcallers]⟩
  | cons caller callers => exact ⟨rfl, [scopes.blocks], [], by simp [activations, hcallers]⟩

theorem above_leaveMany (scopes : Scopes V F) (count : Nat) :
    scopes.Above (scopes.leaveMany count) := by
  induction count generalizing scopes with
  | zero => exact .refl scopes
  | succ count ih =>
      have hleave : scopes.Above scopes.leave := by
        unfold leave
        split
        · exact .refl scopes
        · exact scopes.above_leaveFunction
        · exact scopes.above_leaveBlock
      exact hleave.trans (ih scopes.leave)

/-- A mark that is still good is that of what it leads back to. -/
theorem exit_linked {scopes : Scopes V F} {mark : Mark} (h : (scopes.exit mark).mark = mark) :
    scopes.linked.exit mark = (scopes.exit mark).linked := by
  have hexit := (scopes.above_leaveMany (scopes.depth - mark.depth)).exit_linked
  rwa [show (scopes.leaveMany (scopes.depth - mark.depth)).mark = mark from h] at hexit

/-! ## Replacing a frame -/

theorem environments_set {scopes scopes' : Scopes V F} {index : Nat} {frame : Frame V F}
    (hframes : scopes'.frames = scopes.frames.set index frame)
    (hparents : scopes'.parents = scopes.parents) :
    scopes'.environments = scopes.environments.modify index
      fun environment => { environment with toFrame := frame } := by
  apply List.ext_getElem?
  intro i
  rw [environments, environments, List.getElem?_modify, List.getElem?_zipWith,
    List.getElem?_zipWith, hframes, hparents, List.getElem?_set]
  by_cases hi : index = i
  · subst hi
    rcases Nat.lt_or_ge index scopes.frames.length with hlt | hge
    · rw [if_pos rfl, if_pos hlt, List.getElem?_eq_getElem hlt]
      cases scopes.parents[index]? <;> simp
    · rw [if_pos rfl, if_neg (Nat.not_lt.mpr hge), List.getElem?_eq_none_iff.mpr hge]
      rfl
  · simp [hi]

theorem setFrame_linked {scopes scopes' : Scopes V F} {index : Nat} {frame : Frame V F}
    (hframes : scopes'.frames = scopes.frames.set index frame)
    (hparents : scopes'.parents = scopes.parents)
    (hcurrent : scopes'.currentIndex = scopes.currentIndex) :
    scopes.linked.setFrame index frame = scopes'.linked := by
  rw [LinkedScopes.setFrame, linked, linked, environments_set hframes hparents, hcurrent]
  simp

theorem setFrame_currentIndex_linked (scopes : Scopes V F) (frame : Frame V F) :
    scopes.linked.setFrame scopes.currentIndex frame = (scopes.setCurrent frame).linked := by
  obtain ⟨below, above, hindex, hframes, hset⟩ := scopes.frames_split
  apply setFrame_linked
  · rw [hset, hframes, hindex]
    simp
  · cases hblocks : scopes.blocks <;> simp [parents, setCurrent, hblocks]
  · rw [currentIndex_eq, currentIndex_eq, length_blocks_setCurrent]
    cases hblocks : scopes.blocks <;> simp [setCurrent, hblocks]

/-- The current frame is in use. -/
theorem getElem?_currentIndex (scopes : Scopes V F) :
    ∃ parent, scopes.linked.environments[scopes.currentIndex]? = some ⟨scopes.current, parent⟩ := by
  obtain ⟨below, above, hindex, hframes, -⟩ := scopes.frames_split
  have hframe : scopes.frames[scopes.currentIndex]? = some scopes.current := by
    rw [hindex, hframes]
    simp
  have hlt : scopes.currentIndex < scopes.parents.length := by
    rw [length_parents, ← length_frames]
    exact (List.getElem?_eq_some_iff.mp hframe).1
  exact ⟨_, getElem?_linked hframe (List.getElem?_eq_getElem hlt)⟩

theorem declareVariable_linked (scopes : Scopes V F) (name : String) (value : V) :
    scopes.linked.declareVariable name value =
      some ((scopes.declareVariable name value).map linked) := by
  obtain ⟨parent, hcurrent⟩ := scopes.getElem?_currentIndex
  unfold LinkedScopes.declareVariable declareVariable
  rw [show scopes.linked.current = scopes.currentIndex from rfl, hcurrent]
  cases hbinds : scopes.current.vars.binds name with
  | true => simp [hbinds, Except.map]
  | false => simp [hbinds, Except.map, setFrame_currentIndex_linked]

theorem declareFunction_linked (scopes : Scopes V F) (signature : Signature) (value : F) :
    scopes.linked.declareFunction signature value =
      some ((scopes.declareFunction signature value).map linked) := by
  obtain ⟨parent, hcurrent⟩ := scopes.getElem?_currentIndex
  unfold LinkedScopes.declareFunction declareFunction
  rw [show scopes.linked.current = scopes.currentIndex from rfl, hcurrent]
  cases hbinds : scopes.current.funs.binds signature with
  | true => simp [hbinds, Except.map]
  | false => simp [hbinds, Except.map, setFrame_currentIndex_linked]

/-! ## Looking up -/

/-- The frames, which stand innermost first, with their numbers, where `below` frames stand below
them. -/
def wayIn : (frames : List (Frame V F)) → (below : Nat) → List (Nat × Frame V F)
  | [], _ => []
  | frame :: rest, below => (rest.length + below, frame) :: wayIn rest below

/-- The frames that can be seen, with their numbers. -/
def way (scopes : Scopes V F) : List (Nat × Frame V F) :=
  wayIn scopes.blocks (scopes.callers.flatten.length + 1) ++ [(0, scopes.globals)]

theorem map_snd_wayIn (frames : List (Frame V F)) (below : Nat) :
    (wayIn frames below).map Prod.snd = frames := by
  induction frames with
  | nil => rfl
  | cons frame rest ih => rw [wayIn, List.map_cons, ih]

theorem map_snd_way (scopes : Scopes V F) : scopes.way.map Prod.snd = scopes.visible := by
  rw [way, List.map_append, map_snd_wayIn]
  rfl

theorem getElem?_frames_of_block (scopes : Scopes V F) (index : Nat) :
    scopes.frames[scopes.callers.flatten.length + index + 1]? = scopes.blocks.reverse[index]? := by
  have hframes : scopes.frames =
      (scopes.globals :: scopes.callers.flatten.reverse) ++ scopes.blocks.reverse := by
    simp [frames]
  rw [hframes, List.getElem?_append_right (by simp)]
  congr 1
  simp only [List.length_cons, List.length_reverse]
  omega

theorem getElem?_parents_of_block (scopes : Scopes V F) {index : Nat}
    (h : index < scopes.blocks.length) :
    scopes.parents[scopes.callers.flatten.length + index + 1]? =
      some (some (if index = 0 then 0 else scopes.callers.flatten.length + index)) := by
  have hlength := scopes.length_links_callers
  rw [parents_eq, List.getElem?_cons_succ, List.getElem?_append_right (by omega), hlength,
    Nat.add_sub_cancel_left, List.getElem?_map, List.getElem?_range h]
  rfl

/-- From each block of the running activation, the links lead through the blocks around it. -/
theorem leads_of_suffix (scopes : Scopes V F) {rest : List (Frame V F)}
    (h : rest <:+ scopes.blocks) :
    scopes.linked.Leads
      (some (if rest.length = 0 then 0 else scopes.callers.flatten.length + rest.length))
      (wayIn rest (scopes.callers.flatten.length + 1) ++ [(0, scopes.globals)]) := by
  -- By the blocks that are still ahead; behind the last of them comes the global frame.
  induction rest with
  | nil =>
      have hframe : scopes.frames[0]? = some scopes.globals := by simp [frames]
      have hparent : scopes.parents[0]? = some none := rfl
      exact .through (getElem?_linked hframe hparent) .out
  | cons frame rest ih =>
      have hrest := ih ((List.suffix_cons frame rest).trans h)
      obtain ⟨dropped, hblocks⟩ := h
      have hindex : rest.length + (scopes.callers.flatten.length + 1) =
          scopes.callers.flatten.length + rest.length + 1 := by
        omega
      have hblock : scopes.linked.environments[scopes.callers.flatten.length + rest.length + 1]? =
          some ⟨frame, some (if rest.length = 0 then 0
            else scopes.callers.flatten.length + rest.length)⟩ := by
        refine getElem?_linked ?_ (scopes.getElem?_parents_of_block ?_)
        · rw [getElem?_frames_of_block, ← hblocks]
          simp
        · rw [← hblocks]
          simp
          omega
      rw [List.length_cons, if_neg (Nat.succ_ne_zero _), ← Nat.add_assoc, wayIn, hindex]
      exact .through hblock hrest

theorem leads_way (scopes : Scopes V F) :
    scopes.linked.Leads (some scopes.currentIndex) scopes.way := by
  rw [currentIndex_eq]
  exact scopes.leads_of_suffix List.suffix_rfl

/-- A search goes through what can be seen. -/
theorem search_linked (scopes : Scopes V F) (look : Frame V F → Option α) :
    scopes.linked.search (fun _ frame => look frame) (some scopes.currentIndex) =
      some (scopes.visible.findSome? look) := by
  rw [LinkedScopes.search_of_leads scopes.leads_way, ← map_snd_way, List.findSome?_map]
  rfl

theorem findFunction?_linked (scopes : Scopes V F) (signature : Signature) :
    scopes.linked.findFunction? signature = some (scopes.findFunction? signature) :=
  scopes.search_linked fun frame => frame.funs.value? signature

theorem findSome?_wayIn (name : String) (frames : List (Frame V F)) (below : Nat) :
    ((wayIn frames below).findSome? fun (index, frame) =>
      if frame.vars.binds name then some index else none) = homeIn name frames below := by
  induction frames with
  | nil => rfl
  | cons frame rest ih =>
      rw [wayIn, homeIn, List.findSome?_cons, ih]
      cases hbinds : frame.vars.binds name <;> simp [hbinds]

theorem home?_linked (scopes : Scopes V F) (name : String) :
    scopes.linked.home? name = some (scopes.home? name) := by
  have hsearch := LinkedScopes.search_of_leads scopes.leads_way fun index frame =>
    if frame.vars.binds name then some index else none
  rw [way, List.findSome?_append, findSome?_wayIn] at hsearch
  refine hsearch.trans (congrArg some ?_)
  unfold home?
  cases homeIn name scopes.blocks (scopes.callers.flatten.length + 1) with
  | some index => rfl
  | none => cases hbinds : scopes.globals.vars.binds name <;> simp [hbinds]

/-! ## Changing a variable -/

/-- A change in the frame in which a name is found, among frames that stand innermost first. -/
theorem exists_of_homeIn_modify {name : String} {frames below : List (Frame V F)} {index : Nat}
    (h : homeIn name frames below.length = some index) (change : V → V) :
    ∃ frame frames', (frames ++ below).reverse[index]? = some frame ∧
      modifyIn name change frames = some frames' ∧
      (frames' ++ below).reverse = (frames ++ below).reverse.set index
        { frame with vars := frame.vars.modify name change } := by
  induction frames with
  | nil => cases h
  | cons frame rest ih =>
      rw [homeIn] at h
      cases hbinds : frame.vars.binds name with
      | true =>
          rw [hbinds, if_pos rfl] at h
          cases h
          have hlength : (rest ++ below).reverse.length = rest.length + below.length := by
            rw [List.length_reverse, List.length_append]
          refine ⟨frame, _, ?_, if_pos hbinds, ?_⟩
          · rw [List.cons_append, List.reverse_cons, ← hlength, List.getElem?_concat_length]
          · rw [List.cons_append, List.reverse_cons, List.cons_append, List.reverse_cons, ← hlength,
              List.set_append_right _ _ (Nat.le_refl _), Nat.sub_self]
            rfl
      | false =>
          rw [hbinds, if_neg Bool.false_ne_true] at h
          obtain ⟨found, rest', hfound, hrest, hset⟩ := ih h
          have hlt := (List.getElem?_eq_some_iff.mp hfound).1
          refine ⟨found, frame :: rest', ?_, ?_, ?_⟩
          · rw [List.cons_append, List.reverse_cons, List.getElem?_append_left hlt, hfound]
          · simp [modifyIn, hbinds, hrest]
          · rw [List.cons_append, List.reverse_cons, hset, List.cons_append, List.reverse_cons,
              List.set_append_left _ _ hlt]

theorem home?_of_homeIn_eq_none {scopes : Scopes V F} {name : String}
    (h : homeIn name scopes.blocks (scopes.callers.flatten.length + 1) = none) :
    scopes.home? name = if scopes.globals.vars.binds name then some 0 else none := by
  rw [home?, h]

/-- A change in the frame in which a name is found. -/
theorem exists_of_home?_modify {scopes : Scopes V F} {name : String} {index : Nat}
    (h : scopes.home? name = some index) (change : V → V) :
    ∃ frame, scopes.frames[index]? = some frame ∧
      (scopes.modifyVariable name change).frames = scopes.frames.set index
        { frame with vars := frame.vars.modify name change } := by
  cases hhome : homeIn name scopes.blocks (scopes.callers.flatten.length + 1) with
  | some home =>
      rw [home?, hhome] at h
      cases h
      have hbelow : (scopes.callers.flatten ++ [scopes.globals]).length =
          scopes.callers.flatten.length + 1 := List.length_append
      obtain ⟨frame, blocks, hframe, hblocks, hset⟩ :=
        exists_of_homeIn_modify (hbelow ▸ hhome) change
      refine ⟨frame, ?_, ?_⟩
      · rw [frames, List.append_assoc]
        exact hframe
      · rw [modifyVariable, hblocks, frames, frames, List.append_assoc, List.append_assoc]
        exact hset
  | none =>
      have hblocks : modifyIn name change scopes.blocks = none := homeIn_eq_none_iff.mp hhome
      rw [home?_of_homeIn_eq_none hhome] at h
      split at h
      · cases h
        refine ⟨scopes.globals, by simp [frames], ?_⟩
        rw [modifyVariable, hblocks]
        simp [frames]
      · cases h

/-- A name that is found in no frame refers to nothing. -/
theorem of_home?_eq_none {scopes : Scopes V F} {name : String} (h : scopes.home? name = none)
    (change : V → V) :
    scopes.findVariable? name = none ∧ scopes.modifyVariable name change = scopes := by
  cases hhome : homeIn name scopes.blocks (scopes.callers.flatten.length + 1) with
  | some home =>
      rw [home?, hhome] at h
      cases h
  | none =>
      have hblocks : modifyIn name change scopes.blocks = none := homeIn_eq_none_iff.mp hhome
      have hglobals : scopes.globals.vars.value? name = none := by
        rw [home?_of_homeIn_eq_none hhome] at h
        split at h
        · cases h
        next hbinds => simpa [Table.binds] using hbinds
      constructor
      · rw [findVariable?, visible, List.findSome?_append, findSome?_of_modifyIn_eq_none hblocks]
        simp [hglobals]
      · rw [modifyVariable, hblocks, Table.modify_of_value?_eq_none hglobals]

/-- The frame in which a name is found says what the name refers to, and a change of it is a change
of what this frame holds. -/
theorem exists_of_home? {scopes : Scopes V F} {name : String} {index : Nat}
    (h : scopes.home? name = some index) (change : V → V) :
    ∃ environment, scopes.linked.environments[index]? = some environment ∧
      environment.vars.value? name = scopes.findVariable? name ∧
      scopes.linked.setFrame index
          { environment.toFrame with vars := environment.vars.modify name change } =
        (scopes.modifyVariable name change).linked := by
  obtain ⟨frame, hframe, hmodify⟩ := exists_of_home?_modify h change
  have hlt : index < scopes.parents.length := by
    rw [length_parents, ← length_frames]
    exact (List.getElem?_eq_some_iff.mp hframe).1
  have hlength := scopes.length_blocks_modifyVariable name change
  have hcallers := scopes.callers_modifyVariable name change
  refine ⟨⟨frame, scopes.parents[index]⟩, ?_, ?_, ?_⟩
  · exact getElem?_linked hframe (List.getElem?_eq_getElem hlt)
  · have hvalue := variableAt?_of_home? h
    rwa [variableAt?_eq, hframe] at hvalue
  · apply setFrame_linked hmodify
    · rw [parents_eq, parents_eq, hlength, hcallers]
    · rw [currentIndex_eq, currentIndex_eq, hlength, hcallers]

theorem findVariable?_linked (scopes : Scopes V F) (name : String) :
    scopes.linked.findVariable? name = some (scopes.findVariable? name) := by
  rw [LinkedScopes.findVariable?, home?_linked]
  cases hhome : scopes.home? name with
  | none => simp [(of_home?_eq_none hhome id).1]
  | some index =>
      obtain ⟨environment, henvironment, hvalue, -⟩ := exists_of_home? hhome id
      simp [henvironment, hvalue]

theorem modifyVariable_linked (scopes : Scopes V F) (name : String) (change : V → V) :
    scopes.linked.modifyVariable name change =
      some (scopes.findVariable? name, (scopes.modifyVariable name change).linked) := by
  rw [LinkedScopes.modifyVariable, home?_linked]
  cases hhome : scopes.home? name with
  | none =>
      obtain ⟨hfind, hmodify⟩ := of_home?_eq_none hhome change
      simp [hfind, hmodify]
  | some index =>
      obtain ⟨environment, henvironment, hvalue, hmodify⟩ := exists_of_home? hhome change
      simp [henvironment, hvalue, hmodify]

end Scopes

end Scriptlet
