import Scriptlet.Proofs.Scope.Links
import Scriptlet.Proofs.Scope.Stack

/-! # Linked scopes are a stack of maps

To whatever sequence of requests, linked scopes give the answers of a stack of maps. The way from
the one to the other goes over activations: the blocks of the running activation are the layers down
to the nearest one of a function, those of the waiting activations are the layers below, and the
linked frames are all of them written out. A mark that was made at an entry stays good as long as
the frame of that entry is in use. -/

namespace Scriptlet

variable {V F : Type}

/-! ## Tables are maps -/

/-- What a frame holds, as maps. -/
def Frame.bindings (frame : Frame V F) : Bindings V F :=
  ⟨fun name => frame.vars.value? name, fun signature => frame.funs.value? signature⟩

namespace Frame

theorem bindings_empty : (Frame.empty : Frame V F).bindings = .empty := rfl

theorem bindings_bindVariable (frame : Frame V F) (name : String) (value : V) :
    Frame.bindings { frame with vars := frame.vars.bind name value } =
      frame.bindings.addVariable name value := by
  ext other : 2
  · simp only [bindings, Bindings.addVariable, Table.value?_bind, Function.update_apply, eq_comm]
  · rfl

theorem bindings_bindFunction (frame : Frame V F) (signature : Signature) (value : F) :
    Frame.bindings { frame with funs := frame.funs.bind signature value } =
      frame.bindings.addFunction signature value := by
  ext other : 2
  · rfl
  · simp only [bindings, Bindings.addFunction, Table.value?_bind, Function.update_apply, eq_comm]

theorem bindings_modifyVariable (frame : Frame V F) (name : String) (change : V → V) :
    Frame.bindings { frame with vars := frame.vars.modify name change } =
      frame.bindings.modifyVariable name change := by
  ext other : 2
  · simp only [bindings, Bindings.modifyVariable, Table.value?_modify, Function.update_apply]
    by_cases hname : name = other
    · simp [hname]
    · simp [hname, Ne.symm hname]
  · rfl

end Frame

/-! ## Layers and activations -/

/-- The layers are the blocks of the activations: each activation but the lowest begins with the
layer of a function, and all other layers are those of blocks. -/
inductive Layer.Stand :
    List (Layer V F) → (blocks : List (Frame V F)) → (callers : List (List (Frame V F))) → Prop
  | nil : Stand [] [] []
  | block {entry : Nat} {frame : Frame V F} {layers : List (Layer V F)} {blocks : List (Frame V F)}
      {callers : List (List (Frame V F))} : Stand layers blocks callers →
      Stand (⟨entry, false, frame.bindings⟩ :: layers) (frame :: blocks) callers
  | function {entry : Nat} {frame : Frame V F} {layers : List (Layer V F)}
      {blocks : List (Frame V F)} {callers : List (List (Frame V F))} :
      Stand layers blocks callers →
      Stand (⟨entry, true, frame.bindings⟩ :: layers) [frame] (blocks :: callers)

namespace Layer.Stand

variable {layers : List (Layer V F)} {layer : Layer V F} {scopes : Scopes V F}

theorem length_eq {blocks : List (Frame V F)} {callers : List (List (Frame V F))}
    (h : Stand layers blocks callers) : layers.length = blocks.length + callers.flatten.length := by
  induction h with
  | nil => rfl
  | block _ ih => simp only [List.length_cons, ih]; omega
  | function _ ih => simp only [List.length_cons, List.flatten_cons, List.length_append, ih,
      List.length_nil]; omega

theorem depth (h : Stand layers scopes.blocks scopes.callers) :
    scopes.depth = layers.length + 1 := by
  rw [Scopes.depth_eq, h.length_eq]

theorem callers_of_blocks {callers : List (List (Frame V F))} (h : Stand layers [] callers) :
    layers = [] ∧ callers = [] := by
  cases h with
  | nil => exact ⟨rfl, rfl⟩

theorem isGlobal (h : Stand layers scopes.blocks scopes.callers) :
    scopes.isGlobal = layers.isEmpty := by
  obtain ⟨blocks, callers, globals⟩ := scopes
  cases h <;> rfl

/-- The current frame is the top one. -/
theorem currentIndex (h : Stand layers scopes.blocks scopes.callers) :
    scopes.currentIndex + 1 = scopes.depth := by
  rw [Scopes.currentIndex, h.isGlobal, h.depth]
  cases layers with
  | nil => rfl
  | cons layer layers => simp

/-- The mark of an entry that is made now leads back to the top layer. -/
theorem mark (h : Stand layers scopes.blocks scopes.callers) :
    scopes.mark = ⟨layers.length, layers.length + 1⟩ := by
  have hcurrent := h.currentIndex
  rw [h.depth] at hcurrent
  rw [Scopes.mark, h.depth, Nat.add_right_cancel hcurrent]

theorem inOrder (h : Stand layers scopes.blocks scopes.callers) : scopes.linked.InOrder where
  current := h.currentIndex.trans scopes.depth_linked.symm
  parents := Scopes.lt_of_linked

theorem enter (h : Stand layers scopes.blocks scopes.callers) (entry : Nat) :
    Stand (⟨entry, false, .empty⟩ :: layers) scopes.enter.blocks scopes.enter.callers := by
  rw [← Frame.bindings_empty]
  exact .block h

theorem enterFunction (h : Stand layers scopes.blocks scopes.callers) (entry : Nat) :
    Stand (⟨entry, true, .empty⟩ :: layers) scopes.enterFunction.blocks
      scopes.enterFunction.callers := by
  rw [← Frame.bindings_empty]
  exact .function h

theorem leave (h : Stand (layer :: layers) scopes.blocks scopes.callers) :
    Stand layers scopes.leave.blocks scopes.leave.callers := by
  obtain ⟨blocks, callers, globals⟩ := scopes
  cases h with
  | @block _ _ _ blocks _ h =>
      cases blocks with
      | cons _ _ => exact h
      | nil =>
          -- The last block of the lowest activation leaves only the global frame.
          obtain ⟨rfl, rfl⟩ := h.callers_of_blocks
          exact .nil
  | function h => exact h

theorem leaveMany (h : Stand layers scopes.blocks scopes.callers) (count : Nat)
    (hcount : count ≤ layers.length) :
    Stand (layers.drop count) (scopes.leaveMany count).blocks (scopes.leaveMany count).callers := by
  induction count generalizing layers scopes with
  | zero => exact h
  | succ count ih =>
      cases layers with
      | nil => cases hcount
      | cons layer layers => exact ih h.leave (Nat.le_of_succ_le_succ hcount)

theorem visible {blocks : List (Frame V F)} {callers : List (List (Frame V F))}
    (h : Stand layers blocks callers) :
    (Layer.visible layers).map Layer.bindings = blocks.map Frame.bindings := by
  induction h with
  | nil => rfl
  | block _ ih => simp [Layer.visible, ih]
  | function _ _ => rfl

/-- A variable is changed in the same place, or it is found in none of the blocks. -/
theorem modifyVisible? {blocks : List (Frame V F)} {callers : List (List (Frame V F))}
    (h : Stand layers blocks callers) (name : String) (change : V → V) :
    Layer.modifyVisible? name change layers = none ∧ Scopes.modifyIn name change blocks = none ∨
    ∃ layers' blocks', Layer.modifyVisible? name change layers = some layers' ∧
      Scopes.modifyIn name change blocks = some blocks' ∧ Stand layers' blocks' callers ∧
      layers'.map Layer.entry = layers.map Layer.entry := by
  induction h with
  | nil => exact .inl ⟨rfl, rfl⟩
  | @block entry frame layers blocks callers h ih =>
      cases hbinds : frame.vars.binds name with
      | true =>
          refine .inr ⟨_, _, if_pos hbinds, if_pos hbinds, ?_, rfl⟩
          rw [← Frame.bindings_modifyVariable]
          exact .block h
      | false =>
          have hlayers : Layer.modifyVisible? name change
              (⟨entry, false, frame.bindings⟩ :: layers) =
              (Layer.modifyVisible? name change layers).map (⟨entry, false, frame.bindings⟩ :: ·) :=
            if_neg (by simpa [Frame.bindings, Table.binds] using hbinds)
          rcases ih with ⟨hnone, hnone'⟩ | ⟨layers', blocks', hsome, hsome', hstand, hentry⟩
          · refine .inl ⟨by rw [hlayers, hnone]; rfl, ?_⟩
            simp [Scopes.modifyIn, hbinds, hnone']
          · refine .inr ⟨_, frame :: blocks', by rw [hlayers, hsome]; rfl, ?_, .block hstand, ?_⟩
            · simp [Scopes.modifyIn, hbinds, hsome']
            · simp [hentry]
  | @function entry frame layers blocks callers h _ =>
      cases hbinds : frame.vars.binds name with
      | true =>
          refine .inr ⟨_, _, if_pos hbinds, if_pos hbinds, ?_, rfl⟩
          rw [← Frame.bindings_modifyVariable]
          exact .function h
      | false =>
          refine .inl ⟨if_neg ?_, by simp [Scopes.modifyIn, hbinds]⟩
          simpa [Frame.bindings, Table.binds] using hbinds

end Layer.Stand

theorem Scopes.globals_leaveMany (scopes : Scopes V F) (count : Nat) :
    (scopes.leaveMany count).globals = scopes.globals := by
  induction count generalizing scopes with
  | zero => rfl
  | succ count ih =>
      rw [leaveMany, ih]
      unfold leave leaveFunction
      split
      · rfl
      · split <;> rfl
      · rfl

/-! ## Stacks and linked scopes -/

/-- To leave the frame of an entry is to come down to the layers below it. -/
theorem Stack.exists_of_exit? {stack stack' : Stack V F} {entry : Nat}
    (h : stack.exit? entry = some stack') :
    ∃ layer rest, layer :: rest <:+ stack.layers ∧ layer.entry = entry ∧
      stack' = { stack with layers := rest } := by
  unfold exit? at h
  split at h
  · cases h
  next layer rest hdrop =>
    cases h
    refine ⟨layer, rest, hdrop ▸ List.dropWhile_suffix _, ?_, rfl⟩
    have hhead := List.head?_dropWhile_not (fun layer => layer.entry != entry) stack.layers
    rw [hdrop] at hhead
    simpa using hhead

/-- The stack is what scopes look like from outside: its layers stand as the frames do, and the mark
of each layer leads back to the layers below it. -/
structure Stack.Shows (stack : Stack V F) (scopes : Scopes V F) (marks : List Mark) : Prop where
  layers : Layer.Stand stack.layers scopes.blocks scopes.callers
  globals : scopes.globals.bindings = stack.globals
  entries : marks.length = stack.entries
  marks : ∀ {entry : Nat} {below : List Nat}, entry :: below <:+ stack.layers.map Layer.entry →
    marks[entry]? = some ⟨below.length, below.length + 1⟩

namespace Stack.Shows

variable {stack stack' : Stack V F} {scopes : Scopes V F} {marks : List Mark}

theorem empty : (Stack.empty : Stack V F).Shows .empty [] where
  layers := .nil
  globals := rfl
  entries := rfl
  marks h := by simp [Stack.empty] at h

/-- An entry takes down the mark of what will be below. -/
theorem entered (h : stack.Shows scopes marks) {isFunction : Bool} {scopes' : Scopes V F}
    (hlayers : Layer.Stand (stack.push isFunction).layers scopes'.blocks scopes'.callers)
    (hglobals : scopes'.globals = scopes.globals) :
    (stack.push isFunction).Shows scopes' (marks ++ [scopes.mark]) where
  layers := hlayers
  globals := hglobals ▸ h.globals
  entries := by simp [Stack.push, h.entries]
  marks {entry below} hentry := by
    -- Marks are only added at the end, so those of earlier entries stay.
    rcases List.suffix_cons_iff.mp hentry with heq | hbelow
    · cases heq
      simp [← h.entries, h.layers.mark]
    · have hold := h.marks hbelow
      have hlt := (List.getElem?_eq_some_iff.mp hold).1
      exact (List.getElem?_append_left hlt).trans hold

theorem exit (h : stack.Shows scopes marks) {entry : Nat}
    (hexit : stack.exit? entry = some stack') :
    ∃ mark, marks[entry]? = some mark ∧ (scopes.exit mark).mark = mark ∧
      stack'.Shows (scopes.exit mark) marks := by
  obtain ⟨layer, rest, hsuffix, rfl, rfl⟩ := Stack.exists_of_exit? hexit
  have hrest := (List.suffix_cons layer rest).trans hsuffix
  have hentries : layer.entry :: rest.map Layer.entry <:+ stack.layers.map Layer.entry :=
    hsuffix.map Layer.entry
  have hmark : marks[layer.entry]? = some ⟨rest.length, rest.length + 1⟩ := by
    simpa using h.marks hentries
  -- The frames that are left are those of the entry and of all entries since.
  obtain ⟨dropped, hlayers⟩ := hrest
  have hcount : scopes.depth - (rest.length + 1) = dropped.length := by
    rw [h.layers.depth, ← hlayers, List.length_append]
    omega
  have hstand : Layer.Stand rest (scopes.exit ⟨rest.length, rest.length + 1⟩).blocks
      (scopes.exit ⟨rest.length, rest.length + 1⟩).callers := by
    have hleave := h.layers.leaveMany dropped.length (by simp [← hlayers])
    rwa [← hlayers, List.drop_left, ← hcount] at hleave
  refine ⟨_, hmark, hstand.mark, hstand, ?_, h.entries, fun hbelow => h.marks (hbelow.trans ?_)⟩
  · rw [Scopes.exit, Scopes.globals_leaveMany]
    exact h.globals
  · exact List.IsSuffix.map Layer.entry ⟨dropped, hlayers⟩

theorem top (h : stack.Shows scopes marks) : scopes.current.bindings = stack.top := by
  obtain ⟨layers, globals, entries⟩ := stack
  obtain ⟨blocks, callers, globals'⟩ := scopes
  cases h.layers with
  | nil => exact h.globals
  | block _ => rfl
  | function _ => rfl

theorem setTop (h : stack.Shows scopes marks) (frame : Frame V F) :
    (stack.setTop frame.bindings).Shows (scopes.setCurrent frame) marks := by
  obtain ⟨layers, globals, entries⟩ := stack
  obtain ⟨blocks, callers, globals'⟩ := scopes
  cases h.layers with
  | nil => exact ⟨.nil, rfl, h.entries, h.marks⟩
  | block hbelow => exact ⟨.block hbelow, h.globals, h.entries, h.marks⟩
  | function hbelow => exact ⟨.function hbelow, h.globals, h.entries, h.marks⟩

theorem visible (h : stack.Shows scopes marks) :
    scopes.visible.map Frame.bindings = stack.visible := by
  simp [Scopes.visible, Stack.visible, h.layers.visible, h.globals]

theorem findVariable? (h : stack.Shows scopes marks) (name : String) :
    scopes.findVariable? name = stack.findVariable? name := by
  rw [Stack.findVariable?, ← h.visible, List.findSome?_map]
  rfl

theorem findFunction? (h : stack.Shows scopes marks) (signature : Signature) :
    scopes.findFunction? signature = stack.findFunction? signature := by
  rw [Stack.findFunction?, ← h.visible, List.findSome?_map]
  rfl

theorem modifyVariable (h : stack.Shows scopes marks) (name : String) (change : V → V) :
    (stack.modifyVariable name change).Shows (scopes.modifyVariable name change) marks := by
  unfold Stack.modifyVariable Scopes.modifyVariable
  rcases h.layers.modifyVisible? name change with ⟨hlayers, hblocks⟩ |
    ⟨layers', blocks', hlayers, hblocks, hstand, hentries⟩
  · rw [hlayers, hblocks]
    refine ⟨h.layers, ?_, h.entries, h.marks⟩
    rw [Frame.bindings_modifyVariable, h.globals]
  · rw [hlayers, hblocks]
    exact ⟨hstand, h.globals, h.entries, fun hbelow => h.marks (hentries ▸ hbelow)⟩

/-- A declaration is refused by both or by neither. -/
theorem declared (h : stack.Shows scopes marks) {bound : Bool} {cause : Cause} {frame : Frame V F}
    {reply : Scopes.Reply V F}
    (hrespond : (if bound then some (.refused cause, stack)
      else some (.declared, stack.setTop frame.bindings)) = some (reply, stack')) :
    ∃ scopes', LinkedScopes.Session.declared ⟨scopes.linked, marks⟩
        (Except.map Scopes.linked
          (if bound then .error cause else .ok (scopes.setCurrent frame))) =
      (reply, ⟨scopes'.linked, marks⟩) ∧ stack'.Shows scopes' marks := by
  cases bound with
  | true =>
      cases hrespond
      exact ⟨scopes, rfl, h⟩
  | false =>
      cases hrespond
      exact ⟨_, rfl, h.setTop frame⟩

end Stack.Shows

/-- The stack is what the session looks like from outside, when its linked frames are those of
activations. -/
def Stack.ShownBy (stack : Stack V F) (session : LinkedScopes.Session V F) : Prop :=
  ∃ scopes, session.scopes = Scopes.linked scopes ∧ stack.Shows scopes session.marks

namespace Stack.ShownBy

variable {stack stack' : Stack V F} {session : LinkedScopes.Session V F}

theorem inOrder (h : stack.ShownBy session) : session.scopes.InOrder := by
  obtain ⟨scopes, hscopes, hshows⟩ := h
  rw [hscopes]
  exact hshows.layers.inOrder

/-- The session responds to a request as the stack does, and goes on showing it. -/
theorem respond (h : stack.ShownBy session) {request : Scopes.Request V F}
    {reply : Scopes.Reply V F} (hrespond : stack.respond request = some (reply, stack')) :
    ∃ session', session.respond request = some (reply, session') ∧ stack'.ShownBy session' := by
  obtain ⟨_, marks⟩ := session
  obtain ⟨scopes, rfl, hshows⟩ := h
  cases request with
  | enter =>
      cases hrespond
      refine ⟨⟨scopes.enter.linked, marks ++ [scopes.mark]⟩, ?_, _, rfl,
        hshows.entered (hshows.layers.enter _) rfl⟩
      rw [LinkedScopes.Session.respond, Scopes.enter_linked, ← hshows.entries]
      rfl
  | enterFunction =>
      cases hrespond
      refine ⟨⟨scopes.enterFunction.linked, marks ++ [scopes.mark]⟩, ?_, _, rfl,
        hshows.entered (hshows.layers.enterFunction _) rfl⟩
      rw [LinkedScopes.Session.respond, Scopes.enterFunction_linked, ← hshows.entries]
      rfl
  | exit entry =>
      obtain ⟨_, hexit, heq⟩ := Option.map_eq_some_iff.mp hrespond
      cases heq
      obtain ⟨mark, hmark, hgood, hshows⟩ := hshows.exit hexit
      refine ⟨⟨(scopes.exit mark).linked, marks⟩, ?_, _, rfl, hshows⟩
      rw [LinkedScopes.Session.respond, hmark, Option.map_some, Scopes.exit_linked hgood]
  | declareVariable name value =>
      rw [Stack.respond, ← hshows.top, ← Frame.bindings_bindVariable] at hrespond
      obtain ⟨scopes', hdeclared, hshows⟩ := hshows.declared hrespond
      refine ⟨⟨scopes'.linked, marks⟩, ?_, scopes', rfl, hshows⟩
      rw [LinkedScopes.Session.respond, Scopes.declareVariable_linked, Option.map_some,
        ← hdeclared]
      rfl
  | declareFunction signature value =>
      rw [Stack.respond, ← hshows.top, ← Frame.bindings_bindFunction] at hrespond
      obtain ⟨scopes', hdeclared, hshows⟩ := hshows.declared hrespond
      refine ⟨⟨scopes'.linked, marks⟩, ?_, scopes', rfl, hshows⟩
      rw [LinkedScopes.Session.respond, Scopes.declareFunction_linked, Option.map_some,
        ← hdeclared]
      rfl
  | findVariable name =>
      cases hrespond
      refine ⟨⟨scopes.linked, marks⟩, ?_, scopes, rfl, hshows⟩
      rw [LinkedScopes.Session.respond, Scopes.findVariable?_linked, ← hshows.findVariable?]
      rfl
  | modifyVariable name change =>
      cases hrespond
      refine ⟨⟨(scopes.modifyVariable name change).linked, marks⟩, ?_, _, rfl,
        hshows.modifyVariable name change⟩
      rw [LinkedScopes.Session.respond, Scopes.modifyVariable_linked, ← hshows.findVariable?]
      rfl
  | findFunction signature =>
      cases hrespond
      refine ⟨⟨scopes.linked, marks⟩, ?_, scopes, rfl, hshows⟩
      rw [LinkedScopes.Session.respond, Scopes.findFunction?_linked, ← hshows.findFunction?]
      rfl

end Stack.ShownBy

theorem Scoping.stack_follows :
    (Scoping.stack : Scoping V F (Stack V F)).Follows Scoping.linked Stack.ShownBy where
  respond h hrespond := h.respond hrespond
  depth h := by
    obtain ⟨scopes, hscopes, hshows⟩ := h
    exact (congrArg LinkedScopes.depth hscopes).trans
      (scopes.depth_linked.trans hshows.layers.depth)
  isGlobal h := by
    obtain ⟨scopes, hscopes, hshows⟩ := h
    exact (congrArg LinkedScopes.isGlobal hscopes).trans
      (scopes.isGlobal_linked.trans hshows.layers.isGlobal)

/-- Linked scopes answer every sequence of requests as a stack of maps does, as long as it leaves
only frames that are in use. At the end of each sequence the current frame is the top one, all links
lead down, and every search from the current frame comes to an end. -/
theorem scopes_answer_as_stack (requests : List (Scopes.Request V F))
    (answers : List (Scopes.Answer V F)) (stack : Stack V F)
    (h : Scoping.stack.answers .empty requests = some (answers, stack)) :
    ∃ session : LinkedScopes.Session V F,
      Scoping.linked.answers .empty requests = some (answers, session) ∧
      session.scopes.current + 1 = session.scopes.environments.size ∧
      (∀ (index parent : Nat) (environment : Environment V F),
        session.scopes.environments[index]? = some environment →
        environment.parent = some parent → parent < index) ∧
      ∀ (α : Type) (look : Nat → Frame V F → Option α), ∃ found,
        session.scopes.search look (some session.scopes.current) = some found := by
  have hempty : (Stack.empty : Stack V F).ShownBy .empty :=
    ⟨.empty, Scopes.linked_empty.symm, .empty⟩
  obtain ⟨session, hanswers, hshown⟩ := Scoping.stack_follows.answers hempty h
  have horder := hshown.inOrder
  exact ⟨session, hanswers, horder.current, fun _ _ _ => horder.parents,
    fun _ look => horder.exists_search look⟩

/-- A global that is changed from inside a function, whose frame is then left together with the
block around the call. -/
theorem scopes_answer_as_stack_nested :
    let requests : List (Scopes.Request Nat String) :=
      [.declareVariable "x" 1, .enterFunction, .declareVariable "x" 2, .enter, .enterFunction,
        .modifyVariable "x" (· + 10), .exit 1, .findVariable "x", .exit 0, .findVariable "x",
        .declareVariable "x" 3]
    let answers : List (Scopes.Answer Nat String) :=
      [⟨.declared, 1, true⟩, ⟨.entered 0, 2, false⟩, ⟨.declared, 2, false⟩, ⟨.entered 1, 3, false⟩,
        ⟨.entered 2, 4, false⟩, ⟨.foundVariable (some 1), 4, false⟩, ⟨.left, 2, false⟩,
        ⟨.foundVariable (some 2), 2, false⟩, ⟨.left, 1, true⟩,
        ⟨.foundVariable (some 11), 1, true⟩, ⟨.refused (.variableAlreadyDeclared "x"), 1, true⟩]
    ∃ (stack : Stack Nat String) (session : LinkedScopes.Session Nat String),
      Scoping.stack.answers .empty requests = some (answers, stack) ∧
      Scoping.linked.answers .empty requests = some (answers, session) ∧
      session.scopes.current + 1 = session.scopes.environments.size := by
  intro requests answers
  have hstack : Scoping.stack.answers .empty requests = some (answers, _) := rfl
  obtain ⟨session, hsession, hcurrent, _⟩ := scopes_answer_as_stack _ _ _ hstack
  exact ⟨_, session, hstack, hsession, hcurrent⟩

end Scriptlet
