import Scriptlet.Proofs.Ensures
import Scriptlet.Proofs.Scope.Outline
import Scriptlet.Proofs.Syntax.Nodes
import Scriptlet.Proofs.Typing.Derivation

/-! # Soundness of checking expressions

A check that goes through gives a derivation. A check makes its records one after the other, while
a derivation has all of them from the start, so what a check finds is stated for all annotations
that agree with its records on the nodes it has visited. As nodes have distinct identifiers, later
records leave those as they are.
-/

namespace Scriptlet

/-- The nodes have distinct identifiers. -/
def Node.Distinct (nodes : List Node) : Prop :=
  (nodes.map Node.id).Nodup

namespace Node.Distinct

variable {nodes more : List Node}

theorem left (h : Distinct (nodes ++ more)) : Distinct nodes := by
  rw [Distinct, List.map_append, List.nodup_append] at h
  exact h.1

theorem right (h : Distinct (nodes ++ more)) : Distinct more := by
  rw [Distinct, List.map_append, List.nodup_append] at h
  exact h.2.1

theorem disjoint (h : Distinct (nodes ++ more)) {node : Node} (hnode : node ∈ nodes) :
    node.id ∉ more.map Node.id := by
  rw [Distinct, List.map_append, List.nodup_append] at h
  intro hmore
  exact h.2.2 _ (List.mem_map_of_mem hnode) _ hmore rfl

theorem perm (h : Distinct nodes) (hperm : nodes.Perm more) : Distinct more :=
  (hperm.map Node.id).nodup_iff.mp h

end Node.Distinct

namespace Annotations

/-- All that the annotations say of a node. -/
def entry (notes : Annotations) (id : NodeId) :
    Option Ty × Option Ty × Option VariableOrigin × Option FunctionOrigin :=
  (notes.typeOf? id, notes.declaredTypeOf? id, notes.variableOf? id, notes.functionOf? id)

variable {notes other : Annotations} {id node : NodeId}

theorem typeOf?_eq (h : notes.entry id = other.entry id) : notes.typeOf? id = other.typeOf? id :=
  congrArg (·.1) h

theorem declaredTypeOf?_eq (h : notes.entry id = other.entry id) :
    notes.declaredTypeOf? id = other.declaredTypeOf? id :=
  congrArg (·.2.1) h

theorem variableOf?_eq (h : notes.entry id = other.entry id) :
    notes.variableOf? id = other.variableOf? id :=
  congrArg (·.2.2.1) h

theorem functionOf?_eq (h : notes.entry id = other.entry id) :
    notes.functionOf? id = other.functionOf? id :=
  congrArg (·.2.2.2) h

@[simp] theorem typeOf?_recordType (ty : Ty) : (notes.recordType id ty).typeOf? id = some ty := by
  simp [recordType, typeOf?, Table.value?_bind]

@[simp] theorem declaredTypeOf?_recordDeclaration (ty : Ty) :
    (notes.recordDeclaration id ty).declaredTypeOf? id = some ty := by
  simp [recordDeclaration, declaredTypeOf?, Table.value?_bind]

@[simp] theorem variableOf?_recordVariable (origin : VariableOrigin) :
    (notes.recordVariable id origin).variableOf? id = some origin := by
  simp [recordVariable, variableOf?, Table.value?_bind]

@[simp] theorem functionOf?_recordFunction (origin : FunctionOrigin) :
    (notes.recordFunction id origin).functionOf? id = some origin := by
  simp [recordFunction, functionOf?, Table.value?_bind]

theorem entry_recordType_of_ne (h : id ≠ node) (ty : Ty) :
    (notes.recordType node ty).entry id = notes.entry id := by
  simp [entry, recordType, typeOf?, declaredTypeOf?, variableOf?, functionOf?, Table.value?_bind,
    h.symm]

theorem entry_recordDeclaration_of_ne (h : id ≠ node) (ty : Ty) :
    (notes.recordDeclaration node ty).entry id = notes.entry id := by
  simp [entry, recordDeclaration, typeOf?, declaredTypeOf?, variableOf?, functionOf?,
    Table.value?_bind, h.symm]

theorem entry_recordVariable_of_ne (h : id ≠ node) (origin : VariableOrigin) :
    (notes.recordVariable node origin).entry id = notes.entry id := by
  simp [entry, recordVariable, typeOf?, declaredTypeOf?, variableOf?, functionOf?,
    Table.value?_bind, h.symm]

theorem entry_recordFunction_of_ne (h : id ≠ node) (origin : FunctionOrigin) :
    (notes.recordFunction node origin).entry id = notes.entry id := by
  simp [entry, recordFunction, typeOf?, declaredTypeOf?, variableOf?, functionOf?,
    Table.value?_bind, h.symm]

end Annotations

/-- Between two states of the records only those of the given nodes are made, and the fact holds
for all annotations that agree with these records. -/
structure Annotations.Recorded (nodes : List Node) (start finish : Annotations)
    (fact : Annotations → Prop) : Prop where
  others : ∀ id ∉ nodes.map Node.id, finish.entry id = start.entry id
  fact : ∀ notes : Annotations,
    (∀ node ∈ nodes, notes.entry node.id = finish.entry node.id) → fact notes

namespace Annotations.Recorded

variable {nodes more : List Node} {start middle finish : Annotations}
variable {fact other : Annotations → Prop}

/-- The fact holds in particular for the records just made. -/
theorem now (h : Recorded nodes start finish fact) : fact finish :=
  h.fact finish fun _ _ => rfl

theorem imp (h : Recorded nodes start finish fact) (himp : ∀ notes, fact notes → other notes) :
    Recorded nodes start finish other :=
  ⟨h.others, fun notes hnotes => himp notes (h.fact notes hnotes)⟩

theorem nothing (h : ∀ notes, fact notes) : Recorded [] start start fact :=
  ⟨fun _ _ => rfl, fun notes _ => h notes⟩

theorem append (hdistinct : Node.Distinct (nodes ++ more))
    (hfirst : Recorded nodes start middle fact) (hsecond : Recorded more middle finish other) :
    Recorded (nodes ++ more) start finish fun notes => fact notes ∧ other notes := by
  refine ⟨fun id hid => ?_, fun notes hnotes => ?_⟩
  · rw [List.map_append, List.mem_append, not_or] at hid
    exact (hsecond.others id hid.2).trans (hfirst.others id hid.1)
  · refine ⟨hfirst.fact notes fun node hnode => ?_, hsecond.fact notes fun node hnode => ?_⟩
    · have hkept := hsecond.others node.id (hdistinct.disjoint hnode)
      exact (hnotes node (List.mem_append_left _ hnode)).trans hkept
    · exact hnotes node (List.mem_append_right _ hnode)

/-- What was recorded of the nodes before does not matter. -/
theorem of_others {before : Annotations} (h : Recorded nodes start finish fact)
    (hothers : ∀ id ∉ nodes.map Node.id, start.entry id = before.entry id) :
    Recorded nodes before finish fact :=
  ⟨fun id hid => (h.others id hid).trans (hothers id hid), h.fact⟩

/-- A record of one node. -/
theorem node (node : Node) (change : Annotations → Annotations)
    (hchange : ∀ id, id ≠ node.id → (change start).entry id = start.entry id) :
    Recorded [node] start (change start) fun notes =>
      notes.entry node.id = (change start).entry node.id :=
  ⟨fun id hid => hchange id (by simpa using hid),
    fun _ hnotes => hnotes node (List.mem_singleton_self node)⟩

/-- The type of an expression is recorded after its parts. -/
theorem typed {e : Expr} (hdistinct : Node.Distinct (nodes ++ [.expression e])) (ty : Ty)
    (h : Recorded nodes start finish fact) :
    Recorded (nodes ++ [.expression e]) start (finish.recordType e.id ty) fun notes =>
      fact notes ∧ notes.typeOf? e.id = some ty := by
  refine (h.append hdistinct (node (.expression e) (·.recordType e.id ty) fun id hne => ?_)).imp
    fun notes ⟨hfact, hentry⟩ => ⟨hfact, (typeOf?_eq hentry).trans ?_⟩
  · exact entry_recordType_of_ne hne ty
  · exact typeOf?_recordType ty

/-- The type of a declaration is recorded after its parts. -/
theorem declared {node : Node} (hdistinct : Node.Distinct (nodes ++ [node])) (ty : Ty)
    (h : Recorded nodes start finish fact) :
    Recorded (nodes ++ [node]) start (finish.recordDeclaration node.id ty) fun notes =>
      fact notes ∧ notes.declaredTypeOf? node.id = some ty := by
  refine (h.append hdistinct (.node node (·.recordDeclaration node.id ty) fun id hne => ?_)).imp
    fun notes ⟨hfact, hentry⟩ => ⟨hfact, (declaredTypeOf?_eq hentry).trans ?_⟩
  · exact entry_recordDeclaration_of_ne hne ty
  · exact declaredTypeOf?_recordDeclaration ty

end Annotations.Recorded

/-- Nothing but the records differs between two states of a check. -/
structure Typing.Alike (start finish : Typing) : Prop where
  scopes : finish.scopes = start.scopes
  returnType : finish.returnType = start.returnType

theorem Typing.Alike.trans {start middle finish : Typing} (hfirst : start.Alike middle)
    (hsecond : middle.Alike finish) : start.Alike finish :=
  ⟨hsecond.scopes.trans hfirst.scopes, hsecond.returnType.trans hfirst.returnType⟩

namespace Check

open Annotations (Recorded)

/-! ## Elementary checks -/

variable {α : Type}

theorem lift_gives (result : Except Cause α) (typing : Typing) :
    Gives (lift result) typing fun value finish => result = .ok value ∧ finish = typing := by
  cases result with
  | ok value => exact ⟨rfl, rfl⟩
  | error cause => trivial

theorem requireAssignable_gives (target source : Ty) (typing : Typing) :
    Gives (lift (Ty.requireAssignable target source)) typing fun _ finish =>
      target.accepts source = true ∧ finish = typing := by
  refine (lift_gives _ typing).imp fun _ finish h => ?_
  obtain ⟨hok, rfl⟩ := h
  unfold Ty.requireAssignable at hok
  split at hok
  next haccepts => exact ⟨haccepts, rfl⟩
  next => cases hok

theorem visibleVariable_gives (id : NodeId) (name : String) (typing : Typing) :
    Gives (visibleVariable id name) typing fun info finish =>
      typing.scopes.findVariable? name = some info ∧
        finish = { typing with annotations := typing.annotations.recordVariable id info.origin } :=
    by
  apply Ensures.get_bind
  split
  · trivial
  next info hfind => exact ⟨hfind, rfl⟩

theorem declareVariable_gives (name : String) (info : VariableInfo) (typing : Typing) :
    Gives (declareVariable name info) typing fun _ finish =>
      ∃ scopes, typing.scopes.declareVariable name info = .ok scopes ∧
        finish = { typing with scopes } := by
  apply Ensures.get_bind
  refine (lift_gives _ typing).bind fun scopes middle h => ?_
  obtain ⟨hok, rfl⟩ := h
  exact ⟨scopes, hok, rfl⟩

theorem declareFunction_gives (signature : Signature) (info : FunctionInfo) (typing : Typing) :
    Gives (declareFunction signature info) typing fun _ finish =>
      ∃ scopes, typing.scopes.declareFunction signature info = .ok scopes ∧
        finish = { typing with scopes } := by
  apply Ensures.get_bind
  refine (lift_gives _ typing).bind fun scopes middle h => ?_
  obtain ⟨hok, rfl⟩ := h
  exact ⟨scopes, hok, rfl⟩

/-- A check between entering and leaving a frame, from what the check does inside. -/
theorem within_gives {enter leave : StaticScopes → StaticScopes} {check : Check α}
    {typing : Typing} {good : α → Typing → Prop}
    (h : Gives check { typing with scopes := enter typing.scopes } fun result finish =>
      good result { finish with scopes := leave finish.scopes }) :
    Gives (within enter leave check) typing good := by
  unfold Gives Ensures at h ⊢
  unfold within
  split at h
  next hok => simp only [hok]; exact h
  next herror => simp only [herror]

/-! ## Expressions -/

/-- Every function that can be seen has as many parameters as its signature says. -/
def ArityFits (scopes : StaticScopes) : Prop :=
  ∀ signature info, scopes.findFunction? signature = some info →
    info.parameterTypes.length = signature.arity

/-- What a check of an expression or of several finds. It leaves the scopes as they are. -/
abbrev Finds (check : Check α) (nodes : List Node) (typing : Typing)
    (fact : α → Annotations → Prop) : Prop :=
  Gives check typing fun result finish =>
    typing.Alike finish ∧
      Recorded nodes typing.annotations finish.annotations (fact result)

theorem fits_gives (elementType : Option Ty) (ty : Ty) (typing : Typing) :
    Gives (fits elementType ty) typing fun _ finish =>
      (elementType.getD .any).accepts ty = true ∧ finish = typing := by
  cases elementType with
  | none => exact ⟨rfl, rfl⟩
  | some target => exact requireAssignable_gives target ty typing

mutual

theorem expression_finds : ∀ (e : Expr) (typing : Typing), Node.Distinct e.nodes →
    ArityFits typing.scopes →
    Finds (expression e) e.nodes typing fun ty notes => e.Typed notes typing.scopes ty
  | .literal id value, typing, _, _ => by
      simp only [expression, Expr.nodes]
      refine (lift_gives _ typing).bind fun ty middle h => ?_
      obtain ⟨hty, rfl⟩ := h
      exact ⟨⟨rfl, rfl⟩, ((Recorded.nothing fun _ => hty).typed (by simp [Node.Distinct]) ty).imp
        fun notes ⟨hty, htype⟩ => .literal hty htype⟩
  | .group id inner, typing, hdistinct, harity => by
      simp only [expression, Expr.nodes]
      split
      case isFalse => trivial
      rw [Expr.nodes] at hdistinct
      refine (expression_finds inner typing hdistinct.left harity).bind fun ty middle h => ?_
      obtain ⟨halike, hinner⟩ := h
      exact ⟨⟨halike.scopes, halike.returnType⟩, (hinner.typed hdistinct ty).imp
        fun notes ⟨hinner, htype⟩ => .group hinner htype⟩
  | .binary id operator left right, typing, hdistinct, harity => by
      simp only [expression, Expr.nodes]
      rw [Expr.nodes] at hdistinct
      refine (expression_finds left typing hdistinct.left.left harity).bind
        fun leftType m1 h1 => ?_
      obtain ⟨h1, hleft⟩ := h1
      refine (expression_finds right m1 hdistinct.left.right (h1.scopes ▸ harity)).bind
        fun rightType m2 h2 => ?_
      obtain ⟨h2, hright⟩ := h2
      rw [h1.scopes] at hright
      refine (lift_gives _ m2).bind fun ty m3 h3 => ?_
      obtain ⟨hty, rfl⟩ := h3
      refine ⟨⟨(h1.trans h2).scopes, (h1.trans h2).returnType⟩, ?_⟩
      exact ((hleft.append hdistinct.left hright).typed hdistinct ty).imp
        fun notes ⟨⟨hleft, hright⟩, htype⟩ => .binary hleft hright hty htype
  | .access id name, typing, _, _ => by
      simp only [expression, Expr.nodes]
      refine (visibleVariable_gives id name typing).bind fun info middle h => ?_
      obtain ⟨hfind, rfl⟩ := h
      refine ⟨⟨rfl, rfl⟩, (Recorded.node (.expression (.access id name))
        (fun notes => (notes.recordVariable id info.origin).recordType id info.bareType)
        fun other hne => ?_).imp fun notes hentry => ?_⟩
      · exact (Annotations.entry_recordType_of_ne hne _).trans
          (Annotations.entry_recordVariable_of_ne hne _)
      · exact .access hfind
          ((Annotations.variableOf?_eq hentry).trans (Annotations.variableOf?_recordVariable _))
          ((Annotations.typeOf?_eq hentry).trans (Annotations.typeOf?_recordType _))
  | .element id name index, typing, hdistinct, harity => by
      simp only [expression, Expr.nodes]
      rw [Expr.nodes] at hdistinct
      refine (visibleVariable_gives id name typing).bind fun info m1 h1 => ?_
      obtain ⟨hfind, rfl⟩ := h1
      refine Ensures.bind (expression_finds index
        { typing with annotations := typing.annotations.recordVariable id info.origin }
        hdistinct.left harity) fun indexType m2 h2 => ?_
      obtain ⟨h2, hindex⟩ := h2
      refine (requireAssignable_gives .integer indexType m2).bind fun _ m3 h3 => ?_
      obtain ⟨haccepts, rfl⟩ := h3
      obtain rfl := Ty.eq_of_accepts haccepts (by decide) (by decide)
      split
      case isFalse => trivial
      next hlist =>
      -- The variable was recorded before the index was checked, and the index left that record.
      have hkept : m3.annotations.variableOf? id = some info.origin := by
        have hself : id ∉ index.nodes.map Node.id := by
          intro hmem
          obtain ⟨node, hnode, hid⟩ := List.mem_map.mp hmem
          exact hdistinct.disjoint hnode (hid ▸ List.mem_singleton_self id)
        exact (Annotations.variableOf?_eq (hindex.others id hself)).trans
          (Annotations.variableOf?_recordVariable _)
      refine ⟨⟨h2.scopes, h2.returnType⟩, Recorded.of_others ((hindex.append hdistinct
        (Recorded.node (.expression (.element id name index)) (·.recordType id info.ty)
          fun other hne => ?_)).imp fun notes ⟨hindex, hentry⟩ => ?_) fun other hother => ?_⟩
      · exact Annotations.entry_recordType_of_ne hne _
      · exact .element hfind hindex (by simpa using hlist)
          ((Annotations.variableOf?_eq hentry).trans hkept)
          ((Annotations.typeOf?_eq hentry).trans (Annotations.typeOf?_recordType _))
      · refine Annotations.entry_recordVariable_of_ne (fun heq => hother ?_) _
        exact List.mem_map.mpr ⟨_, List.mem_append_right _ (List.mem_singleton_self _), heq.symm⟩
  | .call id name arguments, typing, hdistinct, harity => by
      simp only [expression, Expr.nodes]
      rw [Expr.nodes] at hdistinct
      apply Ensures.get_bind
      split
      · trivial
      next info hfind =>
      refine (passed_finds arguments info.parameterTypes typing hdistinct.left harity
        (harity _ _ hfind).symm).bind fun _ middle h => ?_
      obtain ⟨halike, hpassed⟩ := h
      refine ⟨⟨halike.scopes, halike.returnType⟩, (hpassed.append hdistinct
        (Recorded.node (.expression (.call id name arguments))
          (fun notes => (notes.recordFunction id info.origin).recordType id info.returnType)
          fun other hne => ?_)).imp fun notes ⟨hpassed, hentry⟩ => ?_⟩
      · exact (Annotations.entry_recordType_of_ne hne _).trans
          (Annotations.entry_recordFunction_of_ne hne _)
      · exact .call hfind hpassed
          ((Annotations.functionOf?_eq hentry).trans (Annotations.functionOf?_recordFunction _))
          ((Annotations.typeOf?_eq hentry).trans (Annotations.typeOf?_recordType _))
  | .list id elements, typing, hdistinct, harity => by
      simp only [expression, Expr.nodes]
      rw [Expr.nodes] at hdistinct
      refine (held_finds none elements typing hdistinct.left harity).bind fun _ middle h => ?_
      obtain ⟨halike, hheld⟩ := h
      exact ⟨⟨halike.scopes, halike.returnType⟩, (hheld.typed hdistinct .any).imp
        fun notes ⟨hheld, htype⟩ => .list hheld htype⟩

theorem passed_finds : ∀ (arguments : List Expr) (parameters : List Ty) (typing : Typing),
    Node.Distinct (Expr.listNodes arguments) → ArityFits typing.scopes →
    arguments.length = parameters.length →
    Finds (passed arguments parameters) (Expr.listNodes arguments) typing fun _ notes =>
      Expr.Passed notes typing.scopes arguments parameters
  | [], [], typing, _, _, _ => by
      simp only [passed, Expr.listNodes]
      exact ⟨⟨rfl, rfl⟩, .nothing fun _ => .nil⟩
  | argument :: arguments, parameter :: parameters, typing, hdistinct, harity, hlength => by
      simp only [passed, Expr.listNodes]
      rw [Expr.listNodes] at hdistinct
      refine (expression_finds argument typing hdistinct.left harity).bind fun ty m1 h1 => ?_
      obtain ⟨h1, hargument⟩ := h1
      refine (requireAssignable_gives parameter ty m1).bind fun _ m2 h2 => ?_
      obtain ⟨haccepts, rfl⟩ := h2
      refine (passed_finds arguments parameters m2 hdistinct.right (h1.scopes ▸ harity)
        (by simpa using hlength)).imp fun _ finish h3 => ?_
      obtain ⟨h2, hrest⟩ := h3
      rw [h1.scopes] at hrest
      exact ⟨h1.trans h2, (hargument.append hdistinct hrest).imp
        fun notes ⟨hargument, hrest⟩ => .cons hargument haccepts hrest⟩
  | [], _ :: _, _, _, _, hlength => by cases hlength
  | _ :: _, [], _, _, _, hlength => by cases hlength

theorem held_finds (elementType : Option Ty) : ∀ (elements : List Expr) (typing : Typing),
    Node.Distinct (Expr.listNodes elements) → ArityFits typing.scopes →
    Finds (held elementType elements) (Expr.listNodes elements) typing fun _ notes =>
      Expr.Passed notes typing.scopes elements (elements.map fun _ => elementType.getD .any)
  | [], typing, _, _ => by
      simp only [held, Expr.listNodes]
      exact ⟨⟨rfl, rfl⟩, .nothing fun _ => .nil⟩
  | element :: elements, typing, hdistinct, harity => by
      simp only [held, Expr.listNodes]
      rw [Expr.listNodes] at hdistinct
      refine (expression_finds element typing hdistinct.left harity).bind fun ty m1 h1 => ?_
      obtain ⟨h1, helement⟩ := h1
      refine (fits_gives elementType ty m1).bind fun _ m2 h2 => ?_
      obtain ⟨haccepts, rfl⟩ := h2
      refine (held_finds elementType elements m2 hdistinct.right (h1.scopes ▸ harity)).imp
        fun _ finish h3 => ?_
      obtain ⟨h2, hrest⟩ := h3
      rw [h1.scopes] at hrest
      exact ⟨h1.trans h2, (helement.append hdistinct hrest).imp
        fun notes ⟨helement, hrest⟩ => .cons helement haccepts hrest⟩

end

end Check

end Scriptlet
