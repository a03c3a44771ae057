import Scriptlet.Proofs.Ensures
import Scriptlet.Proofs.Syntax.Grammar
import Scriptlet.Proofs.Syntax.Nodes

/-! # Steps that read tokens

What the elementary steps of reading do: which tokens they take from the cursor and which nodes
they number. The larger productions are put together from them.
-/

namespace Scriptlet

/-- Between two cursors exactly the given tokens are read and the given nodes numbered, both in
order. -/
structure Reads (start : Cursor) (tokens : List Token) (nodes : List Node) (finish : Cursor) :
    Prop where
  tokens_eq : start.tokens = tokens ++ finish.tokens
  ids_eq : nodes.map Node.id = List.range' start.nextId nodes.length
  nextId_eq : finish.nextId = start.nextId + nodes.length

namespace Reads

theorem refl (cursor : Cursor) : Reads cursor [] [] cursor := ⟨rfl, rfl, rfl⟩

theorem trans {start middle finish : Cursor} {tokens others : List Token} {nodes more : List Node}
    (hfirst : Reads start tokens nodes middle) (hsecond : Reads middle others more finish) :
    Reads start (tokens ++ others) (nodes ++ more) finish := by
  refine ⟨?_, ?_, ?_⟩
  · rw [hfirst.tokens_eq, hsecond.tokens_eq, List.append_assoc]
  · rw [List.map_append, hfirst.ids_eq, hsecond.ids_eq, hfirst.nextId_eq, List.length_append,
      List.range'_append_1]
  · rw [hsecond.nextId_eq, hfirst.nextId_eq, List.length_append, Nat.add_assoc]

/-- A node that takes the next free identifier is numbered. -/
theorem number {cursor : Cursor} (node : Node) (hid : node.id = cursor.nextId) :
    Reads cursor [] [node] { cursor with nextId := cursor.nextId + 1 } :=
  ⟨rfl, by simp [hid], rfl⟩

/-- Nodes that are numbered one after the other have distinct identifiers. -/
theorem nodup {start finish : Cursor} {tokens : List Token} {nodes : List Node}
    (h : Reads start tokens nodes finish) : (nodes.map Node.id).Nodup := by
  rw [h.ids_eq]
  exact List.nodup_range'

/-- Tokens and nodes may be written in another way. -/
theorem cast {start finish : Cursor} {tokens tokens' : List Token} {nodes nodes' : List Node}
    (h : Reads start tokens nodes finish) (htokens : tokens = tokens') (hnodes : nodes = nodes') :
    Reads start tokens' nodes' finish := by
  subst htokens hnodes
  exact h

end Reads

namespace Parse

variable {α β : Type}

theorem advance_gives (expected : String) (start : Cursor) :
    Gives (advance expected) start fun token finish =>
      start.tokens.head? = some token ∧ Reads start [token] [] finish := by
  unfold Gives Ensures advance
  split
  next hok =>
    split at hok
    · cases hok
    next htokens =>
      cases hok
      exact ⟨by rw [htokens]; rfl, htokens, rfl, rfl⟩
  next => trivial

theorem fail_gives {expected : String} {start : Cursor} {good : α → Cursor → Prop} :
    Gives (fail expected) start good := trivial

theorem failWith_gives {cause : Cause} {start : Cursor} {good : α → Cursor → Prop} :
    Gives (failWith cause) start good := trivial

theorem throw_gives {error : Error} {start : Cursor} {good : α → Cursor → Prop} :
    Gives (throw error : Parse α) start good := trivial

/-- Ending with a node under a fresh identifier numbers that node. -/
theorem freshId_gives {start : Cursor} {result : NodeId → α} {good : α → Cursor → Prop}
    (h : good (result start.nextId) { start with nextId := start.nextId + 1 }) :
    Gives (do let id ← freshId; return result id) start good := h

section

variable {test : Cursor → Bool} {IsNext : Token → Prop} (htest : Cursor.Tells test IsNext)

include htest

/-- Reading a token under a test that tells that it is next. -/
theorem expect_gives {expected found : String} (start : Cursor) :
    Gives (do if test (← get) then advance found else fail expected) start fun token finish =>
      IsNext token ∧ Reads start [token] [] finish := by
  apply Ensures.get_bind
  split
  next hat => exact (advance_gives _ _).imp fun _ _ h => ⟨htest.of_head hat h.1, h.2⟩
  · exact fail_gives

/-- Reading a token if a test tells that it is next, and going on in one way or another. -/
theorem try_gives {found : String} {start : Cursor} {next : Bool → Parse β}
    {good : β → Cursor → Prop}
    (hfound : ∀ token finish, IsNext token → Reads start [token] [] finish →
      Gives (next true) finish good)
    (habsent : Gives (next false) start good) :
    Gives ((do
      if test (← get) then
        let _ ← advance found
        return true
      else return false) >>= next) start good := by
  rw [bind_assoc]
  apply Ensures.get_bind
  split
  next hat =>
    rw [bind_assoc]
    refine (advance_gives _ _).bind fun token finish h => ?_
    exact hfound token finish (htest.of_head hat h.1) h.2
  · exact habsent

end

theorem expectOperator_gives (operator : String) (start : Cursor) :
    Gives (expectOperator operator) start fun token finish =>
      token.IsOperator operator ∧ Reads start [token] [] finish :=
  expect_gives (Cursor.tells_atOperator operator) start

theorem expectKeyword_gives (keyword : Keyword) (expected : String) (start : Cursor) :
    Gives (expectKeyword keyword expected) start fun token finish =>
      token.IsKeyword keyword ∧ Reads start [token] [] finish :=
  expect_gives (Cursor.tells_atKeyword keyword) start

theorem expectName_gives (expected : String) (start : Cursor) :
    Gives (expectName expected) start fun name finish =>
      ∃ token : Token, token.IsName name ∧ Reads start [token] [] finish := by
  apply Ensures.get_bind
  split
  next hat =>
    refine (advance_gives _ _).bind fun token finish h => ?_
    exact Ensures.pure ⟨token, Cursor.tells_atName.of_head hat h.1, h.2⟩
  · exact fail_gives

theorem tryOperator_gives {operator : String} {start : Cursor} {next : Bool → Parse β}
    {good : β → Cursor → Prop}
    (hfound : ∀ token finish, Token.IsOperator operator token → Reads start [token] [] finish →
      Gives (next true) finish good)
    (habsent : Gives (next false) start good) :
    Gives (tryOperator operator >>= next) start good :=
  try_gives (Cursor.tells_atOperator operator) hfound habsent

theorem tryKeyword_gives {keyword : Keyword} {expected : String} {start : Cursor}
    {next : Bool → Parse β} {good : β → Cursor → Prop}
    (hfound : ∀ token finish, Token.IsKeyword keyword token → Reads start [token] [] finish →
      Gives (next true) finish good)
    (habsent : Gives (next false) start good) :
    Gives (tryKeyword keyword expected >>= next) start good :=
  try_gives (Cursor.tells_atKeyword keyword) hfound habsent

/-- The production reads what its results are written with and numbers their nodes. -/
def Reading (step : Parse α) (Written : α → List Token → Prop) (nodes : α → List Node)
    (Valid : α → Prop) : Prop :=
  ∀ start, Gives step start fun result finish =>
    (∃ tokens, Reads start tokens (nodes result) finish ∧ Written result tokens) ∧ Valid result

/-- Items between commas are read up to the closing bracket and with it. -/
theorem separated_gives {item : Parse α} {Written : α → List Token → Prop}
    {nodes : α → List Node} {Valid : α → Prop} (hitem : Reading item Written nodes Valid)
    (closing : String) (limit : Nat) (start : Cursor) :
    Gives (separated item closing limit) start fun items finish =>
      (∃ tokens bracket, Separated Written items tokens ∧ Token.IsOperator closing bracket ∧
        Reads start (tokens ++ [bracket]) (items.flatMap nodes) finish) ∧
      items ≠ [] ∧ ∀ each ∈ items, Valid each := by
  induction limit generalizing start with
  | zero => exact fail_gives
  | succ limit ih =>
      refine (hitem start).bind fun first middle hfirst => ?_
      obtain ⟨⟨tokens, hreads, hwritten⟩, hvalid⟩ := hfirst
      refine tryOperator_gives ?_ ?_
      · intro comma after hcomma hread
        apply Ensures.get_bind
        split
        · exact failWith_gives
        · refine (ih after).bind fun rest finish hrest => Ensures.pure ?_
          obtain ⟨⟨others, bracket, hothers, hbracket, hmore⟩, -, hvalids⟩ := hrest
          refine ⟨⟨tokens ++ comma :: others, bracket, .more hwritten hcomma hothers, hbracket,
            ((hreads.trans hread).trans hmore).cast (by simp) (by simp)⟩, by simp, ?_⟩
          simpa using ⟨hvalid, hvalids⟩
      · refine (expectOperator_gives closing middle).bind fun bracket finish h => Ensures.pure ?_
        refine ⟨⟨tokens, bracket, .one hwritten, h.1, (hreads.trans h.2).cast rfl (by simp)⟩,
          by simp, ?_⟩
        simpa using hvalid

theorem typeAnnotation_reading :
    Reading typeAnnotation TypeWritten (fun _ => [])
      fun typeName => ∀ name ∈ typeName, Keyword.ofText? name = none := by
  intro start
  refine tryOperator_gives ?_ ?_
  · intro colon after hcolon hread
    refine (expectName_gives _ after).bind fun name finish h => Ensures.pure ?_
    obtain ⟨token, htoken, hname⟩ := h
    refine ⟨⟨_, hread.trans hname, .some hcolon htoken⟩, ?_⟩
    simpa using htoken.2.2
  · exact Ensures.pure ⟨⟨[], .refl start, .none⟩, by simp⟩

end Parse

end Scriptlet
