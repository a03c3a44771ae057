import Scriptlet.Proofs.Ensures
import Scriptlet.Proofs.Syntax.Grammar
import Scriptlet.Proofs.Syntax.Unnumbered

/-! # Steps that accept tokens

A step accepts some tokens if it reads exactly them, whatever the identifiers it starts from. What
stands behind the tokens matters where a step looks ahead: it may then not begin with a token that
the step would read as well.
-/

namespace Scriptlet

namespace Parse

variable {α β : Type}

/-- With `rest` behind the tokens, the step reads exactly the tokens, and its result is as asked
for. -/
def Accepts (step : Parse α) (tokens rest : List Token) (good : α → Prop) : Prop :=
  ∀ finish id, ∃ result next,
    step ⟨tokens ++ rest, finish, id⟩ = .ok result ⟨rest, finish, next⟩ ∧ good result

namespace Accepts

variable {step : Parse α} {next : α → Parse β} {tokens others rest : List Token}
variable {middle : α → Prop} {good : β → Prop}

theorem pure {result : β} (h : good result) : Accepts (pure result) [] rest good := by
  intro finish id
  exact ⟨result, id, rfl, h⟩

theorem imp {good' : α → Prop} (h : Accepts step tokens rest middle)
    (hgood : ∀ result, middle result → good' result) : Accepts step tokens rest good' := by
  intro finish id
  obtain ⟨result, next, hok, hresult⟩ := h finish id
  exact ⟨result, next, hok, hgood result hresult⟩

theorem cast {tokens' : List Token} (h : Accepts step tokens rest middle)
    (htokens : tokens' = tokens) : Accepts step tokens' rest middle :=
  htokens ▸ h

theorem bind (hstep : Accepts step tokens (others ++ rest) middle)
    (hnext : ∀ result, middle result → Accepts (next result) others rest good) :
    Accepts (step >>= next) (tokens ++ others) rest good := by
  intro finish id
  obtain ⟨first, between, hfirst, hmiddle⟩ := hstep finish id
  obtain ⟨second, last, hsecond, hgood⟩ := hnext first hmiddle finish between
  refine ⟨second, last, ?_, hgood⟩
  rw [List.append_assoc, bind_of_ok hfirst]
  exact hsecond

/-- A step that reads all the tokens may be followed by one that reads nothing. -/
theorem bind_last (hstep : Accepts step tokens rest middle)
    (hnext : ∀ result, middle result → Accepts (next result) [] rest good) :
    Accepts (step >>= next) tokens rest good :=
  (hstep.bind hnext).cast (List.append_nil tokens).symm

theorem get_bind {next : Cursor → Parse β}
    (h : ∀ cursor : Cursor, cursor.tokens = tokens ++ rest →
      Accepts (next cursor) tokens rest good) :
    Accepts (MonadState.get >>= next) tokens rest good := by
  intro finish id
  exact h _ rfl finish id

/-- A bounded step may count on a limit that is larger than the number of its tokens. -/
theorem bounded {step : Nat → Parse α}
    (h : ∀ limit, tokens.length < limit → Accepts (step limit) tokens rest middle) :
    Accepts (bounded step) tokens rest middle := by
  intro finish id
  refine h _ ?_ finish id
  rw [List.length_append]
  omega

end Accepts

variable {rest tokens : List Token} {token : Token} {good : β → Prop}

theorem advance_accepts (expected : String) (token : Token) (rest : List Token) :
    Accepts (advance expected) [token] rest fun result => result = token := by
  intro finish id
  exact ⟨token, id, rfl, rfl⟩

/-- Ending with a node under a fresh identifier reads nothing. -/
theorem freshId_accepts {result : NodeId → β} (h : ∀ id, good (result id)) :
    Accepts (do let id ← freshId; return result id) [] rest good := by
  intro finish id
  exact ⟨result id, id + 1, rfl, h id⟩

section

variable {test : Cursor → Bool} {IsNext : Token → Prop} (htest : Cursor.Tells test IsNext)

include htest

/-- Reading a token under a test that tells that it is next. -/
theorem expect_accepts {expected found : String} (h : IsNext token) (rest : List Token) :
    Accepts (do if test (← get) then advance found else fail expected) [token] rest
      fun result => result = token := by
  apply Accepts.get_bind
  intro cursor hcursor
  rw [if_pos ((htest cursor).mpr ⟨token, by simp [hcursor], h⟩)]
  exact advance_accepts _ token rest

/-- Reading a token if a test tells that it is next, where it is. -/
theorem try_accepts {found : String} {next : Bool → Parse β} (h : IsNext token)
    (hnext : Accepts (next true) tokens rest good) :
    Accepts ((do
      if test (← get) then
        let _ ← advance found
        return true
      else return false) >>= next) (token :: tokens) rest good := by
  rw [bind_assoc]
  apply Accepts.get_bind
  intro cursor hcursor
  rw [if_pos ((htest cursor).mpr ⟨token, by simp [hcursor], h⟩), bind_assoc]
  apply (advance_accepts _ token _).bind
  intro _ _
  rw [pure_bind]
  exact hnext

/-- Reading a token if a test tells that it is next, where it is not. -/
theorem try_skips {found : String} {next : Bool → Parse β}
    (h : ∀ token ∈ (tokens ++ rest).head?, ¬IsNext token)
    (hnext : Accepts (next false) tokens rest good) :
    Accepts ((do
      if test (← get) then
        let _ ← advance found
        return true
      else return false) >>= next) tokens rest good := by
  rw [bind_assoc]
  apply Accepts.get_bind
  intro cursor hcursor
  rw [if_neg, pure_bind]
  · exact hnext
  · rw [htest cursor, hcursor]
    rintro ⟨token, htoken, hsymbol⟩
    exact h token htoken hsymbol

end

theorem expectOperator_accepts {symbol : String} (h : token.IsOperator symbol)
    (rest : List Token) : Accepts (expectOperator symbol) [token] rest fun _ => True :=
  (expect_accepts (Cursor.tells_atOperator symbol) h rest).imp fun _ _ => trivial

theorem expectKeyword_accepts {keyword : Keyword} (h : token.IsKeyword keyword) (expected : String)
    (rest : List Token) : Accepts (expectKeyword keyword expected) [token] rest fun _ => True :=
  (expect_accepts (Cursor.tells_atKeyword keyword) h rest).imp fun _ _ => trivial

theorem expectName_accepts {name : String} (h : token.IsName name) (expected : String)
    (rest : List Token) :
    Accepts (expectName expected) [token] rest fun result => result = name := by
  obtain ⟨hkind, rfl, hfree⟩ := h
  apply Accepts.get_bind
  intro cursor hcursor
  rw [if_pos (Cursor.atName_iff.mpr ⟨token, by simp [hcursor], hkind, rfl, hfree⟩)]
  apply (advance_accepts _ token rest).bind_last
  rintro _ rfl
  exact .pure rfl

section

variable {symbol expected : String} {keyword : Keyword} {next : Bool → Parse β}

theorem tryOperator_accepts (h : token.IsOperator symbol)
    (hnext : Accepts (next true) tokens rest good) :
    Accepts (tryOperator symbol >>= next) (token :: tokens) rest good :=
  try_accepts (Cursor.tells_atOperator symbol) h hnext

theorem tryOperator_skips (h : ∀ token ∈ (tokens ++ rest).head?, ¬token.IsOperator symbol)
    (hnext : Accepts (next false) tokens rest good) :
    Accepts (tryOperator symbol >>= next) tokens rest good :=
  try_skips (Cursor.tells_atOperator symbol) h hnext

theorem tryKeyword_accepts (h : token.IsKeyword keyword)
    (hnext : Accepts (next true) tokens rest good) :
    Accepts (tryKeyword keyword expected >>= next) (token :: tokens) rest good :=
  try_accepts (Cursor.tells_atKeyword keyword) h hnext

theorem tryKeyword_skips (h : ∀ token ∈ (tokens ++ rest).head?, ¬token.IsKeyword keyword)
    (hnext : Accepts (next false) tokens rest good) :
    Accepts (tryKeyword keyword expected >>= next) tokens rest good :=
  try_skips (Cursor.tells_atKeyword keyword) h hnext

end

end Parse

end Scriptlet
