import Scriptlet.Proofs.Ensures
import Scriptlet.Proofs.Syntax.Accepting

/-! # What a step looks at

A step looks at the tokens it reads and at the one behind them, and no further. Its outcome is the
same on all sequences that agree that far, even if the limits that it counts down differ, as long
as these are larger than the number of tokens.
-/

namespace Scriptlet.Parse

variable {α β : Type}

/-- Wherever the tokens read are followed by a token like the given one, the step has the result. -/
def SucceedsAlike (step : Parse α) (bound : Nat) (id : NodeId) (read : List Token)
    (behind : Option Token) (result : α) (nextId : NodeId) : Prop :=
  ∀ rest finish, (read ++ rest).length < bound → rest.head? = behind →
    step ⟨read ++ rest, finish, id⟩ = .ok result ⟨rest, finish, nextId⟩

/-- Wherever the tokens read are followed by the given one, the step fails with the error. -/
def FailsAlike (step : Parse α) (bound : Nat) (id : NodeId) (read : List Token) (token : Token)
    (error : Error) : Prop :=
  ∀ rest finish, (read ++ token :: rest).length < bound →
    ∃ last, step ⟨read ++ token :: rest, finish, id⟩ = .error error last

/-- On fewer tokens than the first bound, the first step reads at least `least` of them, or it
blames one of them or the end. The second step does alike on fewer tokens than its bound if they
agree with those that the first step has looked at. -/
def Agrees (least bound bound' : Nat) (step step' : Parse α) : Prop :=
  ∀ tokens finish id, tokens.length < bound → Ensures step ⟨tokens, finish, id⟩
    (fun result last => last.finish = finish ∧ ∃ read, tokens = read ++ last.tokens ∧
      least ≤ read.length ∧
      SucceedsAlike step' bound' id read last.tokens.head? result last.nextId)
    fun error _ =>
      (∃ read token rest, tokens = read ++ token :: rest ∧ error.stage = .parse token.offset ∧
        FailsAlike step' bound' id read token error) ∨
      error.stage = .parse finish ∧
        (tokens.length < bound' → ∃ last, step' ⟨tokens, finish, id⟩ = .error error last)

/-- The view depends on nothing but the next token. -/
def HeadOnly {γ : Type} (view : Cursor → γ) : Prop :=
  ∀ cursor cursor' : Cursor, cursor.tokens.head? = cursor'.tokens.head? →
    view cursor = view cursor'

theorem head?_append_congr {tokens others others' : List Token} (h : others.head? = others'.head?) :
    (tokens ++ others).head? = (tokens ++ others').head? := by
  rw [List.head?_append, List.head?_append, h]

namespace Agrees

variable {least least' bound bound' : Nat} {step step' : Parse α} {next next' : α → Parse β}

theorem mono {small small' : Nat} (h : Agrees least bound bound' step step')
    (hsmall : small ≤ bound) (hsmall' : small' ≤ bound') :
    Agrees least small small' step step' := by
  intro tokens finish id hlength
  refine (h tokens finish id (by omega)).weaken ?_ ?_
  · rintro result last ⟨hfinish, read, htokens, hleast, halike⟩
    refine ⟨hfinish, read, htokens, hleast, ?_⟩
    intro rest finish' hrest hhead
    exact halike rest finish' (by omega) hhead
  · rintro error last (⟨read, token, rest, htokens, hstage, halike⟩ | ⟨hstage, hsame⟩)
    · refine .inl ⟨read, token, rest, htokens, hstage, ?_⟩
      intro rest' finish' hrest
      exact halike rest' finish' (by omega)
    · exact .inr ⟨hstage, fun hrest => hsame (by omega)⟩

theorem weaken (h : Agrees least bound bound' step step') (hleast : least' ≤ least) :
    Agrees least' bound bound' step step' := by
  intro tokens finish id hlength
  refine (h tokens finish id hlength).imp ?_
  rintro result last ⟨hfinish, read, htokens, hread, halike⟩
  exact ⟨hfinish, read, htokens, by omega, halike⟩

theorem pure (result : α) : Agrees 0 bound bound' (pure result) (pure result) := by
  intro tokens finish id _
  refine ⟨rfl, [], rfl, by simp, ?_⟩
  intro rest finish' _ _
  rfl

/-- There is nothing to agree on below zero tokens. -/
theorem zero : Agrees least 0 bound' step step' := by
  intro tokens finish id hlength
  exact absurd hlength (Nat.not_lt_zero _)

/-- What the first step reads makes the bounds of the second smaller. -/
theorem bind (hstep : Agrees least bound bound' step step')
    (hnext : ∀ result, Agrees 0 (bound - least) (bound' - least) (next result) (next' result)) :
    Agrees least bound bound' (step >>= next) (step' >>= next') := by
  intro tokens finish id hlength
  refine ((hstep tokens finish id hlength).weaken (fun _ _ h => h) ?_).bind ?_
  · rintro error last (⟨read, token, rest, htokens, hstage, halike⟩ | ⟨hstage, hsame⟩)
    · refine .inl ⟨read, token, rest, htokens, hstage, ?_⟩
      intro rest' finish' hrest
      obtain ⟨last', herror⟩ := halike rest' finish' hrest
      exact ⟨last', bind_of_error herror⟩
    · refine .inr ⟨hstage, fun hrest => ?_⟩
      obtain ⟨last', herror⟩ := hsame hrest
      exact ⟨last', bind_of_error herror⟩
  · rintro result ⟨others, _, nextId⟩ ⟨hfinish, read, htokens, hread, halike⟩
    dsimp only at hfinish htokens halike
    obtain rfl := hfinish.symm
    subst htokens
    rw [List.length_append] at hlength
    refine (hnext result others finish nextId (by omega)).weaken ?_ ?_
    · rintro final last ⟨hfinish, more, rfl, hmore, halike'⟩
      refine ⟨hfinish, read ++ more, by simp, by simp; omega, ?_⟩
      intro rest finish' hrest hhead
      rw [List.append_assoc, List.length_append] at hrest
      rw [List.append_assoc,
        bind_of_ok (halike (more ++ rest) finish' (by simp at hrest ⊢; omega)
          (head?_append_congr hhead))]
      exact halike' rest finish' (by omega) hhead
    · rintro error last (⟨more, token, rest, rfl, hstage, halike'⟩ | ⟨hstage, hsame⟩)
      · refine .inl ⟨read ++ more, token, rest, by simp, hstage, ?_⟩
        intro rest' finish' hrest
        rw [List.append_assoc, List.length_append] at hrest
        obtain ⟨last', herror⟩ := halike' rest' finish' (by omega)
        refine ⟨last', ?_⟩
        rw [List.append_assoc,
          bind_of_ok (halike (more ++ token :: rest') finish' (by simp at hrest ⊢; omega)
            (head?_append_congr rfl))]
        exact herror
      · refine .inr ⟨hstage, fun hrest => ?_⟩
        rw [List.length_append] at hrest
        obtain ⟨last', herror⟩ := hsame (by omega)
        refine ⟨last', ?_⟩
        rw [bind_of_ok (halike others finish (by simp; omega) rfl)]
        exact herror

/-- Where the bounds need not become smaller. -/
theorem andThen (hstep : Agrees least bound bound' step step')
    (hnext : ∀ result, Agrees 0 bound bound' (next result) (next' result)) :
    Agrees 0 bound bound' (step >>= next) (step' >>= next') := by
  refine Agrees.weaken (hstep.bind fun result => ?_) (Nat.zero_le least)
  exact (hnext result).mono (Nat.sub_le _ _) (Nat.sub_le _ _)

/-- A step that looks at the next token may do one thing or another. -/
theorem get_bind {next next' : Cursor → Parse β}
    (hnext : ∀ cursor, Agrees least bound bound' (next cursor) (next' cursor))
    (hhead : HeadOnly next') :
    Agrees least bound bound' (MonadState.get >>= next) (MonadState.get >>= next') := by
  intro tokens finish id hlength
  apply Ensures.get_bind
  refine (hnext ⟨tokens, finish, id⟩ tokens finish id hlength).weaken ?_ ?_
  · rintro result last ⟨hfinish, read, rfl, hread, halike⟩
    refine ⟨hfinish, read, rfl, hread, ?_⟩
    intro rest finish' hrest hsame
    have hcursor := hhead ⟨read ++ rest, finish', id⟩ ⟨read ++ last.tokens, finish, id⟩
      (head?_append_congr hsame)
    change next' _ _ = _
    rw [hcursor]
    exact halike rest finish' hrest hsame
  · rintro error last (⟨read, token, rest, rfl, hstage, halike⟩ | ⟨hstage, hsame⟩)
    · refine .inl ⟨read, token, rest, rfl, hstage, ?_⟩
      intro rest' finish' hrest
      have hcursor := hhead ⟨read ++ token :: rest', finish', id⟩
        ⟨read ++ token :: rest, finish, id⟩ (head?_append_congr rfl)
      obtain ⟨last', herror⟩ := halike rest' finish' hrest
      refine ⟨last', ?_⟩
      change next' _ _ = _
      rw [hcursor]
      exact herror
    · exact .inr ⟨hstage, hsame⟩

theorem fail (expected : String) :
    Agrees least bound bound' (fail expected : Parse α) (fail expected) := by
  intro tokens finish id _
  cases tokens with
  | nil => exact .inr ⟨rfl, fun _ => ⟨_, rfl⟩⟩
  | cons token rest => exact .inl ⟨[], token, rest, rfl, rfl, fun _ _ _ => ⟨_, rfl⟩⟩

theorem failWith (cause : Cause) :
    Agrees least bound bound' (failWith cause : Parse α) (failWith cause) := by
  intro tokens finish id _
  cases tokens with
  | nil => exact .inr ⟨rfl, fun _ => ⟨_, rfl⟩⟩
  | cons token rest => exact .inl ⟨[], token, rest, rfl, rfl, fun _ _ _ => ⟨_, rfl⟩⟩

theorem advance (expected : String) :
    Agrees 1 bound bound' (advance expected) (advance expected) := by
  intro tokens finish id _
  cases tokens with
  | nil => exact .inr ⟨rfl, fun _ => ⟨_, rfl⟩⟩
  | cons token rest => exact ⟨rfl, [token], rfl, by simp, fun _ _ _ _ => rfl⟩

/-- After reading a token a step may go on, or it may blame the token that it has read. -/
theorem advance_bind {expected : String} {next next' : Token → Parse β}
    (h : ∀ token, Agrees 0 (bound - 1) (bound' - 1) (next token) (next' token) ∨
      ∃ cause, next token = throw ⟨cause, .parse token.offset⟩ ∧
        next' token = throw ⟨cause, .parse token.offset⟩) :
    Agrees 1 bound bound' (Parse.advance expected >>= next) (Parse.advance expected >>= next') := by
  intro tokens finish id hlength
  cases tokens with
  | nil => exact .inr ⟨rfl, fun _ => ⟨_, rfl⟩⟩
  | cons token rest =>
      rw [List.length_cons] at hlength
      rcases h token with hnext | ⟨cause, hthrow, hthrow'⟩
      · have hrest : Ensures (Parse.advance expected >>= next) ⟨token :: rest, finish, id⟩ _ _ :=
          hnext rest finish id (by omega)
        refine hrest.weaken ?_ ?_
        · rintro result last ⟨hfinish, read, rfl, -, halike⟩
          refine ⟨hfinish, token :: read, rfl, by simp, ?_⟩
          intro rest' finish' hrest' hhead
          simp only [List.cons_append, List.length_cons] at hrest'
          exact halike rest' finish' (by omega) hhead
        · rintro error last (⟨read, other, others, rfl, hstage, halike⟩ | ⟨hstage, hsame⟩)
          · refine .inl ⟨token :: read, other, others, rfl, hstage, ?_⟩
            intro rest' finish' hrest'
            simp only [List.cons_append, List.length_cons] at hrest'
            exact halike rest' finish' (by omega)
          · refine .inr ⟨hstage, fun hrest' => hsame ?_⟩
            rw [List.length_cons] at hrest'
            omega
      · have herror : ∀ {next : Token → Parse β} (others : List Token) (finish : Nat),
            next token = throw ⟨cause, .parse token.offset⟩ →
            (Parse.advance expected >>= next) ⟨token :: others, finish, id⟩ =
              .error ⟨cause, .parse token.offset⟩ ⟨others, finish, id⟩ := by
          intro next others finish hnext
          change next token ⟨others, finish, id⟩ = _
          rw [hnext]
          rfl
        unfold Ensures
        rw [herror rest finish hthrow]
        exact .inl ⟨[], token, rest, rfl, rfl, fun rest' finish' _ =>
          ⟨_, herror rest' finish' hthrow'⟩⟩

section

variable {tokens : List Token} {finish : Nat} {id : NodeId}

/-- On the same tokens both steps come to the same. -/
theorem same (h : Agrees least bound bound' step step') (hbound : tokens.length < bound)
    (hbound' : tokens.length < bound') (finish : Nat) (id : NodeId) :
    Ensures step ⟨tokens, finish, id⟩
      (fun result last => step' ⟨tokens, finish, id⟩ = .ok result last)
      fun error _ => ∃ last, step' ⟨tokens, finish, id⟩ = .error error last := by
  refine (h tokens finish id hbound).weaken ?_ ?_
  · rintro result last ⟨rfl, read, rfl, -, halike⟩
    exact halike last.tokens last.finish hbound' rfl
  · rintro error last (⟨read, token, rest, rfl, -, halike⟩ | ⟨-, hsame⟩)
    · exact halike rest finish hbound'
    · exact hsame hbound'

theorem eq_ok (h : Agrees least bound bound' step step') (hbound : tokens.length < bound)
    (hbound' : tokens.length < bound') {result : α} {last : Cursor}
    (hok : step' ⟨tokens, finish, id⟩ = .ok result last) :
    step ⟨tokens, finish, id⟩ = .ok result last := by
  have hsame := h.same hbound hbound' finish id
  cases hrun : step ⟨tokens, finish, id⟩ with
  | ok other last' =>
      have hother := hsame.of_ok hrun
      rw [hok] at hother
      exact hother.symm
  | error error last' =>
      obtain ⟨_, hother⟩ := hsame.of_error hrun
      rw [hok] at hother
      cases hother

theorem exists_error (h : Agrees least bound bound' step step') (hbound : tokens.length < bound)
    (hbound' : tokens.length < bound') {error : Error} {last : Cursor}
    (herror : step' ⟨tokens, finish, id⟩ = .error error last) :
    ∃ last', step ⟨tokens, finish, id⟩ = .error error last' := by
  have hsame := h.same hbound hbound' finish id
  cases hrun : step ⟨tokens, finish, id⟩ with
  | ok other last' =>
      have hother := hsame.of_ok hrun
      rw [herror] at hother
      cases hother
  | error other last' =>
      obtain ⟨_, hother⟩ := hsame.of_error hrun
      rw [herror] at hother
      cases hother
      exact ⟨last', rfl⟩

end

/-- A step under a limit that is larger than the number of tokens agrees with itself under any
other such limit. -/
theorem bounded {step : Nat → Parse α}
    (h : ∀ limit limit', limit ≤ limit' → Agrees least limit limit' (step limit) (step limit')) :
    Agrees least bound bound' (bounded step) (bounded step) := by
  intro tokens finish id _
  -- Both runs are compared with those under one limit that is large enough for either.
  have hrun := h (tokens.length + 1) (max (tokens.length + 1) bound') (Nat.le_max_left _ _) tokens
    finish id (Nat.lt_succ_self _)
  have hother : ∀ others : List Token, others.length < bound' →
      Agrees least (others.length + 1) (max (tokens.length + 1) bound') (step (others.length + 1))
        (step (max (tokens.length + 1) bound')) := by
    intro others hlength
    exact h _ _ (Nat.le_trans hlength (Nat.le_max_right _ _))
  have hlarge : ∀ others : List Token, others.length < bound' →
      others.length < max (tokens.length + 1) bound' := by
    intro others hlength
    exact Nat.lt_of_lt_of_le hlength (Nat.le_max_right _ _)
  refine hrun.weaken ?_ ?_
  · rintro result last ⟨hfinish, read, htokens, hread, halike⟩
    refine ⟨hfinish, read, htokens, hread, ?_⟩
    intro rest finish' hrest hhead
    exact (hother _ hrest).eq_ok (Nat.lt_succ_self _) (hlarge _ hrest)
      (halike rest finish' (hlarge _ hrest) hhead)
  · rintro error last (⟨read, token, rest, htokens, hstage, halike⟩ | ⟨hstage, hsame⟩)
    · refine .inl ⟨read, token, rest, htokens, hstage, ?_⟩
      intro rest' finish' hrest
      obtain ⟨last', herror⟩ := halike rest' finish' (hlarge _ hrest)
      exact (hother _ hrest).exists_error (Nat.lt_succ_self _) (hlarge _ hrest) herror
    · refine .inr ⟨hstage, fun hrest => ?_⟩
      obtain ⟨last', herror⟩ := hsame (hlarge _ hrest)
      exact (hother _ hrest).exists_error (Nat.lt_succ_self _) (hlarge _ hrest) herror

end Agrees

namespace HeadOnly

theorem of_test {test : Cursor → Bool} {IsNext : Token → Prop}
    (htest : Cursor.Tells test IsNext) : HeadOnly test := by
  intro cursor cursor' h
  rw [Bool.eq_iff_iff, htest, htest, h]

theorem ite {test : Cursor → Bool} (htest : HeadOnly test) (step step' : Parse α) :
    HeadOnly fun cursor => if test cursor then step else step' := by
  intro cursor cursor' h
  simp only [htest cursor cursor' h]

theorem atOperator (symbol : String) : HeadOnly (·.atOperator symbol) :=
  of_test (Cursor.tells_atOperator symbol)

theorem atKeyword (keyword : Keyword) : HeadOnly (·.atKeyword keyword) :=
  of_test (Cursor.tells_atKeyword keyword)

end HeadOnly

section

variable {bound bound' : Nat}

/-- Ending with a node under a fresh identifier looks at nothing. -/
theorem freshId_agrees (result : NodeId → α) :
    Agrees 0 bound bound' (do let id ← freshId; return result id)
      (do let id ← freshId; return result id) := by
  intro tokens finish id _
  exact ⟨rfl, [], rfl, by simp, fun _ _ _ _ => rfl⟩

theorem expectOperator_agrees (symbol : String) :
    Agrees 1 bound bound' (expectOperator symbol) (expectOperator symbol) := by
  apply Agrees.get_bind
  · intro cursor
    split
    · exact .advance _
    · exact .fail _
  · exact (HeadOnly.atOperator symbol).ite _ _

theorem expectKeyword_agrees (keyword : Keyword) (expected : String) :
    Agrees 1 bound bound' (expectKeyword keyword expected) (expectKeyword keyword expected) := by
  apply Agrees.get_bind
  · intro cursor
    split
    · exact .advance _
    · exact .fail _
  · exact (HeadOnly.atKeyword keyword).ite _ _

theorem expectName_agrees (expected : String) :
    Agrees 1 bound bound' (expectName expected) (expectName expected) := by
  apply Agrees.get_bind
  · intro cursor
    split
    · exact (Agrees.advance _).bind fun token => .pure token.text
    · exact .fail _
  · exact (HeadOnly.of_test Cursor.tells_atName).ite _ _

/-- Reading a token or not, and going on in one way or another. -/
theorem try_agrees {test : Cursor → Bool} {found : String} {next next' : Bool → Parse β}
    (htest : HeadOnly test)
    (hfound : Agrees 0 (bound - 1) (bound' - 1) (next true) (next' true))
    (habsent : Agrees 0 bound bound' (next false) (next' false)) :
    Agrees 0 bound bound'
      ((do
        if test (← get) then
          let _ ← advance found
          return true
        else return false) >>= next)
      ((do
        if test (← get) then
          let _ ← advance found
          return true
        else return false) >>= next') := by
  rw [bind_assoc, bind_assoc]
  apply Agrees.get_bind
  · intro cursor
    split
    · simp only [bind_assoc, pure_bind]
      exact ((Agrees.advance found).bind fun _ => hfound).weaken (Nat.zero_le _)
    · rw [pure_bind, pure_bind]
      exact habsent
  · intro cursor cursor' h
    simp only [htest cursor cursor' h]

theorem tryOperator_agrees {symbol : String} {next next' : Bool → Parse β}
    (hfound : Agrees 0 (bound - 1) (bound' - 1) (next true) (next' true))
    (habsent : Agrees 0 bound bound' (next false) (next' false)) :
    Agrees 0 bound bound' (tryOperator symbol >>= next) (tryOperator symbol >>= next') :=
  try_agrees (.atOperator symbol) hfound habsent

theorem tryKeyword_agrees {keyword : Keyword} {expected : String} {next next' : Bool → Parse β}
    (hfound : Agrees 0 (bound - 1) (bound' - 1) (next true) (next' true))
    (habsent : Agrees 0 bound bound' (next false) (next' false)) :
    Agrees 0 bound bound' (tryKeyword keyword expected >>= next)
      (tryKeyword keyword expected >>= next') :=
  try_agrees (.atKeyword keyword) hfound habsent

end

end Scriptlet.Parse
