import Scriptlet.Proofs.Token.Order

/-! # Texts one after the other

A separator between two texts keeps their tokens apart: nothing before it could have been read
longer, or otherwise, because of what follows, and what follows is read as if it stood alone, only
further down.
-/

namespace Scriptlet

open Text

/-- The token, as many bytes further down in a text. -/
def Token.moved (distance : Nat) (token : Token) : Token :=
  { token with offset := token.offset + distance }

/-! ## Separators end lexemes -/

namespace Lexeme

/-- A separator continues no token, and it takes one byte. -/
theorem separator_ends {c : Char} (h : c ∈ Lexis.separators) :
    c.isDigit = false ∧ continuesIdentifier c = false ∧ c ∉ ['.', '&', '|', '='] ∧
      c.utf8Size = 1 := by
  simp only [Lexis.separators, List.mem_cons, List.not_mem_nil, or_false] at h
  rcases h with rfl | rfl | rfl | rfl | rfl | rfl <;> decide

variable {separator : Char} {text after : List Char}

theorem Stops.append (h : Stops text) (hseparator : separator ∈ Lexis.separators) :
    Stops (text ++ separator :: after) := by
  cases text with
  | nil =>
      intro c hc
      cases hc
      exact (separator_ends hseparator).1
  | cons first rest => exact h

/-- A number is read in the same way before a separator as at the end of the text. -/
theorem Shape.number_append (hshape : Shape text) (hseparator : separator ∈ Lexis.separators) :
    number (text ++ separator :: after) = number text := by
  cases hshape with
  | @integer sign whole rest hfront hrest hpoint =>
      have hpoint' : (rest ++ separator :: after).head? ≠ some '.' := by
        cases rest with
        | nil =>
            rintro hhead
            cases hhead
            exact absurd hseparator (by decide)
        | cons first rest => exact hpoint
      rw [List.append_assoc, List.append_assoc,
        hfront.number_integer (hrest.append hseparator) hpoint', hfront.number_integer hrest hpoint]
  | decimal hfront hne hfraction hrest =>
      rw [List.append_assoc, List.append_assoc, List.cons_append, List.append_assoc,
        hfront.number_decimal hne hfraction (hrest.append hseparator),
        hfront.number_decimal hne hfraction hrest]
  | point hfront hrest =>
      rw [List.append_assoc, List.append_assoc, List.cons_append,
        hfront.number_point (hrest.append hseparator), hfront.number_point hrest]

theorem startsNumber_append (c : Char) (hseparator : separator ∈ Lexis.separators) :
    startsNumber c (text ++ separator :: after) = startsNumber c text := by
  cases text with
  | nil => simp [startsNumber, (separator_ends hseparator).1]
  | cons first rest => rfl

theorem operatorTail_append (c : Char) (hseparator : separator ∈ Lexis.separators) :
    operatorTail c (text ++ separator :: after) = operatorTail c text := by
  cases text with
  | nil =>
      rcases operatorTail_cases c (separator :: after) with hnone | ⟨_, d, rest, heq, hmem⟩
      · rw [List.nil_append, hnone]
        simp [operatorTail]
      · cases heq
        have hends := (separator_ends hseparator).2.2.1
        rcases hmem with hmem | hmem | hmem | hmem <;> cases hmem <;> exact absurd hends (by decide)
  | cons first rest =>
      -- Only the first of the characters that follow is looked at.
      unfold operatorTail
      split <;> split <;> simp_all

theorem takeWhile_append_of_stop {test : Char → Bool} (hstop : test separator = false) :
    (text ++ separator :: after).takeWhile test = text.takeWhile test := by
  induction text with
  | nil => simp [hstop]
  | cons first rest ih => rw [List.cons_append, List.takeWhile_cons, List.takeWhile_cons, ih]

/-- A lexeme is read in the same way before a separator as at the end of the text. -/
theorem read_append {c : Char} {kind : TokenKind} {more : Nat}
    (hseparator : separator ∈ Lexis.separators) (h : read c text = .ok (kind, more)) :
    read c (text ++ separator :: after) = .ok (kind, more) := by
  unfold read at h ⊢
  rw [startsNumber_append c hseparator]
  split at h
  next hnumber =>
    rw [if_pos hnumber, ← List.cons_append,
      (shape_of_startsNumber hnumber).number_append hseparator]
    exact h
  next hnumber =>
    rw [if_neg hnumber]
    split at h
    next hquote =>
      obtain ⟨length, hok, heq⟩ := exists_of_map_eq_ok h
      obtain ⟨body, rest, hbody, rfl, rfl⟩ := exists_of_characterTail hok
      rw [if_pos hquote, List.append_assoc, List.cons_append, characterTail_of_mem hbody, ← heq]
      rfl
    next hquote =>
      rw [if_neg hquote]
      split at h
      next hidentifier =>
        rw [if_pos hidentifier, takeWhile_append_of_stop (separator_ends hseparator).2.1]
        exact h
      next hidentifier =>
        rw [if_neg hidentifier]
        split at h
        next hdouble =>
          obtain ⟨length, hok, heq⟩ := exists_of_map_eq_ok h
          obtain ⟨body, rest, hbody, rfl, rfl⟩ := exists_of_stringTail hok
          rw [if_pos hdouble, List.append_assoc, List.cons_append, stringTail_of_mem hbody, ← heq]
          rfl
        next hdouble =>
          rw [if_neg hdouble, operatorTail_append c hseparator]
          exact h

end Lexeme

/-! ## Scanning -/

/-- The token of a lexeme comes first, and then those of the rest. -/
theorem scan_append_of_read {c : Char} {piece rest : List Char} {kind : TokenKind}
    (hstart : ¬ Lexeme.isSeparator c = true)
    (hread : Lexeme.read c (piece ++ rest) = .ok (kind, piece.length)) (offset : Nat) :
    scan offset (c :: (piece ++ rest)) =
      (scan (offset + byteLength (c :: piece)) rest).map
        (⟨kind, String.ofList (c :: piece), offset⟩ :: ·) := by
  rw [scan, if_neg hstart, hread]
  simp only [List.take_left, List.drop_left]
  cases scan (offset + byteLength (c :: piece)) rest <;> rfl

/-- From a text that is scanned, the scan goes on behind a separator. -/
theorem scan_append {offset : Nat} {text : List Char} {tokens : List Token}
    (h : scan offset text = .ok tokens) {separator : Char}
    (hseparator : separator ∈ Lexis.separators) (after : List Char) :
    scan offset (text ++ separator :: after) =
      (scan (offset + (byteLength text + 1)) after).map (tokens ++ ·) := by
  have hsize : separator.utf8Size = 1 := (Lexeme.separator_ends hseparator).2.2.2
  have hskip : Lexeme.isSeparator separator = true := Lexis.isSeparator_iff.mpr hseparator
  fun_induction scan offset text generalizing tokens with
  | case1 offset =>
      cases h
      rw [List.nil_append, scan, if_pos hskip, hsize, byteLength_nil, Nat.zero_add]
      cases scan (offset + 1) after <;> rfl
  | case2 offset c cs hskipped ih =>
      rw [List.cons_append, scan, if_pos hskipped, ih h, byteLength_cons, Nat.add_assoc,
        Nat.add_assoc]
  | case3 => cases h
  | case4 offset c cs hstart kind more hread lexeme =>
      rename_i ih
      obtain ⟨piece, rest, rfl, rfl, _⟩ := Lexeme.read_longest (Bool.eq_false_iff.mpr hstart) hread
      have hlexeme : lexeme = c :: piece := congrArg (List.cons c) List.take_left
      rw [List.drop_left, hlexeme] at ih h
      cases hrest : scan (offset + byteLength (c :: piece)) rest with
      | error error =>
          rw [hrest] at h
          cases h
      | ok others =>
          rw [hrest] at h
          cases h
          have hread' : Lexeme.read c (piece ++ rest ++ separator :: after) =
              .ok (kind, piece.length) := Lexeme.read_append hseparator hread
          have hoffset : offset + (byteLength (c :: (piece ++ rest)) + 1) =
              offset + byteLength (c :: piece) + (byteLength rest + 1) := by
            simp [Nat.add_assoc]
          rw [List.append_assoc] at hread'
          rw [List.cons_append, List.append_assoc, scan_append_of_read hstart hread', ih hrest,
            hoffset]
          cases scan (offset + byteLength (c :: piece) + (byteLength rest + 1)) after <;> rfl

/-- The same text further down has the same tokens further down, or the same error there. -/
theorem scan_moved (distance offset : Nat) (text : List Char) :
    match scan offset text with
    | .ok tokens => scan (offset + distance) text = .ok (tokens.map (Token.moved distance))
    | .error error => ∃ position, error.stage = .lex position ∧
        scan (offset + distance) text = .error ⟨error.cause, .lex (position + distance)⟩ := by
  fun_induction scan offset text with
  | case1 offset =>
      rw [scan]
      rfl
  | case2 offset c cs hskipped ih =>
      rw [scan, if_pos hskipped, Nat.add_right_comm]
      exact ih
  | case3 offset c cs hstart flaw hread =>
      refine ⟨_, rfl, ?_⟩
      rw [scan, if_neg hstart, hread, Nat.add_right_comm]
  | case4 offset c cs hstart kind more hread lexeme ih =>
      obtain ⟨piece, rest, rfl, rfl, _⟩ := Lexeme.read_longest (Bool.eq_false_iff.mpr hstart) hread
      have hlexeme : lexeme = c :: piece := congrArg (List.cons c) List.take_left
      rw [List.drop_left, hlexeme] at ih ⊢
      rw [scan_append_of_read hstart hread, Nat.add_right_comm]
      cases hrest : scan (offset + byteLength (c :: piece)) rest with
      | error error =>
          rw [hrest] at ih
          obtain ⟨position, hstage, herror⟩ := ih
          refine ⟨position, hstage, ?_⟩
          rw [herror]
          rfl
      | ok others =>
          rw [hrest] at ih
          change scan (offset + byteLength (c :: piece) + distance) rest = _ at ih
          change Except.map _ _ = Except.ok _
          rw [ih]
          rfl

/-! ## Texts -/

/-- Between two texts, of which the first has tokens, a separator keeps the tokens of both as they
are, with those of the second text further down by the first text and the separator. The whole has
tokens exactly if the second text has, and otherwise fails as the second text does, so much further
down. -/
theorem tokenize_append {first second : String} {separator : Char} {tokens : List Token}
    (hseparator : separator ∈ [' ', '\t', '\n', '\r', '\x08', '\\'])
    (h : tokenize first = .ok tokens) :
    ((∃ all, tokenize (first ++ separator.toString ++ second) = .ok all) ↔
      ∃ others, tokenize second = .ok others) ∧
    (∀ others, tokenize second = .ok others →
      tokenize (first ++ separator.toString ++ second) =
        .ok (tokens ++ others.map (Token.moved (byteLength first.toList + 1)))) ∧
    ∀ error, tokenize second = .error error →
      ∃ position, error.stage = .lex position ∧
        tokenize (first ++ separator.toString ++ second) =
          .error ⟨error.cause, .lex (position + (byteLength first.toList + 1))⟩ := by
  have htext : (first ++ separator.toString ++ second).toList =
      first.toList ++ separator :: second.toList := by
    simp
  have hjoined : tokenize (first ++ separator.toString ++ second) =
      (scan (0 + (byteLength first.toList + 1)) second.toList).map (tokens ++ ·) := by
    rw [tokenize, htext, scan_append h hseparator]
  have hmoved := scan_moved (byteLength first.toList + 1) 0 second.toList
  rw [← tokenize] at hmoved
  rw [hjoined]
  cases hsecond : tokenize second with
  | ok others =>
      rw [hsecond] at hmoved
      rw [show scan _ _ = Except.ok _ from hmoved]
      refine ⟨⟨fun _ => ⟨others, rfl⟩, fun _ => ⟨_, rfl⟩⟩, ?_, ?_⟩
      · intro others' hsame
        cases hsame
        rfl
      · intro error herror
        cases herror
  | error error =>
      rw [hsecond] at hmoved
      obtain ⟨position, hstage, hscan⟩ := hmoved
      rw [hscan]
      refine ⟨⟨?_, ?_⟩, ?_, ?_⟩
      · rintro ⟨_, hall⟩
        cases hall
      · rintro ⟨_, hothers⟩
        cases hothers
      · intro others hothers
        cases hothers
      · intro error' hsame
        cases hsame
        exact ⟨position, hstage, rfl⟩

def differenceTokens : List Token :=
  [⟨.identifier, "x", 0⟩, ⟨.operator, "=", 1⟩, ⟨.operator, "-", 2⟩]

theorem tokenize_difference : tokenize "x=-" = .ok differenceTokens := by
  apply tokenize_eq_ok
  decide +kernel

/-- A backslash between a minus sign and a digit makes two tokens of them, which would be one
number. A quote that stays open there shows behind it. -/
theorem tokenize_append_difference :
    '\\' ∈ [' ', '\t', '\n', '\r', '\x08', '\\'] ∧ tokenize "x=-" = .ok differenceTokens ∧
      tokenize ("x=-" ++ '\\'.toString ++ "5") =
        .ok (differenceTokens ++ [⟨.integer, "5", 4⟩]) ∧
      tokenize ("x=-" ++ '\\'.toString ++ "'") = .error ⟨.unterminatedLiteral, .lex 5⟩ := by
  have hseparator : '\\' ∈ [' ', '\t', '\n', '\r', '\x08', '\\'] := by decide
  have hdigit : tokenize "5" = .ok [⟨.integer, "5", 0⟩] := by
    apply tokenize_eq_ok
    decide +kernel
  have hquote : tokenize "'" = .error ⟨.unterminatedLiteral, .lex 1⟩ := by
    decide +kernel
  refine ⟨hseparator, tokenize_difference, ?_, ?_⟩
  · exact (tokenize_append hseparator tokenize_difference).2.1 _ hdigit
  · obtain ⟨position, hposition, herror⟩ :=
      (tokenize_append hseparator tokenize_difference).2.2 _ hquote
    cases hposition
    exact herror

end Scriptlet
