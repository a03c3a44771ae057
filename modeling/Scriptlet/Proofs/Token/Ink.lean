import Scriptlet.Proofs.Token.Order

/-! # Tokens stand on lines

A token begins with a character other than a separator and ends on the line on which it begins. The
same holds of the piece of text that leads up to a flaw. So wherever a text is found wrong, on that
line something other than separators begins at the place or before it.
-/

namespace Scriptlet

open Text
open scoped Computability

/-! ## Words -/

namespace Lexis

/-- A character of a class without separators is none. -/
theorem not_mem_separators {holds : Char → Bool} (hnone : separators.any holds = false) {c : Char}
    (h : holds c = true) : c ∉ separators := by
  intro hmem
  have hany : separators.any holds = true := List.any_eq_true.mpr ⟨c, hmem, h⟩
  rw [hnone] at hany
  cases hany

theorem newline_not_mem_unit {quote : Char} {text : List Char} (h : text ∈ unit quote) :
    '\n' ∉ text := by
  intro hmem
  rcases mem_unit.mp h with ⟨c, hc, rfl⟩ | ⟨c, hc, rfl⟩
  · rw [List.mem_singleton] at hmem
    subst hmem
    exact hc (by simp)
  · simp only [List.mem_cons, List.not_mem_nil, or_false] at hmem
    rcases hmem with hmem | rfl
    · exact absurd hmem (by decide)
    · exact absurd hc (by decide)

theorem newline_not_mem_star_unit {quote : Char} {text : List Char} (h : text ∈ (unit quote)∗) :
    '\n' ∉ text := by
  refine star_induction (motive := fun text => '\n' ∉ text) List.not_mem_nil ?_ h
  intro first rest hfirst hrest
  exact List.not_mem_append (newline_not_mem_unit hfirst) hrest

/-- No character of a number is a separator. -/
theorem not_mem_separators_of_number {first rest : List Char} (hfirst : first ∈ sign)
    (hrest : ∀ c ∈ rest, c.isDigit = true ∨ c = '.') : ∀ c ∈ first ++ rest, c ∉ separators := by
  intro c hc
  rcases List.mem_append.mp hc with hc | hc
  · rcases mem_sign.mp hfirst with rfl | rfl
    · exact absurd hc List.not_mem_nil
    · rw [List.mem_singleton.mp hc]
      decide
  · rcases hrest c hc with hdigit | rfl
    · exact not_mem_separators (by decide) hdigit
    · decide

/-- The piece is on one line, and it begins with a character other than a separator, or else the
text after it does. -/
structure Inked (piece after : List Char) : Prop where
  line : '\n' ∉ piece
  head : ∃ c ∈ (piece ++ after).head?, c ∉ separators

namespace Inked

variable {piece after : List Char}

theorem cons {c : Char} (hc : c ∉ separators) (hpiece : '\n' ∉ piece) :
    Inked (c :: piece) after := by
  have hne : '\n' ≠ c := by
    rintro rfl
    exact hc (by decide)
  exact ⟨List.not_mem_cons_of_ne_of_not_mem hne hpiece, c, rfl, hc⟩

theorem of_forall (hne : piece ≠ []) (h : ∀ c ∈ piece, c ∉ separators) : Inked piece after := by
  obtain ⟨c, more, rfl⟩ := List.exists_cons_of_ne_nil hne
  rw [List.forall_mem_cons] at h
  exact cons h.1 fun hmem => h.2 _ hmem (by decide)

theorem start (h : Inked piece after) : Inked [] (piece ++ after) :=
  ⟨List.not_mem_nil, h.head⟩

end Inked

end Lexis

/-! ## Tokens and flaws -/

open Lexis in
/-- Every token is on one line and begins with a character other than a separator. -/
theorem TokenKind.inked_of_mem {kind : TokenKind} {text : List Char} (h : text ∈ kind.language)
    (after : List Char) : Inked text after := by
  have hne := ne_nil_of_mem h
  cases kind with
  | identifier =>
      obtain ⟨c, more, hc, hmore, rfl⟩ := mem_identifier.mp h
      refine .of_forall hne (List.forall_mem_cons.mpr ⟨not_mem_separators (by decide) hc, ?_⟩)
      exact fun d hd => not_mem_separators (by decide) (hmore d hd)
  | integer =>
      obtain ⟨first, rest, hfirst, hrest, _, rfl⟩ := mem_integer.mp h
      refine .of_forall hne (not_mem_separators_of_number hfirst fun c hc => ?_)
      exact .inl ((mem_whole.mp hrest).2.1 c hc)
  | decimal =>
      obtain ⟨first, rest, fraction, hfirst, hrest, _, hmore, rfl⟩ := mem_decimal.mp h
      refine .of_forall hne (not_mem_separators_of_number hfirst fun c hc => ?_)
      simp only [List.mem_append, List.mem_cons] at hc
      rcases hc with hc | rfl | hc
      · exact .inl ((mem_whole.mp hrest).2.1 c hc)
      · exact .inr rfl
      · exact .inl (hmore c hc)
  | character =>
      obtain ⟨body, hbody, rfl⟩ := mem_character.mp h
      exact .cons (by decide) (List.not_mem_append (newline_not_mem_unit hbody) (by decide))
  | string =>
      obtain ⟨body, hbody, rfl⟩ := mem_string.mp h
      exact .cons (by decide) (List.not_mem_append (newline_not_mem_star_unit hbody) (by decide))
  | operator =>
      rcases h with (rfl | rfl | rfl | rfl) | ⟨c, hc, rfl⟩
      · exact .cons (by decide) (by decide)
      · exact .cons (by decide) (by decide)
      · exact .cons (by decide) (by decide)
      · exact .cons (by decide) (by decide)
      · exact .cons hc.1 List.not_mem_nil

open Lexis in
/-- What leads up to a flaw is on one line. It begins with a character other than a separator, or
the flaw shows at such a character. -/
theorem Lexeme.Flawed.inked {cause : Cause} {piece after : List Char}
    (h : Flawed cause piece after) : Inked piece after := by
  have hopened {quote : Char} {body : List Char} (h : Opened quote body) :
      quote ∉ separators ∧ '\n' ∉ body := by
    cases h with
    | character => exact ⟨by decide, List.not_mem_nil⟩
    | string hbody => exact ⟨by decide, newline_not_mem_star_unit hbody⟩
  cases h with
  | @leadingZero sign more rest digit hsign _ _ =>
      refine .of_forall (by simp) (not_mem_separators_of_number hsign fun c hc => .inl ?_)
      rw [List.mem_singleton.mp hc]
      rfl
  | @trailingPoint sign whole rest hsign hwhole _ =>
      rw [List.append_assoc]
      refine .of_forall (by simp) (not_mem_separators_of_number hsign fun c hc => ?_)
      rcases List.mem_append.mp hc with hc | hc
      · exact .inl ((mem_whole.mp hwhole).2.1 c hc)
      · exact .inr (List.mem_singleton.mp hc)
  | negativeZero _ => exact ⟨List.not_mem_nil, '-', rfl, by decide⟩
  | badEscape hbody _ =>
      exact .cons (hopened hbody).1 (List.not_mem_append (hopened hbody).2 (by decide))
  | endOfText hbody hbackslash =>
      refine .cons (hopened hbody).1 (List.not_mem_append (hopened hbody).2 ?_)
      rcases hbackslash with rfl | rfl <;> decide
  | noClosingQuote hbody => exact .cons (by decide) (newline_not_mem_unit hbody)
  | endOfLine hbody _ => exact .cons (by decide) (newline_not_mem_star_unit hbody)
  | noCharacter _ => exact .cons (by decide) List.not_mem_nil
  | manyCharacters hbody _ => exact .cons (by decide) (newline_not_mem_unit hbody)

/-! ## Places in a text -/

/-- On the line of the position, something other than separators begins at it or before it. -/
def InkedAt (text : List Char) (position : Nat) : Prop :=
  ∃ start piece after, text = start ++ (piece ++ after) ∧
    position = byteLength (start ++ piece) ∧ Lexis.Inked piece after

theorem InkedAt.le_byteLength {text : List Char} {position : Nat} (h : InkedAt text position) :
    position ≤ byteLength text := by
  obtain ⟨start, piece, after, rfl, rfl, -⟩ := h
  rw [← List.append_assoc, byteLength_append _ after]
  exact Nat.le_add_right _ _

theorem inkedAt_of_token {text : String} {tokens : List Token} (h : tokenize text = .ok tokens)
    {token : Token} (htoken : token ∈ tokens) :
    InkedAt text.toList token.offset ∧ InkedAt text.toList token.stop := by
  obtain ⟨_, before, rest, htext, hoffset, hlongest⟩ := (tiles_of_scan h).tiling.placed token htoken
  have hinked := TokenKind.inked_of_mem hlongest.mem rest
  rw [List.append_assoc] at htext
  constructor
  · exact ⟨before, [], token.text.toList ++ rest, htext, by rw [hoffset, List.append_nil],
      hinked.start⟩
  · exact ⟨before, token.text.toList, rest, htext, by rw [Token.stop, hoffset, byteLength_append],
      hinked⟩

theorem inkedAt_of_tokenize_error {text : String} {error : Error}
    (h : tokenize text = .error error) :
    ∃ position, error.stage = .lex position ∧ InkedAt text.toList position := by
  obtain ⟨start, piece, after, _, htext, _, hstage, hflawed⟩ := flawed_of_scan h
  rw [Nat.zero_add, ← byteLength_append] at hstage
  exact ⟨_, hstage, start, piece, after, htext, rfl, hflawed.inked⟩

end Scriptlet
