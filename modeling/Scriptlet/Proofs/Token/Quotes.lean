import Scriptlet.Proofs.Token.Languages

/-! # Quotes in a text

A literal in quotes is read up to its closing quote, whatever follows it, if what stands between the
quotes are characters and escapes. Nothing else is read.
-/

namespace Scriptlet.Lexeme

open Text
open scoped Computability

theorem exists_of_map_eq_ok {α β : Type} {change : α → β} {result : Except Flaw α} {value : β}
    (h : result.map change = .ok value) : ∃ found, result = .ok found ∧ change found = value := by
  cases result with
  | ok found => exact ⟨found, rfl, Except.ok.inj h⟩
  | error flaw => cases h

theorem eq_error_of_map_eq_error {α β : Type} {change : α → β} {result : Except Flaw α}
    {flaw : Flaw} (h : result.map change = .error flaw) : result = .error flaw := by
  cases result with
  | ok found => cases h
  | error other => exact congrArg Except.error (Except.error.inj h)

/-- A character that is not taken for the start of an escape is no backslash. -/
theorem ne_backslash {c : Char} {rest : List Char} (halone : c = '\\' → rest = [] → False)
    (hescape : ∀ d more, c = '\\' → rest = d :: more → False) : c ≠ '\\' := by
  intro hc
  cases rest with
  | nil => exact halone hc rfl
  | cons d more => exact hescape d more hc rfl

theorem mem_unit_raw {quote c : Char} (hquote : c ≠ quote) (hline : c ≠ '\n') (hreturn : c ≠ '\r')
    (hslash : c ≠ '\\') : [c] ∈ Lexis.unit quote :=
  Lexis.mem_unit.mpr (.inl ⟨c, by simp [hquote, hline, hreturn, hslash], rfl⟩)

theorem mem_unit_escape {quote c : Char} (hc : isEscape c = true) :
    ['\\', c] ∈ Lexis.unit quote :=
  Lexis.mem_unit.mpr (.inr ⟨c, hc, rfl⟩)

theorem utf8Size_of_isEscape {c : Char} (hc : isEscape c = true) : c.utf8Size = 1 := by
  simp only [Lexis.isEscape_iff, List.mem_cons, List.not_mem_nil, or_false] at hc
  rcases hc with rfl | rfl | rfl | rfl | rfl | rfl | rfl <;> rfl

theorem byteLength_escape {c : Char} (hc : isEscape c = true) : byteLength ['\\', c] = 2 := by
  rw [byteLength_cons, byteLength_cons, utf8Size_of_isEscape hc]
  rfl

/-- Only the closing quote closes a character literal. -/
theorem closeCharacter_eq_ok {distance : Nat} {text : List Char}
    (h : closeCharacter distance text = .ok ()) : ∃ rest, text = '\'' :: rest := by
  unfold closeCharacter at h
  split at h
  · cases h
  next c rest =>
    split at h
    next hc => exact ⟨rest, hc ▸ rfl⟩
    · cases h

/-- A character literal that is not closed after one character. -/
theorem closeCharacter_flawed {distance : Nat} {body text : List Char} {flaw : Flaw}
    (hbody : body ∈ Lexis.unit '\'') (h : closeCharacter distance text = .error flaw) :
    flaw.distance = distance ∧ Flawed flaw.cause ('\'' :: body) text := by
  unfold closeCharacter at h
  split at h
  · cases h
    exact ⟨rfl, .noClosingQuote hbody⟩
  next c rest =>
    split at h
    · cases h
    next hc =>
      cases h
      exact ⟨rfl, .manyCharacters hbody hc⟩

/-- After one character, a character literal has to be closed. -/
theorem characterTail_append {body : List Char} (hbody : body ∈ Lexis.unit '\'')
    (rest : List Char) :
    characterTail (body ++ rest) =
      (closeCharacter (1 + byteLength body) rest).map fun _ => body.length + 1 := by
  rcases Lexis.mem_unit.mp hbody with ⟨c, hc, rfl⟩ | ⟨c, hc, rfl⟩
  · simp only [List.mem_cons, List.not_mem_nil, or_false, not_or] at hc
    simp [characterTail, hc]
  · simp [characterTail, hc, byteLength_escape hc]

/-- A character literal is read up to its closing quote. -/
theorem characterTail_of_mem {body : List Char} (hbody : body ∈ Lexis.unit '\'')
    (rest : List Char) : characterTail (body ++ '\'' :: rest) = .ok (body.length + 1) := by
  rw [characterTail_append hbody]
  rfl

/-- A character literal that is read has one character between its quotes. -/
theorem exists_of_characterTail {text : List Char} {length : Nat}
    (h : characterTail text = .ok length) :
    ∃ body rest, body ∈ Lexis.unit '\'' ∧ text = body ++ '\'' :: rest ∧
      length = body.length + 1 := by
  unfold characterTail at h
  split at h
  · cases h
  · cases h
  next c more =>
    split at h
    next hc =>
      obtain ⟨_, hclose, rfl⟩ := exists_of_map_eq_ok h
      obtain ⟨rest, rfl⟩ := closeCharacter_eq_ok hclose
      exact ⟨['\\', c], rest, mem_unit_escape hc, rfl, rfl⟩
    · cases h
  next c more halone hescape =>
    split at h
    · cases h
    next hc =>
      obtain ⟨_, hclose, rfl⟩ := exists_of_map_eq_ok h
      obtain ⟨rest, rfl⟩ := closeCharacter_eq_ok hclose
      simp only [Bool.or_eq_true, decide_eq_true_eq, not_or] at hc
      exact ⟨[c], rest, mem_unit_raw hc.1.1 hc.1.2 hc.2 (ne_backslash halone hescape), rfl, rfl⟩

/-- Where a character literal is not read, the flaw says why. -/
theorem characterTail_flawed {text : List Char} {flaw : Flaw}
    (h : characterTail text = .error flaw) :
    ∃ piece after, '\'' :: text = piece ++ after ∧ flaw.distance = byteLength piece ∧
      Flawed flaw.cause piece after := by
  unfold characterTail at h
  split at h
  · cases h
    exact ⟨['\''], [], rfl, rfl, .endOfText .character (.inl rfl)⟩
  · cases h
    exact ⟨['\'', '\\'], [], rfl, rfl, .endOfText .character (.inr rfl)⟩
  next c more =>
    split at h
    next hc =>
      have hclose := eq_error_of_map_eq_error h
      obtain ⟨hdistance, hflawed⟩ := closeCharacter_flawed (mem_unit_escape hc) hclose
      refine ⟨['\'', '\\', c], more, rfl, ?_, hflawed⟩
      rw [hdistance, byteLength_cons, byteLength_escape hc]
      rfl
    next hc =>
      cases h
      exact ⟨['\'', '\\'], c :: more, rfl, rfl,
        .badEscape .character (Lexis.isEscape_iff.not.mp hc)⟩
  next c more halone hescape =>
    split at h
    next hc =>
      cases h
      simp only [Bool.or_eq_true, decide_eq_true_eq, or_assoc] at hc
      exact ⟨['\''], c :: more, rfl, rfl, .noCharacter hc⟩
    next hc =>
      have hclose := eq_error_of_map_eq_error h
      simp only [Bool.or_eq_true, decide_eq_true_eq, not_or] at hc
      have hunit := mem_unit_raw hc.1.1 hc.1.2 hc.2 (ne_backslash halone hescape)
      obtain ⟨hdistance, hflawed⟩ := closeCharacter_flawed hunit hclose
      exact ⟨['\'', c], more, rfl, hdistance, hflawed⟩

/-- A string literal is read up to its closing quote. -/
theorem stringTail_of_mem {body : List Char} (hbody : body ∈ (Lexis.unit '"')∗) (distance : Nat)
    (rest : List Char) : stringTail distance (body ++ '"' :: rest) = .ok (body.length + 1) := by
  revert distance
  refine Lexis.star_induction (motive := fun body => ∀ distance,
    stringTail distance (body ++ '"' :: rest) = .ok (body.length + 1)) ?_ ?_ hbody
  · intro distance
    simp [stringTail]
  · intro first more hfirst ih distance
    rcases Lexis.mem_unit.mp hfirst with ⟨c, hc, rfl⟩ | ⟨c, hc, rfl⟩
    · simp only [List.mem_cons, List.not_mem_nil, or_false, not_or] at hc
      simp [stringTail, hc, ih, Except.map]
    · simp [stringTail, hc, ih, Except.map]

/-- What is wrong behind characters of a string literal is wrong with the literal. -/
theorem stringTail_append {body rest : List Char} {flaw : Flaw} (hbody : body ∈ (Lexis.unit '"')∗)
    (distance : Nat) (h : stringTail (distance + byteLength body) rest = .error flaw) :
    stringTail distance (body ++ rest) = .error flaw := by
  revert distance
  refine Lexis.star_induction (motive := fun body => ∀ distance,
    stringTail (distance + byteLength body) rest = .error flaw →
      stringTail distance (body ++ rest) = .error flaw) ?_ ?_ hbody
  · intro distance h
    exact h
  · intro first more hfirst ih distance h
    rw [byteLength_append, ← Nat.add_assoc] at h
    rcases Lexis.mem_unit.mp hfirst with ⟨c, hc, rfl⟩ | ⟨c, hc, rfl⟩
    · simp only [List.mem_cons, List.not_mem_nil, or_false, not_or] at hc
      have hmore := ih (distance + c.utf8Size) h
      simp [stringTail, hc, hmore, Except.map]
    · rw [byteLength_escape hc] at h
      simp [stringTail, hc, ih _ h, Except.map]

/-- A string literal that is read has characters and escapes between its quotes. -/
theorem exists_of_stringTail {text : List Char} {distance length : Nat}
    (h : stringTail distance text = .ok length) :
    ∃ body rest, body ∈ (Lexis.unit '"')∗ ∧ text = body ++ '"' :: rest ∧
      length = body.length + 1 := by
  fun_induction stringTail distance text generalizing length with
  | case1 => cases h
  | case2 => cases h
  | case3 distance c more hc ih =>
      obtain ⟨_, htail, rfl⟩ := exists_of_map_eq_ok h
      obtain ⟨body, rest, hbody, rfl, rfl⟩ := ih htail
      exact ⟨'\\' :: c :: body, rest,
        Lexis.append_mem_star (Lexis.mem_star_of_mem (mem_unit_escape hc)) hbody, rfl, rfl⟩
  | case4 => cases h
  | case5 distance more _ _ =>
      cases h
      exact ⟨[], more, Language.nil_mem_kstar _, rfl, rfl⟩
  | case6 => cases h
  | case7 distance c more halone hescape hquote hline ih =>
      obtain ⟨_, htail, rfl⟩ := exists_of_map_eq_ok h
      obtain ⟨body, rest, hbody, rfl, rfl⟩ := ih htail
      simp only [Bool.or_eq_true, decide_eq_true_eq, not_or] at hline
      have hunit := mem_unit_raw hquote hline.1 hline.2 (ne_backslash halone hescape)
      exact ⟨c :: body, rest, Lexis.append_mem_star (Lexis.mem_star_of_mem hunit) hbody, rfl, rfl⟩

/-- Where a string literal is not read to its end, the flaw says why, whatever the part of it that
is read already. -/
theorem stringTail_flawed {text : List Char} {distance : Nat} {flaw : Flaw}
    (h : stringTail distance text = .error flaw) :
    ∃ piece after, text = piece ++ after ∧ flaw.distance = distance + byteLength piece ∧
      ∀ body ∈ (Lexis.unit '"')∗, Flawed flaw.cause ('"' :: (body ++ piece)) after := by
  fun_induction stringTail distance text with
  | case1 =>
      cases h
      exact ⟨[], [], rfl, rfl, fun body hbody => .endOfText (.string hbody) (.inl rfl)⟩
  | case2 =>
      cases h
      exact ⟨['\\'], [], rfl, rfl, fun body hbody => .endOfText (.string hbody) (.inr rfl)⟩
  | case3 distance c more hc ih =>
      obtain ⟨piece, after, rfl, hdistance, hflawed⟩ := ih (eq_error_of_map_eq_error h)
      refine ⟨'\\' :: c :: piece, after, rfl, ?_, fun body hbody => ?_⟩
      · have hsize : '\\'.utf8Size = 1 := rfl
        rw [hdistance, byteLength_cons, byteLength_cons, utf8Size_of_isEscape hc, hsize]
        omega
      · have hescape := hflawed (body ++ ['\\', c])
          (Lexis.append_mem_star hbody (Lexis.mem_star_of_mem (mem_unit_escape hc)))
        rwa [List.append_assoc] at hescape
  | case4 distance c more hc =>
      cases h
      exact ⟨['\\'], c :: more, rfl, rfl, fun body hbody =>
        .badEscape (.string hbody) (Lexis.isEscape_iff.not.mp hc)⟩
  | case5 => cases h
  | case6 distance c more _ _ _ hline =>
      cases h
      simp only [Bool.or_eq_true, decide_eq_true_eq] at hline
      refine ⟨[], c :: more, rfl, rfl, fun body hbody => ?_⟩
      rw [List.append_nil]
      exact .endOfLine hbody hline
  | case7 distance c more halone hescape hquote hline ih =>
      obtain ⟨piece, after, rfl, hdistance, hflawed⟩ := ih (eq_error_of_map_eq_error h)
      simp only [Bool.or_eq_true, decide_eq_true_eq, not_or] at hline
      have hunit := mem_unit_raw hquote hline.1 hline.2 (ne_backslash halone hescape)
      refine ⟨c :: piece, after, rfl, ?_, fun body hbody => ?_⟩
      · rw [hdistance, byteLength_cons, Nat.add_assoc]
      · have hraw := hflawed (body ++ [c])
          (Lexis.append_mem_star hbody (Lexis.mem_star_of_mem hunit))
        rwa [List.append_assoc] at hraw

end Scriptlet.Lexeme
