import Scriptlet.Proofs.Token.Numbers
import Scriptlet.Proofs.Token.Quotes

/-! # Lexemes are longest

A lexeme is a text of its kind, and no longer text of any kind stands at its place. Where there is
no lexeme, the flaw names what is wrong and shows at the first character that is out of place.
-/

namespace Scriptlet.Lexeme

open Text
open scoped Computability

variable {sign whole rest : List Char}

/-- What starts an identifier starts no number and no literal. -/
theorem not_of_startsIdentifier {c : Char} (h : startsIdentifier c = true) (text : List Char) :
    startsNumber c text = false ∧ c ≠ '\'' := by
  have hdigit : c.isDigit = false := by
    rw [Bool.eq_false_iff, ne_eq, Lexis.isDigit_iff]
    intro hdigit
    rcases Lexis.startsIdentifier_iff.mp h with hletter | rfl
    · simp only [Lexis.IsDigit, Lexis.IsLetter, Char.le_def, UInt32.le_iff_toNat_le]
        at hdigit hletter
      simp at hdigit hletter
      omega
    · exact absurd hdigit (by decide)
  have hminus : c ≠ '-' := by
    rintro rfl
    exact absurd h (by decide)
  refine ⟨by simp [startsNumber, hdigit, hminus], ?_⟩
  rintro rfl
  exact absurd h (by decide)

theorem read_identifier {c : Char} (h : startsIdentifier c = true) (text : List Char) :
    read c text = .ok (.identifier, (text.takeWhile continuesIdentifier).length) := by
  obtain ⟨hnumber, hquote⟩ := not_of_startsIdentifier h text
  simp [read, hnumber, hquote, h]

theorem read_character (text : List Char) :
    read '\'' text = (characterTail text).map fun length => (.character, length) := rfl

theorem read_string (text : List Char) :
    read '"' text = (stringTail 1 text).map fun length => (.string, length) := rfl

theorem Front.startsNumber {c : Char} {text : List Char} (h : Front sign whole)
    (heq : sign ++ (whole ++ rest) = c :: text) : startsNumber c text = true := by
  obtain ⟨d, more, rfl⟩ := List.exists_cons_of_ne_nil h.ne
  have hdigit := h.digits d List.mem_cons_self
  rcases Lexis.mem_sign.mp h.sign with rfl | rfl
  · obtain ⟨rfl, rfl⟩ := List.cons.inj heq
    simp [Lexeme.startsNumber, hdigit]
  · obtain ⟨rfl, rfl⟩ := List.cons.inj heq
    simp [Lexeme.startsNumber, hdigit]

theorem operatorTail_cases (c : Char) (text : List Char) :
    operatorTail c text = 0 ∨ operatorTail c text = 1 ∧ ∃ d rest, text = d :: rest ∧
      [c, d] ∈ ({['&', '&'], ['|', '|'], ['=', '='], ['!', '=']} : Language Char) := by
  unfold operatorTail
  split
  next rest => exact .inr ⟨rfl, _, rest, rfl, .inl rfl⟩
  next rest => exact .inr ⟨rfl, _, rest, rfl, .inr (.inl rfl)⟩
  next rest => exact .inr ⟨rfl, _, rest, rfl, .inr (.inr (.inl rfl))⟩
  next rest => exact .inr ⟨rfl, _, rest, rfl, .inr (.inr (.inr rfl))⟩
  next => exact .inl rfl

/-- A number that is read is a text of its kind, and no number at its place is longer. -/
theorem read_number {c : Char} {text : List Char} {kind : TokenKind} {more : Nat}
    (hnumber : startsNumber c text = true) (h : read c text = .ok (kind, more)) :
    ∃ length, number (c :: text) = .ok (kind, length) ∧ more = length - 1 := by
  rw [read, if_pos hnumber] at h
  obtain ⟨⟨found, length⟩, hok, heq⟩ := exists_of_map_eq_ok h
  cases heq
  exact ⟨length, hok, rfl⟩

/-- A character that starts no other token is an operator by itself. -/
theorem matches_operator {c : Char} {rest : List Char} (hseparator : isSeparator c = false)
    (hnumber : ¬ startsNumber c rest = true) (hidentifier : ¬ startsIdentifier c = true)
    (hquote : c ≠ '\'') (hdouble : c ≠ '"') : TokenKind.operator.Matches [c] rest := by
  simp only [startsNumber, Bool.or_eq_true, Bool.and_eq_true, decide_eq_true_eq, not_or,
    not_and] at hnumber
  rw [Lexis.startsIdentifier_iff, not_or] at hidentifier
  constructor
  · refine .inr ⟨c, ⟨?_, ?_, hidentifier.1, ?_⟩, rfl⟩
    · rw [← Lexis.isSeparator_iff, hseparator]
      decide
    · rw [← Lexis.isDigit_iff]
      exact hnumber.1
    · simp [hidentifier.2, hquote, hdouble]
  · intro _ hminus d hd hdigit
    obtain rfl : c = '-' := (List.cons.inj hminus).1
    refine hnumber.2 rfl ?_
    rw [Option.any_eq_true]
    exact ⟨d, hd, Lexis.isDigit_iff.mpr hdigit⟩

/-- A lexeme is a text of its kind. -/
theorem read_matches {c : Char} {text : List Char} {kind : TokenKind} {more : Nat}
    (hseparator : isSeparator c = false) (h : read c text = .ok (kind, more)) :
    ∃ lexeme rest, text = lexeme ++ rest ∧ lexeme.length = more ∧
      kind.Matches (c :: lexeme) rest := by
  by_cases hnumber : startsNumber c text = true
  · obtain ⟨length, hok, rfl⟩ := read_number hnumber h
    obtain ⟨lexeme, rest, heq, rfl, hmem, hkind, _⟩ := (shape_of_startsNumber hnumber).of_ok hok
    obtain ⟨d, lexeme, rfl⟩ := List.exists_cons_of_ne_nil (TokenKind.ne_nil_of_mem hmem)
    obtain ⟨rfl, rfl⟩ := List.cons.inj heq
    exact ⟨lexeme, rest, rfl, rfl, hmem, fun hoperator => absurd hoperator hkind⟩
  · rw [read, if_neg hnumber] at h
    split at h
    next hquote =>
      subst hquote
      obtain ⟨length, hok, heq⟩ := exists_of_map_eq_ok h
      cases heq
      obtain ⟨body, rest, hbody, rfl, rfl⟩ := exists_of_characterTail hok
      refine ⟨body ++ ['\''], rest, by simp, by simp, ?_, nofun⟩
      exact Lexis.mem_character.mpr ⟨body, hbody, rfl⟩
    next hquote =>
      split at h
      next hidentifier =>
        cases h
        refine ⟨text.takeWhile continuesIdentifier, text.dropWhile continuesIdentifier,
          List.takeWhile_append_dropWhile.symm, rfl, ?_, nofun⟩
        exact Lexis.mem_identifier.mpr ⟨c, _, hidentifier,
          fun d hd => List.mem_takeWhile_imp hd, rfl⟩
      next hidentifier =>
        split at h
        next hdouble =>
          subst hdouble
          obtain ⟨length, hok, heq⟩ := exists_of_map_eq_ok h
          cases heq
          obtain ⟨body, rest, hbody, rfl, rfl⟩ := exists_of_stringTail hok
          refine ⟨body ++ ['"'], rest, by simp, by simp, ?_, nofun⟩
          exact Lexis.mem_string.mpr ⟨body, hbody, rfl⟩
        next hdouble =>
          cases h
          rcases operatorTail_cases c text with htail | ⟨htail, d, rest, rfl, hmem⟩
          · exact ⟨[], text, rfl, htail.symm,
              matches_operator hseparator hnumber hidentifier hquote hdouble⟩
          · exact ⟨[d], rest, rfl, htail.symm, .inl hmem, fun _ heq => by cases heq⟩

/-- No text of any kind at the place of a lexeme is longer. -/
theorem length_le_of_read {c : Char} {text rest : List Char} {kind other : TokenKind} {more : Nat}
    (h : read c (text ++ rest) = .ok (kind, more)) (hother : other.Matches (c :: text) rest) :
    text.length ≤ more := by
  have hnumber (hfront : ∃ sign whole rest', Front sign whole ∧
      sign ++ (whole ++ rest') = c :: (text ++ rest))
      (hmem : c :: text ∈ Lexis.integer ∨ c :: text ∈ Lexis.decimal) : text.length ≤ more := by
    obtain ⟨sign, whole, rest', hfront, heq⟩ := hfront
    have hstarts := hfront.startsNumber heq
    obtain ⟨length, hok, rfl⟩ := read_number hstarts h
    obtain ⟨lexeme, after, heq, rfl, _, _, hlongest⟩ := (shape_of_startsNumber hstarts).of_ok hok
    have hle := hlongest.longest (c :: text) rest heq (Lexis.numeral_of_mem hmem)
    simp only [List.length_cons] at hle
    omega
  cases other with
  | identifier =>
      obtain ⟨d, lexeme, hstarts, hlexeme, heq⟩ := Lexis.mem_identifier.mp hother.mem
      obtain ⟨rfl, rfl⟩ := List.cons.inj heq
      rw [read_identifier hstarts, List.takeWhile_append_of_pos hlexeme] at h
      cases h
      simp
  | integer =>
      obtain ⟨sign, whole, hsign, hwhole, _, heq⟩ := Lexis.mem_integer.mp hother.mem
      refine hnumber ⟨sign, whole, rest, front_of_mem_whole hsign hwhole, ?_⟩ (.inl hother.mem)
      simpa using (congrArg (· ++ rest) heq).symm
  | decimal =>
      obtain ⟨sign, whole, fraction, hsign, hwhole, _, _, heq⟩ := Lexis.mem_decimal.mp hother.mem
      refine hnumber ⟨sign, whole, '.' :: (fraction ++ rest), front_of_mem_whole hsign hwhole, ?_⟩
        (.inr hother.mem)
      simpa using (congrArg (· ++ rest) heq).symm
  | character =>
      obtain ⟨body, hbody, heq⟩ := Lexis.mem_character.mp hother.mem
      obtain ⟨rfl, rfl⟩ := List.cons.inj heq
      rw [read_character, List.append_assoc, List.singleton_append,
        characterTail_of_mem hbody] at h
      cases h
      simp
  | string =>
      obtain ⟨body, hbody, heq⟩ := Lexis.mem_string.mp hother.mem
      obtain ⟨rfl, rfl⟩ := List.cons.inj heq
      rw [read_string, List.append_assoc, List.singleton_append, stringTail_of_mem hbody] at h
      cases h
      simp
  | operator =>
      rcases hother.mem with (heq | heq | heq | heq) | ⟨d, _, heq⟩ <;> cases heq
      -- The four operators of two characters are read whole.
      · cases h
        exact Nat.le_refl 1
      · cases h
        exact Nat.le_refl 1
      · cases h
        exact Nat.le_refl 1
      · cases h
        exact Nat.le_refl 1
      · exact Nat.zero_le _

/-- A lexeme is the longest text of any kind at its place. -/
theorem read_longest {c : Char} {text : List Char} {kind : TokenKind} {more : Nat}
    (hseparator : isSeparator c = false) (h : read c text = .ok (kind, more)) :
    ∃ lexeme rest, text = lexeme ++ rest ∧ lexeme.length = more ∧
      kind.Longest (c :: lexeme) rest := by
  obtain ⟨lexeme, rest, rfl, rfl, hmatches⟩ := read_matches hseparator h
  refine ⟨lexeme, rest, rfl, rfl, hmatches, fun other text' rest' heq hother => ?_⟩
  obtain ⟨d, text', rfl⟩ := List.exists_cons_of_ne_nil (TokenKind.ne_nil_of_mem hother.mem)
  obtain ⟨rfl, htail⟩ := List.cons.inj heq
  rw [← show text' ++ rest' = lexeme ++ rest from htail] at h
  exact Nat.succ_le_succ (length_le_of_read h hother)

/-- Where there is no lexeme, the flaw says why. -/
theorem read_flawed {c : Char} {text : List Char} {flaw : Flaw} (h : read c text = .error flaw) :
    ∃ piece after, c :: text = piece ++ after ∧ flaw.distance = byteLength piece ∧
      Flawed flaw.cause piece after := by
  unfold read at h
  split at h
  next hnumber =>
    exact (shape_of_startsNumber hnumber).of_error (eq_error_of_map_eq_error h)
  next =>
    split at h
    next hquote =>
      subst hquote
      exact characterTail_flawed (eq_error_of_map_eq_error h)
    next =>
      split at h
      · cases h
      next =>
        split at h
        next hquote =>
          subst hquote
          obtain ⟨piece, after, rfl, hdistance, hflawed⟩ :=
            stringTail_flawed (eq_error_of_map_eq_error h)
          exact ⟨'"' :: piece, after, rfl, hdistance, hflawed [] (Language.nil_mem_kstar _)⟩
        next => cases h

/-! ## Flaws are exact -/

theorem Front.exists_read {flaw : Flaw} (hfront : Front sign whole)
    (h : number (sign ++ (whole ++ rest)) = .error flaw) :
    ∃ c text, sign ++ (whole ++ rest) = c :: text ∧ read c text = .error flaw := by
  obtain ⟨c, text, heq⟩ := List.exists_cons_of_ne_nil (List.append_ne_nil_of_right_ne_nil sign
    (List.append_ne_nil_of_left_ne_nil hfront.ne rest))
  refine ⟨c, text, heq, ?_⟩
  rw [heq] at h
  rw [read, if_pos (hfront.startsNumber heq), h]
  rfl

theorem exists_read_character {text : List Char} {flaw : Flaw}
    (h : characterTail text = .error flaw) :
    ∃ c rest, '\'' :: text = c :: rest ∧ read c rest = .error flaw := by
  refine ⟨'\'', text, rfl, ?_⟩
  rw [read_character, h]
  rfl

theorem exists_read_string {body rest : List Char} {flaw : Flaw} (hbody : body ∈ (Lexis.unit '"')∗)
    (h : stringTail (1 + byteLength body) rest = .error flaw) :
    ∃ c text, '"' :: (body ++ rest) = c :: text ∧ read c text = .error flaw := by
  refine ⟨'"', body ++ rest, rfl, ?_⟩
  rw [read_string, stringTail_append hbody 1 h]
  rfl

theorem exists_read_leadingZero {more : List Char} {digit : Char} (hsign : sign ∈ Lexis.sign)
    (hdigit : digit.isDigit = true)
    (hlongest : Lexis.LongestNumeral (sign ++ '0' :: digit :: more) rest) :
    ∃ c text, sign ++ ['0'] ++ digit :: (more ++ rest) = c :: text ∧ read c text =
      .error ⟨.invalidNumber (String.ofList (sign ++ '0' :: digit :: more)),
        byteLength (sign ++ ['0'])⟩ := by
  have hfront : Front sign ['0', digit] := ⟨hsign, List.cons_ne_nil _ _, by simpa using hdigit⟩
  have hread := hfront.exists_read (number_of_leadingZero hsign hdigit hlongest)
  have hplace : byteLength (sign ++ ['0']) = sign.length + 1 := by
    rw [byteLength_append, byteLength_sign hsign]
    rfl
  rw [hplace]
  simpa only [List.append_assoc, List.cons_append, List.nil_append] using hread

theorem exists_read_trailingPoint (hsign : sign ∈ Lexis.sign) (hwhole : whole ∈ Lexis.whole)
    (hrest : ∀ c ∈ rest.head?, ¬ Lexis.IsDigit c) :
    ∃ c text, sign ++ whole ++ ['.'] ++ rest = c :: text ∧ read c text =
      .error ⟨.invalidNumber (String.ofList (sign ++ whole ++ ['.'])),
        byteLength (sign ++ whole ++ ['.'])⟩ := by
  have hfront := front_of_mem_whole hsign hwhole
  have hstops : Stops rest := fun c hc =>
    Bool.eq_false_iff.mpr (Lexis.isDigit_iff.not.mpr (hrest c hc))
  have hnumber := hfront.number_point hstops
  rw [if_neg (Lexis.mem_whole.mp hwhole).2.2] at hnumber
  have hread := hfront.exists_read hnumber
  have hplace : byteLength (sign ++ whole ++ ['.']) = sign.length + whole.length + 1 := by
    rw [byteLength_append, byteLength_append, byteLength_sign hsign,
      byteLength_digits hfront.digits]
    rfl
  rw [hplace]
  simpa only [List.append_assoc, List.cons_append, List.nil_append] using hread

theorem exists_read_badEscape {quote c : Char} {body rest : List Char}
    (hbody : Lexis.Opened quote body) (hc : c ∉ ['b', 'n', 'r', 't', '\'', '"', '\\']) :
    ∃ first text, quote :: (body ++ ['\\']) ++ c :: rest = first :: text ∧ read first text =
      .error ⟨.invalidEscape (String.singleton c), byteLength (quote :: (body ++ ['\\']))⟩ := by
  rw [← Lexis.isEscape_iff, Bool.not_eq_true] at hc
  cases hbody with
  | character =>
      have htail : characterTail ('\\' :: c :: rest) =
          .error ⟨.invalidEscape (String.singleton c), 2⟩ := by
        simp [characterTail, hc]
      exact exists_read_character htail
  | string hbody =>
      have htail : stringTail (1 + byteLength body) ('\\' :: c :: rest) =
          .error ⟨.invalidEscape (String.singleton c), 1 + byteLength body + 1⟩ := by
        simp [stringTail, hc]
      have hread := exists_read_string hbody htail
      have hplace : byteLength ('"' :: (body ++ ['\\'])) = 1 + byteLength body + 1 := by
        rw [byteLength_cons, byteLength_append, ← Nat.add_assoc]
        rfl
      rw [hplace]
      simpa only [List.append_assoc, List.cons_append, List.nil_append] using hread

/-- A text with a flaw at its start is not read, and the flaw is what is reported. -/
theorem Flawed.exists_read {cause : Cause} {piece after : List Char}
    (h : Flawed cause piece after) :
    ∃ c rest, piece ++ after = c :: rest ∧ read c rest = .error ⟨cause, byteLength piece⟩ := by
  cases h with
  | leadingZero hsign hdigit hlongest => exact exists_read_leadingZero hsign hdigit hlongest
  | trailingPoint hsign hwhole hafter => exact exists_read_trailingPoint hsign hwhole hafter
  | @negativeZero rest hrest =>
      have hfront : Front ['-'] ['0'] := ⟨.inr rfl, List.cons_ne_nil _ _, by simp⟩
      have hstops : Stops rest := fun c hc =>
        Bool.eq_false_iff.mpr (Lexis.isDigit_iff.not.mpr (hrest c hc).1)
      have hnumber := hfront.number_integer hstops fun hc => (hrest '.' hc).2 rfl
      exact hfront.exists_read hnumber
  | badEscape hbody hc => exact exists_read_badEscape hbody hc
  | @endOfText quote body backslash hbody hbackslash =>
      cases hbody with
      | character => rcases hbackslash with rfl | rfl <;> exact exists_read_character rfl
      | string hbody =>
          have htail : stringTail (1 + byteLength body) backslash =
              .error ⟨.unterminatedLiteral, 1 + byteLength body + byteLength backslash⟩ := by
            rcases hbackslash with rfl | rfl <;> rfl
          have hread := exists_read_string hbody htail
          rw [byteLength_cons, byteLength_append, ← Nat.add_assoc, List.append_nil]
          exact hread
  | @noClosingQuote body hbody =>
      have htail : characterTail (body ++ []) =
          .error ⟨.unterminatedLiteral, 1 + byteLength body⟩ := by
        rw [characterTail_append hbody]
        rfl
      exact exists_read_character htail
  | @endOfLine body rest c hbody hc =>
      have htail : stringTail (1 + byteLength body) (c :: rest) =
          .error ⟨.unterminatedLiteral, 1 + byteLength body⟩ := by
        rcases hc with rfl | rfl <;> rfl
      exact exists_read_string hbody htail
  | @noCharacter rest c hc =>
      rcases hc with rfl | rfl | rfl <;> exact exists_read_character rfl
  | @manyCharacters body rest c hbody hc =>
      have htail : characterTail (body ++ c :: rest) =
          .error ⟨.invalidCharacterLiteral, 1 + byteLength body⟩ := by
        rw [characterTail_append hbody, closeCharacter, if_neg hc]
        rfl
      exact exists_read_character htail

/-- A text is not read exactly if it has a flaw at its start. -/
theorem read_eq_error_iff {c : Char} {text : List Char} {flaw : Flaw} :
    read c text = .error flaw ↔ ∃ piece after, c :: text = piece ++ after ∧
      flaw.distance = byteLength piece ∧ Flawed flaw.cause piece after := by
  constructor
  · exact read_flawed
  · rintro ⟨piece, after, heq, hdistance, hflawed⟩
    obtain ⟨d, rest, heq', hread⟩ := hflawed.exists_read
    obtain ⟨rfl, rfl⟩ := List.cons.inj (heq.trans heq')
    rw [hread, ← hdistance]

/-- A text has one flaw at its start at most. -/
theorem Flawed.unique {cause cause' : Cause} {piece after piece' after' : List Char}
    (h : Flawed cause piece after) (h' : Flawed cause' piece' after')
    (heq : piece ++ after = piece' ++ after') :
    cause = cause' ∧ byteLength piece = byteLength piece' := by
  obtain ⟨c, rest, hfirst, hread⟩ := h.exists_read
  obtain ⟨c', rest', hsecond, hread'⟩ := h'.exists_read
  obtain ⟨rfl, rfl⟩ := List.cons.inj (hfirst.symm.trans (heq.trans hsecond))
  have hflaw := Except.error.inj (hread.symm.trans hread')
  exact ⟨congrArg Flaw.cause hflaw, congrArg Flaw.distance hflaw⟩

end Scriptlet.Lexeme
