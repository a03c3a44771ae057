import Mathlib.Computability.Language
import Scriptlet.Token.Lexeme

/-! # The languages of tokens

Which texts the tokens of each kind have, said without reading any text; which of them stands at a
place of a text: the longest; and what can be wrong with a text that starts like a token.
-/

namespace Scriptlet

open scoped Computability

/-- The texts of one character that has the property. -/
def Text.one (holds : Char → Prop) : Language Char :=
  {text | ∃ c, holds c ∧ text = [c]}

namespace Lexis

open Text

def IsDigit (c : Char) : Prop :=
  '0' ≤ c ∧ c ≤ '9'

instance : DecidablePred IsDigit :=
  fun _ => inferInstanceAs (Decidable (_ ∧ _))

def IsLetter (c : Char) : Prop :=
  'A' ≤ c ∧ c ≤ 'Z' ∨ 'a' ≤ c ∧ c ≤ 'z'

/-- The characters that may stand between tokens. -/
def separators : List Char :=
  [' ', '\t', '\n', '\r', '\x08', '\\']

def sign : Language Char :=
  1 + {['-']}

def digits : Language Char :=
  (one IsDigit)∗

/-- The digits of a number before its point: zero, or digits that do not start with zero. -/
def whole : Language Char :=
  {['0']} + one (fun c => '1' ≤ c ∧ c ≤ '9') * digits

/-- Zero has no sign. -/
def integer : Language Char :=
  {['0']} + sign * (one (fun c => '1' ≤ c ∧ c ≤ '9') * digits)

def decimal : Language Char :=
  sign * whole * {['.']} * (one IsDigit * digits)

/-- What looks like a number, whether its digits start with zero or not. -/
def numeral : Language Char :=
  sign * (one IsDigit * digits) * (1 + {['.']} * (one IsDigit * digits))

/-- The text looks like a number, and no longer text at its place does. -/
structure LongestNumeral (text rest : List Char) : Prop where
  mem : text ∈ numeral
  longest : ∀ text' rest' : List Char, text' ++ rest' = text ++ rest → text' ∈ numeral →
    text'.length ≤ text.length

def identifier : Language Char :=
  one (fun c => IsLetter c ∨ c = '@') *
    (one fun c => IsLetter c ∨ IsDigit c ∨ c = '_' ∨ c = '-')∗

def escape : Language Char :=
  {['\\']} * one fun c => c ∈ ['b', 'n', 'r', 't', '\'', '"', '\\']

/-- What stands for one character between two quotes. -/
def unit (quote : Char) : Language Char :=
  one (fun c => c ∉ [quote, '\n', '\r', '\\']) + escape

/-- What may stand behind an opening quote if a further character may still follow: nothing in a
character literal, any number of characters in a string. -/
inductive Opened : Char → List Char → Prop
  | character : Opened '\'' []
  | string {body : List Char} : body ∈ (unit '"')∗ → Opened '"' body

def character : Language Char :=
  {['\'']} * unit '\'' * {['\'']}

def string : Language Char :=
  {['"']} * (unit '"')∗ * {['"']}

/-- Four operators of two characters, and every character that starts no other token. -/
def operator : Language Char :=
  {['&', '&'], ['|', '|'], ['=', '='], ['!', '=']} +
    one fun c => c ∉ separators ∧ ¬ IsDigit c ∧ ¬ IsLetter c ∧ c ∉ ['@', '\'', '"']

end Lexis

namespace TokenKind

def language : TokenKind → Language Char
  | identifier => Lexis.identifier
  | integer => Lexis.integer
  | decimal => Lexis.decimal
  | character => Lexis.character
  | string => Lexis.string
  | operator => Lexis.operator

/-- The text is one of the kind, before the given rest. A minus sign before a digit is no
operator. -/
structure Matches (kind : TokenKind) (text rest : List Char) : Prop where
  mem : text ∈ kind.language
  minus : kind = .operator → text = ['-'] → ∀ c ∈ rest.head?, ¬ Lexis.IsDigit c

/-- The text is one of the kind, and no other piece of text at its place, of whatever kind, is
longer. -/
structure Longest (kind : TokenKind) (text rest : List Char) : Prop extends
    Matches kind text rest where
  longest : ∀ (other : TokenKind) (text' rest' : List Char), text' ++ rest' = text ++ rest →
    other.Matches text' rest' → text'.length ≤ text.length

end TokenKind

namespace Lexeme

/-- What is wrong with a text that starts like a token: the piece before the place where it shows,
and the text from there on. -/
inductive Flawed : Cause → List Char → List Char → Prop
  /-- Zero before another digit, which is where it shows. -/
  | leadingZero {sign more rest : List Char} {digit : Char} :
      sign ∈ Lexis.sign → digit.isDigit = true →
        Lexis.LongestNumeral (sign ++ '0' :: digit :: more) rest →
        Flawed (.invalidNumber (String.ofList (sign ++ '0' :: digit :: more))) (sign ++ ['0'])
          (digit :: (more ++ rest))
  /-- A point without a digit after it, which is where it shows. -/
  | trailingPoint {sign whole rest : List Char} :
      sign ∈ Lexis.sign → whole ∈ Lexis.whole → (∀ c ∈ rest.head?, ¬ Lexis.IsDigit c) →
        Flawed (.invalidNumber (String.ofList (sign ++ whole ++ ['.']))) (sign ++ whole ++ ['.'])
          rest
  /-- Zero with a sign, which is where it shows. -/
  | negativeZero {rest : List Char} :
      (∀ c ∈ rest.head?, ¬ Lexis.IsDigit c ∧ c ≠ '.') →
        Flawed (.invalidNumber "-0") [] ('-' :: '0' :: rest)
  /-- A backslash before a character that it does not go with, which is where it shows. -/
  | badEscape {quote c : Char} {body rest : List Char} :
      Lexis.Opened quote body → c ∉ ['b', 'n', 'r', 't', '\'', '"', '\\'] →
        Flawed (.invalidEscape (String.singleton c)) (quote :: (body ++ ['\\'])) (c :: rest)
  /-- A character or an escape that is missing at the end of the text. -/
  | endOfText {quote : Char} {body backslash : List Char} :
      Lexis.Opened quote body → backslash = [] ∨ backslash = ['\\'] →
        Flawed .unterminatedLiteral (quote :: (body ++ backslash)) []
  /-- A single quote that is missing at the end of the text. -/
  | noClosingQuote {body : List Char} :
      body ∈ Lexis.unit '\'' → Flawed .unterminatedLiteral ('\'' :: body) []
  /-- A string that is still open at the end of a line. -/
  | endOfLine {body rest : List Char} {c : Char} :
      body ∈ (Lexis.unit '"')∗ → c = '\n' ∨ c = '\r' →
        Flawed .unterminatedLiteral ('"' :: body) (c :: rest)
  /-- A character that cannot stand for itself between single quotes. -/
  | noCharacter {rest : List Char} {c : Char} :
      c = '\'' ∨ c = '\n' ∨ c = '\r' → Flawed .invalidCharacterLiteral ['\''] (c :: rest)
  /-- Something other than the closing quote after one character. -/
  | manyCharacters {body rest : List Char} {c : Char} :
      body ∈ Lexis.unit '\'' → c ≠ '\'' →
        Flawed .invalidCharacterLiteral ('\'' :: body) (c :: rest)

end Lexeme

/-! ## Members -/

namespace Lexis

open Text

theorem mem_one {holds : Char → Prop} {text : List Char} :
    text ∈ one holds ↔ ∃ c, holds c ∧ text = [c] :=
  Iff.rfl

theorem mem_singleton {text word : List Char} : text ∈ ({word} : Language Char) ↔ text = word :=
  Iff.rfl

/-- Any number of characters with a property. -/
theorem mem_star_one {holds : Char → Prop} {text : List Char} :
    text ∈ (one holds)∗ ↔ ∀ c ∈ text, holds c := by
  rw [Language.mem_kstar]
  constructor
  · rintro ⟨pieces, rfl, hpieces⟩ c hc
    obtain ⟨piece, hpiece, hc⟩ := List.mem_flatten.mp hc
    obtain ⟨d, hd, rfl⟩ := hpieces piece hpiece
    exact List.mem_singleton.mp hc ▸ hd
  · intro h
    refine ⟨text.map fun c => [c], by rw [← List.flatMap_def]; simp, ?_⟩
    simp only [List.mem_map]
    rintro _ ⟨c, hc, rfl⟩
    exact ⟨c, h c hc, rfl⟩

theorem mem_one_mul {holds : Char → Prop} {rest : Language Char} {text : List Char} :
    text ∈ one holds * rest ↔ ∃ c more, holds c ∧ more ∈ rest ∧ text = c :: more := by
  rw [Language.mem_mul]
  constructor
  · rintro ⟨_, ⟨c, hc, rfl⟩, more, hmore, rfl⟩
    exact ⟨c, more, hc, hmore, rfl⟩
  · rintro ⟨c, more, hc, hmore, rfl⟩
    exact ⟨[c], ⟨c, hc, rfl⟩, more, hmore, rfl⟩

/-! ### Characters -/

theorem isDigit_iff {c : Char} : c.isDigit = true ↔ IsDigit c := by
  simp [Char.isDigit, IsDigit, Char.le_def]

theorem isAlpha_iff {c : Char} : c.isAlpha = true ↔ IsLetter c := by
  have hupper : c.isUpper = decide ('A'.val ≤ c.val ∧ c.val ≤ 'Z'.val) := rfl
  have hlower : c.isLower = (decide ('a'.val ≤ c.val) && decide (c.val ≤ 'z'.val)) := rfl
  have halpha : c.isAlpha = (c.isUpper || c.isLower) := rfl
  simp [halpha, hupper, hlower, IsLetter, Char.le_def]

theorem isNonzero_iff {c : Char} : ('1' ≤ c ∧ c ≤ '9') ↔ c.isDigit = true ∧ c ≠ '0' := by
  have hzero : c = '0' ↔ c.val.toNat = 48 := by
    rw [← Char.val_inj, ← UInt32.toNat_inj]
    rfl
  simp only [Char.isDigit, Char.le_def, UInt32.le_iff_toNat_le, hzero, ne_eq, ge_iff_le,
    Bool.and_eq_true, decide_eq_true_eq]
  simp
  omega

theorem isSeparator_iff {c : Char} : Lexeme.isSeparator c = true ↔ c ∈ separators := by
  simp [Lexeme.isSeparator, separators, or_assoc]

theorem isEscape_iff {c : Char} :
    Lexeme.isEscape c = true ↔ c ∈ ['b', 'n', 'r', 't', '\'', '"', '\\'] := by
  simp [Lexeme.isEscape, or_assoc]

theorem startsIdentifier_iff {c : Char} :
    Lexeme.startsIdentifier c = true ↔ IsLetter c ∨ c = '@' := by
  simp [Lexeme.startsIdentifier, isAlpha_iff]

theorem continuesIdentifier_iff {c : Char} :
    Lexeme.continuesIdentifier c = true ↔ IsLetter c ∨ IsDigit c ∨ c = '_' ∨ c = '-' := by
  simp [Lexeme.continuesIdentifier, Char.isAlphanum, isAlpha_iff, isDigit_iff, or_assoc]

/-! ### Numbers -/

theorem mem_sign {text : List Char} : text ∈ sign ↔ text = [] ∨ text = ['-'] :=
  Iff.rfl

theorem mem_digits {text : List Char} : text ∈ digits ↔ ∀ c ∈ text, c.isDigit = true := by
  simp only [digits, mem_star_one, isDigit_iff]

theorem mem_nonzero {text : List Char} :
    text ∈ one (fun c => '1' ≤ c ∧ c ≤ '9') * digits ↔
      text ≠ [] ∧ (∀ c ∈ text, c.isDigit = true) ∧ text.head? ≠ some '0' := by
  rw [mem_one_mul]
  constructor
  · rintro ⟨c, more, hc, hmore, rfl⟩
    rw [isNonzero_iff] at hc
    rw [mem_digits] at hmore
    simpa [hc] using hmore
  · rintro ⟨hne, hdigits, hhead⟩
    obtain ⟨c, more, rfl⟩ := List.exists_cons_of_ne_nil hne
    rw [List.forall_mem_cons] at hdigits
    refine ⟨c, more, isNonzero_iff.mpr ⟨hdigits.1, ?_⟩, mem_digits.mpr hdigits.2, rfl⟩
    exact fun heq => hhead (congrArg some heq)

/-- The digits before the point are some, and zero starts none but itself. -/
theorem mem_whole {text : List Char} :
    text ∈ whole ↔ text ≠ [] ∧ (∀ c ∈ text, c.isDigit = true) ∧
      ¬ (1 < text.length ∧ text.head? = some '0') := by
  rw [whole, Language.mem_add, mem_singleton, mem_nonzero]
  constructor
  · rintro (rfl | ⟨hne, hdigits, hhead⟩)
    · simp
    · exact ⟨hne, hdigits, fun h => hhead h.2⟩
  · rintro ⟨hne, hdigits, hzero⟩
    by_cases hhead : text.head? = some '0'
    · left
      obtain ⟨c, more, rfl⟩ := List.exists_cons_of_ne_nil hne
      have hmore : more = [] := by
        by_contra hmore
        exact hzero ⟨by simpa using List.length_pos_iff.mpr hmore, hhead⟩
      rw [hmore, Option.some.inj hhead]
    · exact .inr ⟨hne, hdigits, hhead⟩

theorem mem_integer {text : List Char} :
    text ∈ integer ↔ ∃ first rest, first ∈ sign ∧ rest ∈ whole ∧
      first ++ rest ≠ ['-', '0'] ∧ text = first ++ rest := by
  rw [integer, Language.mem_add, mem_singleton, Language.mem_mul]
  constructor
  · rintro (rfl | ⟨first, hfirst, rest, hrest, rfl⟩)
    · exact ⟨[], ['0'], .inl rfl, .inl rfl, by decide, rfl⟩
    · refine ⟨first, rest, hfirst, .inr hrest, fun heq => ?_, rfl⟩
      rw [mem_nonzero] at hrest
      rcases mem_sign.mp hfirst with rfl | rfl
      · rw [List.nil_append] at heq
        exact absurd (hrest.2.1 '-' (by simp [heq])) (by decide)
      · exact hrest.2.2 (by simp_all)
  · rintro ⟨first, rest, hfirst, hrest, hzero, rfl⟩
    rw [whole, Language.mem_add, mem_singleton] at hrest
    rcases hrest with hrest | hrest
    · rcases mem_sign.mp hfirst with rfl | rfl
      · exact .inl hrest
      · exact absurd (by rw [hrest]; rfl) hzero
    · exact .inr ⟨first, hfirst, rest, hrest, rfl⟩

theorem mem_run {text : List Char} :
    text ∈ one IsDigit * digits ↔ text ≠ [] ∧ ∀ c ∈ text, c.isDigit = true := by
  simp only [mem_one_mul, mem_digits, ← isDigit_iff]
  constructor
  · rintro ⟨c, more, hc, hmore, rfl⟩
    simpa [hc] using hmore
  · rintro ⟨hne, hdigits⟩
    obtain ⟨c, more, rfl⟩ := List.exists_cons_of_ne_nil hne
    rw [List.forall_mem_cons] at hdigits
    exact ⟨c, more, hdigits.1, hdigits.2, rfl⟩

theorem mem_decimal {text : List Char} :
    text ∈ decimal ↔ ∃ first rest fraction, first ∈ sign ∧ rest ∈ whole ∧ fraction ≠ [] ∧
      (∀ c ∈ fraction, c.isDigit = true) ∧ text = first ++ (rest ++ '.' :: fraction) := by
  simp only [decimal, Language.mem_mul, mem_singleton, ↓mem_run]
  constructor
  · rintro ⟨_, ⟨_, ⟨first, hfirst, rest, hrest, rfl⟩, _, rfl, rfl⟩, fraction, ⟨hne, hmore⟩, rfl⟩
    exact ⟨first, rest, fraction, hfirst, hrest, hne, hmore, by simp⟩
  · rintro ⟨first, rest, fraction, hfirst, hrest, hne, hmore, rfl⟩
    exact ⟨_, ⟨_, ⟨first, hfirst, rest, hrest, rfl⟩, ['.'], rfl, rfl⟩, fraction, ⟨hne, hmore⟩,
      by simp⟩

theorem mem_numeral {text : List Char} :
    text ∈ numeral ↔ ∃ first rest tail, first ∈ sign ∧ rest ≠ [] ∧
      (∀ c ∈ rest, c.isDigit = true) ∧
      (tail = [] ∨ ∃ fraction, fraction ≠ [] ∧ (∀ c ∈ fraction, c.isDigit = true) ∧
        tail = '.' :: fraction) ∧ text = first ++ (rest ++ tail) := by
  simp only [numeral, Language.mem_mul, Language.mem_add, Language.mem_one, mem_singleton,
    ↓mem_run]
  constructor
  · rintro ⟨_, ⟨first, hfirst, rest, ⟨hne, hrest⟩, rfl⟩, tail, htail, rfl⟩
    refine ⟨first, rest, tail, hfirst, hne, hrest, ?_, List.append_assoc _ _ _⟩
    rcases htail with rfl | ⟨_, rfl, fraction, ⟨hfraction, hdigits⟩, rfl⟩
    · exact .inl rfl
    · exact .inr ⟨fraction, hfraction, hdigits, rfl⟩
  · rintro ⟨first, rest, tail, hfirst, hne, hrest, htail, rfl⟩
    refine ⟨_, ⟨first, hfirst, rest, ⟨hne, hrest⟩, rfl⟩, tail, ?_, List.append_assoc _ _ _⟩
    rcases htail with rfl | ⟨fraction, hfraction, hdigits, rfl⟩
    · exact .inl rfl
    · exact .inr ⟨['.'], rfl, fraction, ⟨hfraction, hdigits⟩, rfl⟩

/-- Integers and decimals look like numbers. -/
theorem numeral_of_mem {text : List Char} (h : text ∈ integer ∨ text ∈ decimal) :
    text ∈ numeral := by
  rcases h with h | h
  · obtain ⟨first, rest, hfirst, hrest, _, rfl⟩ := mem_integer.mp h
    obtain ⟨hne, hdigits, _⟩ := mem_whole.mp hrest
    exact mem_numeral.mpr ⟨first, rest, [], hfirst, hne, hdigits, .inl rfl, by simp⟩
  · obtain ⟨first, rest, fraction, hfirst, hrest, hfraction, hmore, rfl⟩ := mem_decimal.mp h
    obtain ⟨hne, hdigits, _⟩ := mem_whole.mp hrest
    exact mem_numeral.mpr ⟨first, rest, '.' :: fraction, hfirst, hne, hdigits,
      .inr ⟨fraction, hfraction, hmore, rfl⟩, rfl⟩

/-- Only one text at a place is the longest that looks like a number. -/
theorem LongestNumeral.unique {text rest text' rest' : List Char} (h : LongestNumeral text rest)
    (h' : LongestNumeral text' rest') (heq : text ++ rest = text' ++ rest') : text = text' := by
  have hlength : text.length = text'.length :=
    Nat.le_antisymm (h'.longest text rest heq h.mem) (h.longest text' rest' heq.symm h'.mem)
  exact (List.append_inj heq hlength).1

/-! ### Words, quotes and operators -/

theorem mem_identifier {text : List Char} :
    text ∈ identifier ↔ ∃ c more, Lexeme.startsIdentifier c = true ∧
      (∀ d ∈ more, Lexeme.continuesIdentifier d = true) ∧ text = c :: more := by
  simp only [identifier, mem_one_mul, mem_star_one, startsIdentifier_iff, continuesIdentifier_iff]

theorem mem_unit {quote : Char} {text : List Char} :
    text ∈ unit quote ↔ (∃ c, c ∉ [quote, '\n', '\r', '\\'] ∧ text = [c]) ∨
      ∃ c, Lexeme.isEscape c = true ∧ text = ['\\', c] := by
  simp only [unit, escape, Language.mem_add, mem_one, Language.mem_mul, mem_singleton, isEscape_iff]
  constructor
  · rintro (hraw | ⟨_, rfl, _, ⟨c, hc, rfl⟩, rfl⟩)
    · exact .inl hraw
    · exact .inr ⟨c, hc, rfl⟩
  · rintro (hraw | ⟨c, hc, rfl⟩)
    · exact .inl hraw
    · exact .inr ⟨['\\'], rfl, [c], ⟨c, hc, rfl⟩, rfl⟩

theorem mem_character {text : List Char} :
    text ∈ character ↔ ∃ body ∈ unit '\'', text = '\'' :: (body ++ ['\'']) := by
  simp only [character, Language.mem_mul, mem_singleton]
  constructor
  · rintro ⟨_, ⟨_, rfl, body, hbody, rfl⟩, _, rfl, rfl⟩
    exact ⟨body, hbody, rfl⟩
  · rintro ⟨body, hbody, rfl⟩
    exact ⟨_, ⟨['\''], rfl, body, hbody, rfl⟩, ['\''], rfl, rfl⟩

theorem mem_string {text : List Char} :
    text ∈ string ↔ ∃ body ∈ (unit '"')∗, text = '"' :: (body ++ ['"']) := by
  simp only [string, Language.mem_mul, mem_singleton]
  constructor
  · rintro ⟨_, ⟨_, rfl, body, hbody, rfl⟩, _, rfl, rfl⟩
    exact ⟨body, hbody, rfl⟩
  · rintro ⟨body, hbody, rfl⟩
    exact ⟨_, ⟨['"'], rfl, body, hbody, rfl⟩, ['"'], rfl, rfl⟩

theorem append_mem_star {piece : Language Char} {first rest : List Char} (hfirst : first ∈ piece∗)
    (hrest : rest ∈ piece∗) : first ++ rest ∈ piece∗ := by
  obtain ⟨pieces, rfl, hpieces⟩ := Language.mem_kstar.mp hfirst
  obtain ⟨pieces', rfl, hpieces'⟩ := Language.mem_kstar.mp hrest
  refine Language.mem_kstar.mpr ⟨pieces ++ pieces', List.flatten_append.symm, ?_⟩
  exact List.forall_mem_append.mpr ⟨hpieces, hpieces'⟩

theorem mem_star_of_mem {piece : Language Char} {text : List Char} (h : text ∈ piece) :
    text ∈ piece∗ :=
  Language.mem_kstar.mpr ⟨[text], by simp, by simpa using h⟩

/-- What holds of no pieces, and of one more piece whenever it holds of the rest, holds of any
number of pieces. -/
theorem star_induction {piece : Language Char} {motive : List Char → Prop} (nil : motive [])
    (append : ∀ first rest, first ∈ piece → motive rest → motive (first ++ rest))
    {text : List Char} (h : text ∈ piece∗) : motive text := by
  obtain ⟨pieces, rfl, hpieces⟩ := Language.mem_kstar.mp h
  clear h
  induction pieces with
  | nil => exact nil
  | cons first more ih =>
      rw [List.forall_mem_cons] at hpieces
      exact append first more.flatten hpieces.1 (ih hpieces.2)

end Lexis

/-- Every token has a text. -/
theorem TokenKind.ne_nil_of_mem {kind : TokenKind} {text : List Char} (h : text ∈ kind.language) :
    text ≠ [] := by
  rintro rfl
  cases kind with
  | identifier =>
      obtain ⟨c, more, _, _, heq⟩ := Lexis.mem_identifier.mp h
      cases heq
  | integer =>
      obtain ⟨first, rest, _, hrest, _, heq⟩ := Lexis.mem_integer.mp h
      exact (Lexis.mem_whole.mp hrest).1 (List.append_eq_nil_iff.mp heq.symm).2
  | decimal =>
      obtain ⟨first, rest, fraction, _, hrest, _, _, heq⟩ := Lexis.mem_decimal.mp h
      simp at heq
  | character =>
      obtain ⟨body, _, heq⟩ := Lexis.mem_character.mp h
      cases heq
  | string =>
      obtain ⟨body, _, heq⟩ := Lexis.mem_string.mp h
      cases heq
  | operator =>
      rcases h with (heq | heq | heq | heq) | ⟨c, _, heq⟩ <;> cases heq

end Scriptlet
