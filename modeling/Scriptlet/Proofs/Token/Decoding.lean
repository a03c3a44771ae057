import Mathlib.Data.Nat.Digits.Defs
import Scriptlet.Proofs.Number.DecimalValue
import Scriptlet.Proofs.Syntax.Causes
import Scriptlet.Proofs.Token.Order
import Scriptlet.Proofs.Token.Quoting

/-! # What literals denote

What the text of a literal denotes, said without decoding it: the number of its digits and the place
of its point, or the characters that stand between its quotes. Every text of a literal is decoded as
what it denotes, so reading the tokens of a text never fails for a literal.
-/

namespace Scriptlet

open scoped Computability

namespace Lexis

/-- The number that digits denote, the first of them being the most significant one. -/
def value (digits : List Char) : ℕ :=
  Nat.ofDigits 10 (digits.reverse.map fun c => c.toNat - '0'.toNat)

def factor (sign : List Char) : ℤ :=
  if sign = ['-'] then -1 else 1

/-- The character that a piece of text between two quotes stands for. -/
inductive Stands (quote : Char) : List Char → Char → Prop
  | raw {c : Char} : c ∉ [quote, '\n', '\r', '\\'] → Stands quote [c] c
  | escape {c meaning : Char} :
      (c, meaning) ∈ [('b', '\x08'), ('n', '\n'), ('r', '\r'), ('t', '\t'), ('\'', '\''),
        ('"', '"'), ('\\', '\\')] →
      Stands quote ['\\', c] meaning

/-- The constant that the text of a literal denotes. -/
inductive Denotes : TokenKind → List Char → Literal → Prop
  | integer {sign digits : List Char} : sign ∈ Lexis.sign → digits ∈ whole →
      Denotes .integer (sign ++ digits) (.integer (factor sign * value digits))
  | decimal {sign whole fraction : List Char} {d : Decimal} :
      sign ∈ Lexis.sign → whole ∈ Lexis.whole → fraction ∈ digits → d.scale = fraction.length →
      d.toRat = factor sign * (value whole + value fraction / 10 ^ fraction.length) →
      Denotes .decimal (sign ++ (whole ++ '.' :: fraction)) (.decimal d)
  | character {piece : List Char} {c : Char} : Stands '\'' piece c →
      Denotes .character ('\'' :: (piece ++ ['\''])) (.character c)
  | string {pieces : List (List Char)} {text : List Char} :
      List.Forall₂ (Stands '"') pieces text →
      Denotes .string ('"' :: (pieces.flatten ++ ['"'])) (.string (String.ofList text))

/-! ## Numbers -/

theorem value_append (digits more : List Char) :
    value (digits ++ more) = value digits * 10 ^ more.length + value more := by
  rw [value, List.reverse_append, List.map_append, Nat.ofDigits_append, List.length_map,
    List.length_reverse, Nat.mul_comm, Nat.add_comm]
  rfl

theorem ofDigitChars_eq_value (digits : List Char) :
    Nat.ofDigitChars 10 digits 0 = value digits := by
  induction digits with
  | nil => rfl
  | cons c more ih =>
      rw [← List.singleton_append, value_append, ← ih, List.singleton_append,
        Nat.ofDigitChars_cons, Nat.ofDigitChars_eq_ofDigitChars_zero]
      simp [value, Nat.mul_comm]

variable {sign digits : List Char}

/-- Digits with a sign are read as the number they denote. -/
theorem readInt?_of_digits (hsign : sign ∈ Lexis.sign) (hne : digits ≠ [])
    (hdigits : ∀ c ∈ digits, c.isDigit = true) :
    Numeral.readInt? (sign ++ digits) = some (factor sign * value digits) := by
  have hread : Numeral.readNat? digits = some (value digits) := by
    rw [Numeral.readNat?_of_isDigit hne hdigits, ofDigitChars_eq_value]
  rcases mem_sign.mp hsign with rfl | rfl
  · have hfirst : ∀ c more, digits = c :: more → c.isDigit = true := fun c more heq =>
      hdigits c (heq ▸ List.mem_cons_self)
    rw [List.nil_append, Numeral.readInt?]
    · simp [hread, factor]
    · exact fun more heq => absurd (hfirst _ _ heq) (by decide)
    · exact fun more heq => absurd (hfirst _ _ heq) (by decide)
  · simp [Numeral.readInt?, hread, factor]

theorem ne_of_isDigit {c d : Char} (hc : c.isDigit = true) (hd : d.isDigit = false) : c ≠ d := by
  rintro rfl
  rw [hc] at hd
  cases hd

theorem notMark_of_isDigit {c : Char} (h : c.isDigit = true) :
    (!Decimal.isExponentMark c) = true := by
  have he : c ≠ 'e' := ne_of_isDigit h rfl
  have hE : c ≠ 'E' := ne_of_isDigit h rfl
  simp [Decimal.isExponentMark, he, hE]

/-- Digits with a sign and a point are read as all the digits with as many places as stand behind
the point. -/
theorem read?_of_digits {whole fraction : List Char} (hsign : sign ∈ Lexis.sign)
    (hwhole : whole ∈ Lexis.whole) (hfraction : ∀ c ∈ fraction, c.isDigit = true) :
    Decimal.read? (sign ++ (whole ++ '.' :: fraction)) =
      some ⟨factor sign * value (whole ++ fraction), fraction.length⟩ := by
  obtain ⟨hne, hdigits, _⟩ := mem_whole.mp hwhole
  have hminus : ∀ c ∈ sign, c = '-' := by
    rcases mem_sign.mp hsign with rfl | rfl <;> simp
  have hmark : ∀ c ∈ sign ++ (whole ++ '.' :: fraction), (!Decimal.isExponentMark c) = true := by
    intro c hc
    simp only [List.mem_append, List.mem_cons] at hc
    rcases hc with hc | hc | rfl | hc
    · rw [hminus c hc]
      rfl
    · exact notMark_of_isDigit (hdigits c hc)
    · rfl
    · exact notMark_of_isDigit (hfraction c hc)
  have hpoint : ∀ c ∈ sign ++ whole, decide (c ≠ '.') = true := by
    intro c hc
    rw [decide_eq_true_eq]
    rcases List.mem_append.mp hc with hc | hc
    · rw [hminus c hc]
      decide
    · exact ne_of_isDigit (hdigits c hc) rfl
  have hplaces : ∀ c ∈ fraction, ¬ c = '_' := fun c hc => ne_of_isDigit (hfraction c hc) rfl
  have hread := readInt?_of_digits hsign (List.append_ne_nil_of_left_ne_nil hne fraction)
    (List.forall_mem_append.mpr ⟨hdigits, hfraction⟩)
  rw [Decimal.read?, List.takeWhile_eq_self_iff.mpr hmark, List.dropWhile_eq_nil_iff.mpr hmark,
    ← List.append_assoc, List.takeWhile_append_of_pos hpoint, List.dropWhile_append_of_pos hpoint]
  simpa [Decimal.readExponent?, hread] using hplaces

/-- The number of all the digits, with the point set behind the first of them. -/
theorem toRat_of_digits (whole fraction : List Char) :
    (⟨factor sign * value (whole ++ fraction), fraction.length⟩ : Decimal).toRat =
      factor sign * (value whole + value fraction / 10 ^ fraction.length) := by
  have hpower : (10 : ℚ) ^ fraction.length ≠ 0 := pow_ne_zero _ (by norm_num)
  rw [Decimal.toRat, value_append, zpow_neg, zpow_natCast, ← div_eq_mul_inv]
  push_cast
  rw [mul_div_assoc, add_div, mul_div_cancel_right₀ _ hpower]

/-! ## Quotes -/

/-- What stands between quotes for one character is decoded as that character. -/
theorem stands_of_mem_unit {quote : Char} {piece : List Char} (h : piece ∈ unit quote) :
    ∃ c, Stands quote piece c ∧
      ∀ rest, Token.unescape (piece ++ rest) = c :: Token.unescape rest := by
  rcases mem_unit.mp h with ⟨c, hc, rfl⟩ | ⟨c, hc, rfl⟩
  · refine ⟨c, .raw hc, fun rest => Token.unescape_raw ?_ rest⟩
    rintro rfl
    exact hc (by simp)
  · refine ⟨Token.escaped c, .escape ?_, Token.unescape_escaped c⟩
    rw [isEscape_iff] at hc
    simp only [List.mem_cons, List.not_mem_nil, or_false] at hc
    rcases hc with rfl | rfl | rfl | rfl | rfl | rfl | rfl <;> decide

theorem exists_pieces {quote : Char} {body : List Char} (h : body ∈ (unit quote)∗) :
    ∃ pieces, body = pieces.flatten ∧ List.Forall₂ (Stands quote) pieces (Token.unescape body) := by
  refine star_induction (motive := fun body => ∃ pieces, body = pieces.flatten ∧
    List.Forall₂ (Stands quote) pieces (Token.unescape body)) ?_ ?_ h
  · exact ⟨[], rfl, .nil⟩
  · rintro piece rest hpiece ⟨pieces, hrest, hstands⟩
    obtain ⟨c, hc, hunescape⟩ := stands_of_mem_unit hpiece
    refine ⟨piece :: pieces, by rw [hrest, List.flatten_cons], ?_⟩
    rw [hunescape]
    exact .cons hc hstands

end Lexis

/-! ## Literals -/

/-- The text of a literal is decoded as what it denotes. -/
theorem Token.exists_literal {token : Token} (hmem : token.text.toList ∈ token.kind.language)
    (hword : token.kind ≠ .identifier) (hoperator : token.kind ≠ .operator) :
    ∃ value, token.literal = .ok value ∧ Lexis.Denotes token.kind token.text.toList value := by
  obtain ⟨kind, text, offset⟩ := token
  dsimp only at hmem hword hoperator ⊢
  cases kind with
  | identifier => exact absurd rfl hword
  | operator => exact absurd rfl hoperator
  | integer =>
      obtain ⟨sign, digits, hsign, hdigits, _, htext⟩ := Lexis.mem_integer.mp hmem
      have hwhole := Lexis.mem_whole.mp hdigits
      refine ⟨.integer (Lexis.factor sign * Lexis.value digits), ?_, ?_⟩
      · simp only [literal, htext, Lexis.readInt?_of_digits hsign hwhole.1 hwhole.2.1]
      · rw [htext]
        exact .integer hsign hdigits
  | decimal =>
      obtain ⟨sign, whole, fraction, hsign, hwhole, _, hfraction, htext⟩ :=
        Lexis.mem_decimal.mp hmem
      refine ⟨.decimal ⟨Lexis.factor sign * Lexis.value (whole ++ fraction), fraction.length⟩,
        ?_, ?_⟩
      · simp only [literal, htext, Lexis.read?_of_digits hsign hwhole hfraction]
      · rw [htext]
        exact .decimal hsign hwhole (Lexis.mem_digits.mpr hfraction) rfl
          (Lexis.toRat_of_digits whole fraction)
  | character =>
      obtain ⟨piece, hpiece, htext⟩ := Lexis.mem_character.mp hmem
      obtain ⟨c, hc, hunescape⟩ := Lexis.stands_of_mem_unit hpiece
      have hone : unescape piece = [c] := by simpa [unescape] using hunescape []
      refine ⟨.character c, ?_, ?_⟩
      · have hbetween := between_quotes '\'' rfl piece
        simp only [literal, htext, hbetween, hone]
      · rw [htext]
        exact .character hc
  | string =>
      obtain ⟨body, hbody, htext⟩ := Lexis.mem_string.mp hmem
      obtain ⟨pieces, hpieces, hstands⟩ := Lexis.exists_pieces hbody
      refine ⟨.string (String.ofList (unescape body)), ?_, ?_⟩
      · have hbetween := between_quotes '"' rfl body
        simp only [literal, htext, hbetween]
      · have hdenotes := Lexis.Denotes.string hstands
        rwa [← hpieces, ← htext] at hdenotes

/-- What is read from a text never fails for a literal. -/
theorem Parse.Explains.ofOrder_of_run {α : Type} {step : Parse α} (hstep : step.Explains)
    {tokens : List Token} {error : Error}
    (htokens : ∀ token ∈ tokens, token.text.toList ∈ token.kind.language)
    (h : step.run tokens = .error error) : error.cause.OfOrder := by
  rcases hstep.of_run h with horder | ⟨token, htoken, hcause⟩
  · exact horder
  · by_cases hword : token.kind = .identifier ∨ token.kind = .operator
    · -- A word or an operator is no literal, which is a matter of order.
      rcases hword with hkind | hkind
      · simp only [Token.literal, hkind, Except.error.injEq] at hcause
        exact hcause ▸ .token
      · simp only [Token.literal, hkind, Except.error.injEq] at hcause
        exact hcause ▸ .token
    · rw [not_or] at hword
      obtain ⟨value, hvalue, _⟩ := Token.exists_literal (htokens token htoken) hword.1 hword.2
      rw [hcause] at hvalue
      cases hvalue

theorem Cause.OfOrder.ne_literal {cause : Cause} (h : cause.OfOrder) :
    (∀ literal, cause ≠ .invalidNumber literal) ∧ cause ≠ .invalidCharacterLiteral := by
  cases h <;> simp

/-- Every literal among the tokens of a text is decoded as what its text denotes and is by itself
the expression of that constant, and neither a program nor an expression fails to be read from the
tokens because of a literal. -/
theorem literals_decode {text : String} {tokens : List Token} (h : tokenize text = .ok tokens) :
    (∀ token ∈ tokens, token.kind ≠ .identifier → token.kind ≠ .operator →
      ∃ value, token.literal = .ok value ∧
        Lexis.Denotes token.kind token.text.toList value ∧
        Expr.ofTokens [token] = .ok (.literal 0 value)) ∧
    ∀ error, Program.ofTokens tokens = .error error ∨ Expr.ofTokens tokens = .error error →
      (∀ literal, error.cause ≠ .invalidNumber literal) ∧
        error.cause ≠ .invalidCharacterLiteral := by
  have hmem : ∀ token ∈ tokens, token.text.toList ∈ token.kind.language := by
    intro token htoken
    obtain ⟨_, _, _, _, hlongest⟩ := (tiles_of_scan h).placed token htoken
    exact hlongest.mem
  constructor
  · intro token htoken hword hoperator
    obtain ⟨value, hvalue, hdenotes⟩ := Token.exists_literal (hmem token htoken) hword hoperator
    exact ⟨value, hvalue, hdenotes, Expr.ofTokens_literal hvalue⟩
  · intro error herror
    apply Cause.OfOrder.ne_literal
    rcases herror with hprogram | hexpr
    · exact Parse.program_explains.ofOrder_of_run hmem hprogram
    · have hstep := Parse.toEnd_explains (Parse.expr_explains .lowest) "end of expression"
      exact hstep.ofOrder_of_run hmem hexpr

def adjacentTokens : List Token :=
  [⟨.decimal, "-1.50", 0⟩, ⟨.character, "'a'", 6⟩]

theorem tokenize_adjacent : tokenize "-1.50 'a'" = .ok adjacentTokens := by
  apply tokenize_eq_ok
  decide +kernel

/-- Two literals with nothing between them are no expression, but both are decoded. -/
theorem literals_decode_adjacent :
    tokenize "-1.50 'a'" = .ok adjacentTokens ∧
      (∀ token ∈ adjacentTokens, ∃ value, token.literal = .ok value ∧
        Lexis.Denotes token.kind token.text.toList value ∧
        Expr.ofTokens [token] = .ok (.literal 0 value)) ∧
      ∃ error, Expr.ofTokens adjacentTokens = .error error ∧
        (∀ literal, error.cause ≠ .invalidNumber literal) ∧
        error.cause ≠ .invalidCharacterLiteral := by
  have herror : Expr.ofTokens adjacentTokens =
      .error ⟨.unexpectedToken "'a'" "end of expression", .parse 6⟩ := rfl
  obtain ⟨hliterals, hcauses⟩ := literals_decode tokenize_adjacent
  refine ⟨tokenize_adjacent, ?_, _, herror, hcauses _ (.inr herror)⟩
  intro token htoken
  have hkind : token.kind ≠ .identifier ∧ token.kind ≠ .operator := by
    revert token
    decide
  exact hliterals token htoken hkind.1 hkind.2

end Scriptlet
