import Scriptlet.Proofs.Syntax.ExpressionCompleteness
import Scriptlet.Proofs.Token.Lexemes
import Scriptlet.Token.Scan

/-! # Writing characters between quotes

Every text can be written as a string literal and every character as a character literal: what
cannot stand for itself between the quotes is written as an escape. Such a literal is one token,
which is read back as what was written.
-/

namespace Scriptlet

open scoped Computability

namespace Token

/-- What is written between the quotes for one character. -/
def escape (quote c : Char) : List Char :=
  if c = '\\' ∨ c = quote then ['\\', c]
  else if c = '\n' then ['\\', 'n']
  else if c = '\r' then ['\\', 'r']
  else [c]

/-- The literal of a text, between the given quotes. -/
def quoted (quote : Char) (text : List Char) : String :=
  String.ofList (quote :: (text.flatMap (escape quote) ++ [quote]))

/-! ## What stands between the quotes -/

theorem between_quotes (quote : Char) (h : quote.utf8Size = 1) (body : List Char) :
    between (quote :: (body ++ [quote])) = body := by
  simp [between, h]

theorem unescape_escaped (c : Char) (rest : List Char) :
    unescape ('\\' :: c :: rest) = escaped c :: unescape rest := rfl

theorem unescape_raw {c : Char} (h : c ≠ '\\') (rest : List Char) :
    unescape (c :: rest) = c :: unescape rest := by
  rw [unescape]
  · exact fun hc _ => h hc
  · exact fun _ _ hc => absurd hc h

section

variable {quote : Char} (hquote : quote = '\'' ∨ quote = '"')

include hquote

/-- A character is written as an escape that means it, or stands for itself. -/
theorem escape_cases (c : Char) :
    (∃ d, Lexeme.isEscape d = true ∧ escaped d = c ∧ escape quote c = ['\\', d]) ∨
      c ∉ [quote, '\n', '\r', '\\'] ∧ escape quote c = [c] := by
  by_cases hself : c = '\\' ∨ c = quote
  · have hmeaning : Lexeme.isEscape c = true ∧ escaped c = c := by
      rcases hself with rfl | rfl
      · exact ⟨rfl, rfl⟩
      · rcases hquote with rfl | rfl <;> exact ⟨rfl, rfl⟩
    exact .inl ⟨c, hmeaning.1, hmeaning.2, if_pos hself⟩
  · rw [escape, if_neg hself]
    by_cases hline : c = '\n'
    · exact .inl ⟨'n', rfl, hline.symm, if_pos hline⟩
    · by_cases hreturn : c = '\r'
      · refine .inl ⟨'r', rfl, hreturn.symm, ?_⟩
        rw [if_neg hline, if_pos hreturn]
      · rw [not_or] at hself
        rw [if_neg hline, if_neg hreturn]
        exact .inr ⟨by simp [hself, hline, hreturn], rfl⟩

theorem unescape_escape (c : Char) (rest : List Char) :
    unescape (escape quote c ++ rest) = c :: unescape rest := by
  rcases escape_cases hquote c with ⟨d, _, hmeaning, heq⟩ | ⟨hraw, heq⟩
  · rw [heq, ← hmeaning]
    exact unescape_escaped d rest
  · rw [heq]
    apply unescape_raw
    rintro rfl
    exact hraw (by simp)

/-- Reading a text between quotes undoes writing it there. -/
theorem unescape_flatMap_escape (text : List Char) :
    unescape (text.flatMap (escape quote)) = text := by
  induction text with
  | nil => rfl
  | cons c rest ih => rw [List.flatMap_cons, unescape_escape hquote, ih]

/-- What is written for a character may stand between the quotes. -/
theorem escape_mem_unit (c : Char) : escape quote c ∈ Lexis.unit quote := by
  rcases escape_cases hquote c with ⟨d, hd, _, heq⟩ | ⟨hraw, heq⟩
  · exact Lexis.mem_unit.mpr (.inr ⟨d, hd, heq⟩)
  · exact Lexis.mem_unit.mpr (.inl ⟨c, hraw, heq⟩)

theorem flatMap_escape_mem_star (text : List Char) :
    text.flatMap (escape quote) ∈ (Lexis.unit quote)∗ := by
  induction text with
  | nil => exact Language.nil_mem_kstar _
  | cons c rest ih =>
      rw [List.flatMap_cons]
      exact Lexis.append_mem_star (Lexis.mem_star_of_mem (escape_mem_unit hquote c)) ih

end

end Token

/-! ## Literals alone in a text -/

/-- A text that is one lexeme is one token. -/
theorem scan_of_read {kind : TokenKind} {c : Char} {rest : List Char}
    (hseparator : Lexeme.isSeparator c = false) (h : Lexeme.read c rest = .ok (kind, rest.length))
    (offset : Nat) :
    scan offset (c :: rest) = .ok [⟨kind, String.ofList (c :: rest), offset⟩] := by
  rw [scan, if_neg (by simp [hseparator]), h]
  simp only [List.take_length, List.drop_length, scan]
  rfl

theorem tokenize_string {body : List Char} (hbody : body ∈ (Lexis.unit '"')∗) :
    tokenize (String.ofList ('"' :: (body ++ ['"']))) =
      .ok [⟨.string, String.ofList ('"' :: (body ++ ['"'])), 0⟩] := by
  rw [tokenize, String.toList_ofList]
  apply scan_of_read rfl
  rw [Lexeme.read_string, Lexeme.stringTail_of_mem hbody, List.length_append]
  rfl

theorem tokenize_character {body : List Char} (hbody : body ∈ Lexis.unit '\'') :
    tokenize (String.ofList ('\'' :: (body ++ ['\'']))) =
      .ok [⟨.character, String.ofList ('\'' :: (body ++ ['\''])), 0⟩] := by
  rw [tokenize, String.toList_ofList]
  apply scan_of_read rfl
  rw [Lexeme.read_character, Lexeme.characterTail_of_mem hbody, List.length_append]
  rfl

namespace Parse

variable {token : Token} {value : Literal} {finish : Nat} {id : NodeId}

theorem literal_of_ok (h : token.literal = .ok value) :
    literal ⟨[token], finish, id⟩ = .ok (.literal id value) ⟨[], finish, id + 1⟩ := by
  have hadvance : advance "a literal" ⟨[token], finish, id⟩ = .ok token ⟨[], finish, id⟩ := rfl
  rw [literal, bind_of_ok hadvance, h]
  rfl

theorem operand_of_literal (h : token.literal = .ok value) (nested : Precedence → Parse Expr)
    (limit : Nat) : operand nested limit ⟨[token], finish, id⟩ =
      .ok (.literal id value) ⟨[], finish, id + 1⟩ := by
  obtain ⟨hidentifier, hoperator⟩ := Token.kind_of_literal h
  have hget : (get : Parse Cursor) ⟨[token], finish, id⟩ = .ok ⟨[token], finish, id⟩ _ := rfl
  rw [operand, bind_of_ok hget]
  simp only [List.head?_cons, Option.map_some]
  exact literal_of_ok h

end Parse

/-- A literal alone is an expression. -/
theorem Expr.ofTokens_literal {token : Token} {value : Literal} (h : token.literal = .ok value) :
    Expr.ofTokens [token] = .ok (.literal 0 value) := by
  have hexpr : Parse.expr .lowest (Cursor.start [token]) =
      .ok (.literal 0 value) ⟨[], token.stop, 1⟩ :=
    bind_of_ok (Parse.operand_of_literal h _ _)
  rw [Expr.ofTokens, Parse.run, Parse.toEnd, bind_of_ok hexpr]
  rfl

/-- Every text can be written as a string literal, which is one token of the whole text and is read
back as the text; and every character as a character literal. -/
theorem quoted_reads_back (text : String) (c : Char) :
    (tokenize (Token.quoted '"' text.toList) =
        .ok [⟨.string, Token.quoted '"' text.toList, 0⟩] ∧
      Expr.ofTokens [⟨.string, Token.quoted '"' text.toList, 0⟩] =
        .ok (.literal 0 (.string text))) ∧
    tokenize (Token.quoted '\'' [c]) = .ok [⟨.character, Token.quoted '\'' [c], 0⟩] ∧
      Expr.ofTokens [⟨.character, Token.quoted '\'' [c], 0⟩] =
        .ok (.literal 0 (.character c)) := by
  refine ⟨⟨?_, ?_⟩, ?_, ?_⟩
  · exact tokenize_string (Token.flatMap_escape_mem_star (.inr rfl) _)
  · apply Expr.ofTokens_literal
    simp only [Token.literal, Token.quoted, String.toList_ofList]
    rw [Token.between_quotes '"' rfl, Token.unescape_flatMap_escape (.inr rfl),
      String.ofList_toList]
  · rw [Token.quoted, List.flatMap_singleton]
    exact tokenize_character (Token.escape_mem_unit (.inl rfl) c)
  · apply Expr.ofTokens_literal
    simp only [Token.literal, Token.quoted, String.toList_ofList]
    rw [Token.between_quotes '\'' rfl, Token.unescape_flatMap_escape (.inl rfl)]

end Scriptlet
