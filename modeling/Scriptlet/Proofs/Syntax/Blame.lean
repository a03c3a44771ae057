import Scriptlet.Proofs.Syntax.Locality
import Scriptlet.Proofs.Syntax.ProgramViability
import Scriptlet.Proofs.Token.Order

/-! # Errors blame the first offending token

Where the tokens of a text are no program, the error stands at the first token that is wrong. With
the tokens up to this one nothing helps, whatever follows them, while without it they begin some
program. An error at the end means that only more tokens are missing.
-/

namespace Scriptlet

variable {tokens : List Token} {error : Error}

theorem Parse.run_eq_error_iff {α : Type} {step : Parse α} :
    Parse.run step tokens = .error error ↔
      ∃ last, step (Cursor.start tokens) = .error error last := by
  unfold Parse.run
  cases step (Cursor.start tokens) <;> simp

/-- In a sequence with growing offsets, the offset of a token tells its place. -/
theorem Token.length_eq_of_offset {before rest : List Token} {token other : Token} {k : Nat}
    (hordered : tokens.Pairwise fun first second => first.offset < second.offset)
    (htokens : tokens = before ++ token :: rest) (hother : tokens[k]? = some other)
    (hoffset : token.offset = other.offset) : before.length = k := by
  have htoken : tokens[before.length]? = some token := by simp [htokens]
  obtain ⟨hlength, rfl⟩ := List.getElem?_eq_some_iff.mp htoken
  obtain ⟨hk, rfl⟩ := List.getElem?_eq_some_iff.mp hother
  rw [List.pairwise_iff_getElem] at hordered
  rcases Nat.lt_trichotomy before.length k with hlt | heq | hgt
  · exact absurd hoffset (Nat.ne_of_lt (hordered _ _ hlength hk hlt))
  · exact heq
  · exact absurd hoffset (Nat.ne_of_gt (hordered _ _ hk hlength hgt))

namespace Program

/-- An error is met by one of the tokens or by the end. -/
theorem exists_position (herror : Program.ofTokens tokens = .error error) :
    ∃ position, error.stage = .parse position ∧
      ((∃ token ∈ tokens, token.offset = position) ∨ position = Token.lastStop tokens) := by
  obtain ⟨last, hrun⟩ := Parse.run_eq_error_iff.mp herror
  have hagrees := Parse.program_agrees (tokens.length + 1) 0 tokens (Token.lastStop tokens) 0
    (Nat.lt_succ_self _)
  rcases hagrees.of_error hrun with ⟨read, token, rest, htokens, hstage, -⟩ | ⟨hstage, -⟩
  · exact ⟨token.offset, hstage, .inl ⟨token, by simp [htokens], rfl⟩⟩
  · exact ⟨Token.lastStop tokens, hstage, .inr rfl⟩

/-- The tokens up to the one that is blamed settle the error. -/
theorem ofTokens_eq_error_of_take {others : List Token} {k : Nat} {token : Token}
    (hordered : tokens.Pairwise fun first second => first.offset < second.offset)
    (hbefore : token.offset < Token.lastStop tokens)
    (herror : Program.ofTokens tokens = .error error) (htoken : tokens[k]? = some token)
    (hstage : error.stage = .parse token.offset)
    (htake : others.take (k + 1) = tokens.take (k + 1)) :
    Program.ofTokens others = .error error := by
  obtain ⟨last, hrun⟩ := Parse.run_eq_error_iff.mp herror
  have hagrees := Parse.program_agrees (tokens.length + 1) (others.length + 1) tokens
    (Token.lastStop tokens) 0 (Nat.lt_succ_self _)
  rcases hagrees.of_error hrun with ⟨read, blamed, rest, htokens, hblamed, halike⟩ | ⟨hend, -⟩
  · have hoffset : blamed.offset = token.offset := by
      rw [hblamed] at hstage
      exact Stage.parse.inj hstage
    have hlength : read.length = k := Token.length_eq_of_offset hordered htokens htoken hoffset
    have hothers : others = read ++ blamed :: others.drop (k + 1) := by
      have hread : tokens.take (k + 1) = read ++ [blamed] := by
        rw [htokens, ← List.singleton_append, ← List.append_assoc]
        exact List.take_left' (by simp [hlength])
      calc others = others.take (k + 1) ++ others.drop (k + 1) := (List.take_append_drop _ _).symm
        _ = read ++ blamed :: others.drop (k + 1) := by rw [htake, hread]; simp
    obtain ⟨last', hsame⟩ := halike (others.drop (k + 1)) (Token.lastStop others)
      (by rw [← hothers]; exact Nat.lt_succ_self _)
    rw [← hothers] at hsame
    exact Parse.run_eq_error_iff.mpr ⟨last', hsame⟩
  · rw [hend] at hstage
    exact absurd (Stage.parse.inj hstage) (Nat.ne_of_gt hbefore)

/-- The tokens before the one that is blamed, or all of them, begin some program. -/
theorem exists_viable (herror : Program.ofTokens tokens = .error error) :
    ∃ read rest, tokens = read ++ rest ∧
      (∀ token ∈ rest.head?, error.stage = .parse token.offset) ∧
      ∃ more q, Program.ofTokens (read ++ more) = .ok q := by
  obtain ⟨last, hrun⟩ := Parse.run_eq_error_iff.mp herror
  obtain ⟨read, rest, htokens, hstage, more, p, hwritten, hwell⟩ :=
    (Parse.program_guided.follows (Cursor.start tokens)).of_error hrun
  obtain ⟨q, hok, -⟩ := Program.exists_ofTokens hwell hwritten
  exact ⟨read, rest, htokens, hstage, more, q, hok⟩

/-- The tokens before the one that is blamed begin some program. -/
theorem exists_ofTokens_take {k : Nat} {token : Token}
    (hordered : tokens.Pairwise fun first second => first.offset < second.offset)
    (herror : Program.ofTokens tokens = .error error) (htoken : tokens[k]? = some token)
    (hstage : error.stage = .parse token.offset) :
    ∃ more q, Program.ofTokens (tokens.take k ++ more) = .ok q := by
  obtain ⟨read, rest, hsplit, hblamed, more, q, hok⟩ := exists_viable herror
  cases rest with
  | nil =>
      refine ⟨tokens.drop k ++ more, q, ?_⟩
      rw [← List.append_assoc, List.take_append_drop, hsplit, List.append_nil]
      exact hok
  | cons blamed others =>
      have hoffset : blamed.offset = token.offset := by
        have hsame := hblamed blamed rfl
        rw [hstage] at hsame
        exact (Stage.parse.inj hsame).symm
      have hlength := Token.length_eq_of_offset hordered hsplit htoken hoffset
      refine ⟨more, q, ?_⟩
      rw [hsplit, ← hlength, List.take_left]
      exact hok

/-- If the end is blamed, all the tokens begin some program, which is longer. -/
theorem exists_ofTokens_append
    (hbefore : ∀ token ∈ tokens, token.offset < Token.lastStop tokens)
    (herror : Program.ofTokens tokens = .error error)
    (hstage : error.stage = .parse (Token.lastStop tokens)) :
    ∃ more q, more ≠ [] ∧ Program.ofTokens (tokens ++ more) = .ok q := by
  obtain ⟨read, rest, hsplit, hblamed, more, q, hok⟩ := exists_viable herror
  cases rest with
  | nil =>
      rw [List.append_nil] at hsplit
      subst hsplit
      refine ⟨more, q, ?_, hok⟩
      rintro rfl
      rw [List.append_nil, herror] at hok
      cases hok
  | cons blamed others =>
      have hsame := hblamed blamed rfl
      rw [hstage] at hsame
      have hlt := hbefore blamed (by simp [hsplit])
      exact absurd (Stage.parse.inj hsame).symm (Nat.ne_of_lt hlt)

/-- An error in the tokens of a text stands at a token or at the end. If it stands at a token, all
sequences that agree up to this token have the same error, and the tokens before it begin some
program. If it stands at the end, the tokens begin some program that goes on. -/
theorem error_at_first_offending_token {text : String} (htokens : tokenize text = .ok tokens)
    (herror : Program.ofTokens tokens = .error error) :
    ∃ position, error.stage = .parse position ∧
      ((∃ token ∈ tokens, token.offset = position) ∨ position = Token.lastStop tokens) ∧
      (∀ k token, tokens[k]? = some token → token.offset = position →
        (∀ others : List Token, others.take (k + 1) = tokens.take (k + 1) →
          Program.ofTokens others = .error error) ∧
        ∃ more q, Program.ofTokens (tokens.take k ++ more) = .ok q) ∧
      (position = Token.lastStop tokens →
        ∃ more q, more ≠ [] ∧ Program.ofTokens (tokens ++ more) = .ok q) := by
  obtain ⟨hordered, hbefore⟩ := tokenize_ordered htokens
  obtain ⟨position, hstage, hplace⟩ := exists_position herror
  refine ⟨position, hstage, hplace, ?_, ?_⟩
  · rintro k token htoken rfl
    constructor
    · intro others htake
      exact ofTokens_eq_error_of_take hordered (hbefore token (List.mem_of_getElem? htoken)) herror
        htoken hstage htake
    · exact exists_ofTokens_take hordered herror htoken hstage
  · rintro rfl
    exact exists_ofTokens_append hbefore herror hstage

/-- The tokens of a function whose only call has a comma too many. -/
def trailingTokens : List Token :=
  [⟨.identifier, "FUN", 0⟩, ⟨.identifier, "f", 4⟩, ⟨.operator, "(", 5⟩, ⟨.operator, ")", 6⟩,
    ⟨.identifier, "DO", 8⟩, ⟨.identifier, "g", 11⟩, ⟨.operator, "(", 12⟩, ⟨.integer, "1", 13⟩,
    ⟨.operator, ",", 14⟩, ⟨.operator, ")", 15⟩, ⟨.operator, ";", 16⟩, ⟨.identifier, "END", 18⟩]

theorem tokenize_trailing : tokenize "FUN f() DO g(1,); END" = .ok trailingTokens := by
  apply tokenize_eq_ok
  decide +kernel

/-- The bracket behind the comma is blamed, and without it the call could have gone on. -/
theorem error_at_trailing_comma :
    tokenize "FUN f() DO g(1,); END" = .ok trailingTokens ∧
      Program.ofTokens trailingTokens = .error ⟨.trailingComma, .parse 15⟩ ∧
      (∀ others : List Token, others.take 10 = trailingTokens.take 10 →
        Program.ofTokens others = .error ⟨.trailingComma, .parse 15⟩) ∧
      ∃ more q, Program.ofTokens (trailingTokens.take 9 ++ more) = .ok q := by
  have herror : Program.ofTokens trailingTokens = .error ⟨.trailingComma, .parse 15⟩ := rfl
  obtain ⟨position, hstage, -, hblamed, -⟩ :=
    error_at_first_offending_token tokenize_trailing herror
  cases hstage
  obtain ⟨hsettled, hviable⟩ := hblamed 9 ⟨.operator, ")", 15⟩ rfl rfl
  exact ⟨tokenize_trailing, herror, hsettled, hviable⟩

end Program

end Scriptlet
