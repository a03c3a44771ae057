import Scriptlet.Proofs.Eval.Checked
import Scriptlet.Proofs.Syntax.Blame
import Scriptlet.Proofs.Text.ShownLine

/-! # The caret of a report

The report of a position shows the line of the position without the blanks at its ends, and below it
a caret. The caret is set off by the bytes between the first character shown and the position. So it
stands below the character at the position, or just behind the last character shown, exactly if all
characters before the position take one byte each and none of them is a blank that is not shown.
-/

namespace Scriptlet

open Text

/-! ## Positions of errors -/

/-- Tokens that are no program are wrong at one of them or just behind the last. -/
theorem inkedAt_of_ofTokens_error {text : String} {tokens : List Token} {error : Error}
    (htokens : tokenize text = .ok tokens) (herror : Program.ofTokens tokens = .error error) :
    ∃ position, error.stage = .parse position ∧
      (InkedAt text.toList position ∨ tokens = [] ∧ position = 0) := by
  obtain ⟨position, hstage, ⟨token, htoken, rfl⟩ | rfl⟩ := Program.exists_position herror
  · exact ⟨_, hstage, .inl (inkedAt_of_token htokens htoken).1⟩
  · refine ⟨_, hstage, ?_⟩
    cases hlast : tokens.getLast? with
    | none =>
        right
        rw [Token.lastStop, hlast]
        exact ⟨List.getLast?_eq_none_iff.mp hlast, rfl⟩
    | some token =>
        left
        rw [Token.lastStop, hlast]
        exact (inkedAt_of_token htokens (List.mem_of_getLast? hlast)).2

variable {σ : Type}

theorem Program.stage_of_check_error {p : Program} {builtins : List (Builtin σ)} {error : Error}
    (h : p.check builtins = .error error) : error.stage = .typing := by
  unfold Program.check Program.annotate at h
  cases hstart : Builtin.staticScopes builtins with
  | error cause =>
      rw [hstart] at h
      cases h
      rfl
  | ok scopes =>
      rw [hstart] at h
      dsimp only at h
      cases hresult : Check.program p (.start scopes) with
      | ok _ finish =>
          rw [hresult] at h
          cases h
      | error cause finish =>
          rw [hresult] at h
          cases h
          rfl

/-- A check fails in reading the text, in reading its tokens, or in typing the program. -/
theorem check_error_cases {text : String} {builtins : List (Builtin σ)} {error : Error}
    (h : check text builtins = .error error) :
    tokenize text = .error error ∨
      (∃ tokens, tokenize text = .ok tokens ∧ Program.ofTokens tokens = .error error) ∨
      ∃ p : Program, p.check builtins = .error error := by
  cases htokens : tokenize text with
  | error flaw =>
      unfold check parse at h
      rw [htokens] at h
      cases h
      exact .inl rfl
  | ok tokens =>
      have hparse : parse text = Program.ofTokens tokens := by
        unfold parse
        rw [htokens]
        rfl
      cases hprogram : Program.ofTokens tokens with
      | error wrong =>
          unfold check at h
          rw [hparse, hprogram] at h
          cases h
          exact .inr (.inl ⟨tokens, rfl, hprogram⟩)
      | ok p =>
          rw [check_of_parse (hparse.trans hprogram)] at h
          cases hnotes : p.check builtins with
          | ok notes =>
              rw [hnotes] at h
              cases h
          | error mistake =>
              rw [hnotes] at h
              cases h
              exact .inr (.inr ⟨p, hnotes⟩)

/-- An error of a check that has a position is met where something other than separators stands, or
there is nothing else in the text. -/
theorem inkedAt_of_check_error {text : String} {builtins : List (Builtin σ)} {error : Error}
    {position : Nat} (hcheck : check text builtins = .error error)
    (hposition : error.position? = some position) :
    InkedAt text.toList position ∨ tokenize text = .ok [] ∧ position = 0 := by
  unfold Error.position? at hposition
  rcases check_error_cases hcheck with hflaw | ⟨tokens, htokens, hwrong⟩ | ⟨p, hmistake⟩
  · obtain ⟨_, hstage, hinked⟩ := inkedAt_of_tokenize_error hflaw
    rw [hstage] at hposition
    cases hposition
    exact .inl hinked
  · obtain ⟨_, hstage, hinked⟩ := inkedAt_of_ofTokens_error htokens hwrong
    rw [hstage] at hposition
    cases hposition
    rcases hinked with hinked | ⟨rfl, hzero⟩
    · exact .inl hinked
    · exact .inr ⟨htokens, hzero⟩
  · rw [Program.stage_of_check_error hmistake] at hposition
    cases hposition

/-! ## Lines of a report -/

theorem Text.lines_append_newline {body : List Char} (h : '\n' ∉ body) (rest : List Char) :
    lines (body ++ '\n' :: rest) = (body ++ ['\n']) :: lines rest := by
  induction body with
  | nil => rfl
  | cons c body ih =>
      rw [List.mem_cons, not_or] at h
      rw [List.cons_append, lines, if_neg (Ne.symm h.1), ih h.2]
      rfl

/-- What follows a newline begins with a line of its own. -/
theorem Text.exists_lines_append (first rest : List Char) :
    ∃ line above, lines (first ++ '\n' :: rest) = line :: above ++ lines rest := by
  induction first with
  | nil => exact ⟨['\n'], [], rfl⟩
  | cons c first ih =>
      obtain ⟨line, above, heq⟩ := ih
      rw [List.cons_append, lines, heq]
      split
      · exact ⟨[c], line :: above, rfl⟩
      · exact ⟨c :: line, above, rfl⟩

theorem Text.newline_not_mem_toString (n : Nat) : '\n' ∉ (toString n).toList := by
  intro hmem
  have hdigits : (toString n).toList = Nat.toDigits 10 n := Nat.toList_repr
  rw [hdigits] at hmem
  exact absurd (Nat.isDigit_of_mem_toDigits (by decide) (by decide) hmem) (by decide)

namespace Error

/-- What stands before a line that is shown: its number and a bar. -/
def gutter (number : Nat) : List Char :=
  (toString number).toList ++ [' ', '|', ' ']

/-- A report points at a position of a text: it ends with the line of the position, numbered and
without the blanks at its ends, and a line below it that ends in a caret. Between its indentation
and the position the line has `passed`, of which all or a part is shown. What is shown of the line
is `shown`, and `column` is the distance of the caret, in characters, from its first character. -/
def PointsAt (report text : List Char) (position : Nat) (passed shown : List Char) (column : Nat) :
    Prop :=
  ∃ earlier indent ahead later rule above,
    ShownLine text earlier indent passed ahead later shown ∧
    position = byteLength (earlier ++ indent ++ passed) ∧
    lines report = above ++
      [gutter (1 + earlier.count '\n') ++ shown ++ ['\n'], rule ++ ['^', '\n'], []] ∧
    '^' ∉ rule ∧ rule.length = (gutter (1 + earlier.count '\n')).length + column

namespace PointsAt

variable {report text passed shown : List Char} {position column : Nat}

/-- A report points at a position in one way only. -/
theorem unique {passed' shown' : List Char} {column' : Nat}
    (h : PointsAt report text position passed shown column)
    (h' : PointsAt report text position passed' shown' column') :
    passed = passed' ∧ shown = shown' ∧ column = column' := by
  obtain ⟨earlier, indent, ahead, later, rule, above, hshown, hposition, hlines, -, hlength⟩ := h
  obtain ⟨earlier', indent', ahead', later', rule', above', hshown', hposition', hlines', -,
    hlength'⟩ := h'
  obtain ⟨rfl, rfl⟩ := hshown.unique hshown' (hposition.symm.trans hposition')
  rw [hlines] at hlines'
  obtain ⟨-, hlast⟩ := List.append_inj' hlines' (by simp only [List.length_cons])
  simp only [List.cons.injEq, List.append_cancel_right_eq, List.append_cancel_left_eq, and_true]
    at hlast
  obtain ⟨rfl, rfl⟩ := hlast
  rw [hlength'] at hlength
  exact ⟨rfl, rfl, (Nat.add_left_cancel hlength).symm⟩

theorem not_column (h : PointsAt report text position passed shown column)
    (hcolumn : column ≠ Text.column passed shown) :
    ¬ ∃ passed' shown',
      PointsAt report text position passed' shown' (Text.column passed' shown') := by
  rintro ⟨passed', shown', h'⟩
  obtain ⟨rfl, rfl, heq⟩ := h.unique h'
  exact hcolumn heq

theorem passed_begins_iff (h : PointsAt report text position passed shown column) :
    passed <+: shown ↔ passed.length ≤ shown.length := by
  obtain ⟨_, _, _, _, _, _, hshown, -⟩ := h
  exact hshown.passed_begins_iff

/-- A caret that is set off by bytes is in the column of the position exactly if every byte before
the position is a character that is shown. -/
theorem column_iff (h : PointsAt report text position passed shown (byteLength passed)) :
    PointsAt report text position passed shown (Text.column passed shown) ↔
      (∀ c ∈ passed, c.utf8Size = 1) ∧ passed <+: shown := by
  rw [h.passed_begins_iff, ← byteLength_eq_column_iff]
  constructor
  · intro hcolumn
    exact (h.unique hcolumn).2.2
  · intro hbytes
    rwa [hbytes] at h

end PointsAt

/-! ## Excerpts -/

/-- What is shown of the line of a location. -/
def shown (place : Location) : List Char :=
  trimEnd (place.text.drop (indentation place.text).length)

/-- The line below the one that is shown, up to the caret. -/
def rule (place : Location) : List Char :=
  List.replicate ((toString place.line).length + 1) ' ' ++ ['|', ' '] ++
    List.replicate (place.offset - (indentation place.text).length) '-'

theorem length_rule (place : Location) :
    (rule place).length = (gutter place.line).length +
      (place.offset - (indentation place.text).length) := by
  simp only [rule, gutter, List.length_append, List.length_replicate, String.length_toList,
    List.length_cons, List.length_nil]

theorem excerpt_toList (place : Location) :
    ∃ margin, (excerpt place).toList = margin ++ '\n' ::
      (gutter place.line ++ shown place ++ '\n' :: (rule place ++ ['^'] ++ ['\n'])) := by
  refine ⟨List.replicate ((toString place.line).length + 1) ' ' ++ ['|'], ?_⟩
  unfold excerpt gutter shown rule
  dsimp only
  -- Only how the parts are put together matters.
  generalize toString place.line = number
  generalize trimEnd _ = shown
  generalize place.offset - _ = dashes
  simp only [String.toList_append, String.toList_ofList, List.append_assoc]
  rfl

/-- A report of a position ends with the two lines of its excerpt. -/
theorem lines_report {error : Error} {position : Nat} (hposition : error.position? = some position)
    {source : String} {place : Location} (hplace : locate source.toList position = place)
    (hshown : '\n' ∉ shown place) (file : String) :
    ∃ above, lines (error.report source file).toList =
      above ++ [gutter place.line ++ shown place ++ ['\n'], rule place ++ ['^', '\n'], []] := by
  obtain ⟨heading, hreport⟩ : ∃ heading, (error.report source file).toList =
      heading ++ (excerpt place).toList := by
    unfold report
    rw [hposition]
    dsimp only
    rw [hplace, String.toList_append]
    exact ⟨_, rfl⟩
  have hgutter : '\n' ∉ gutter place.line :=
    List.not_mem_append (newline_not_mem_toString place.line) (by decide)
  have hupper := List.not_mem_append hgutter hshown
  have hlower : '\n' ∉ rule place ++ ['^'] := by
    simp [rule]
  obtain ⟨margin, hexcerpt⟩ := excerpt_toList place
  rw [hreport, hexcerpt, ← List.append_assoc]
  obtain ⟨line, above, hlines⟩ := exists_lines_append (heading ++ margin)
    (gutter place.line ++ shown place ++ '\n' :: (rule place ++ ['^'] ++ ['\n']))
  refine ⟨line :: above, ?_⟩
  rw [hlines, lines_append_newline hupper, lines_append_newline hlower,
    List.append_assoc (rule place)]
  rfl

/-- The caret is set off by the bytes that the line has before the position, less those of the
indentation. -/
theorem report_pointsAt {error : Error} {position : Nat}
    (hposition : error.position? = some position) {source : String} {place : Location}
    (hplace : locate source.toList position = place) {earlier later passed ahead : List Char}
    {q : Nat} (hline : place.line = 1 + earlier.count '\n')
    (hsplits : place.Splits source.toList q earlier later)
    (hrest : place.text.drop (indentation place.text).length = passed ++ ahead)
    (hpassed : '\n' ∉ passed) (file : String) :
    PointsAt (error.report source file).toList source.toList
      (byteLength (earlier ++ indentation place.text ++ passed)) passed (shown place)
      (place.offset - (indentation place.text).length) := by
  have hview := hsplits.shownLine hrest hpassed
  rw [← hrest] at hview
  obtain ⟨above, hlines⟩ := lines_report hposition hplace hview.newline_not_mem_shown file
  rw [hline] at hlines
  refine ⟨earlier, indentation place.text, ahead, later, rule place, above, hview, rfl, hlines, ?_,
    ?_⟩
  · simp [rule]
  · rw [length_rule, hline]

end Error

/-! ## Carets -/

/-- An error that reading a text meets at a position is reported with a caret that is set off by the
bytes that the line has between its indentation and the position. This is the column of the position
exactly if all characters there take one byte and are shown. Only a text without tokens is blamed at
its start, blank or not, and then the caret stands below the first character that is shown. -/
theorem caret_counts_bytes {text : String} {builtins : List (Builtin σ)} {error : Error}
    {position : Nat} (hcheck : check text builtins = .error error)
    (hposition : error.position? = some position) (file : String) :
    (∃ passed shown,
      Error.PointsAt (error.report text file).toList text.toList position passed shown
        (byteLength passed) ∧
      (Error.PointsAt (error.report text file).toList text.toList position passed shown
          (column passed shown) ↔
        (∀ c ∈ passed, c.utf8Size = 1) ∧ passed <+: shown)) ∨
    tokenize text = .ok [] ∧ position = 0 ∧
      ∃ shown, Error.PointsAt (error.report text file).toList text.toList
        (byteLength (Error.indentation text.toList)) [] shown 0 := by
  obtain ⟨earlier, later, hline, hsplits⟩ := locate_splits text.toList position
  rcases inkedAt_of_check_error hcheck hposition with hinked | ⟨htokens, rfl⟩
  · left
    rw [Nat.min_eq_left hinked.le_byteLength] at hsplits
    obtain ⟨passed, ahead, hrest, hpassed, hplace, hcolumn⟩ := hsplits.exists_passed hinked
    have hpoints := Error.report_pointsAt hposition rfl hline hsplits hrest hpassed file
    rw [← hplace, hcolumn] at hpoints
    exact ⟨passed, _, hpoints, hpoints.column_iff⟩
  · right
    rw [Nat.zero_min] at hsplits
    obtain ⟨rfl, hoffset, hindent⟩ := hsplits.indentation_of_zero
    have hpoints := Error.report_pointsAt hposition rfl hline hsplits (List.nil_append _).symm
      List.not_mem_nil file
    rw [hoffset, Nat.zero_sub, hindent, List.append_nil, List.nil_append] at hpoints
    exact ⟨htokens, rfl, _, hpoints⟩

/-- The second number of an indented line is blamed, and the caret is below it. -/
theorem caret_counts_bytes_indented :
    check "VAL s:\n\t Any = 1 2;" ([] : List (Builtin Unit)) =
      .error ⟨.unexpectedToken "2" "`;`", .parse 17⟩ ∧
    ∃ passed shown,
      Error.PointsAt (Error.report ⟨.unexpectedToken "2" "`;`", .parse 17⟩
        "VAL s:\n\t Any = 1 2;" "main.ql").toList "VAL s:\n\t Any = 1 2;".toList 17 passed shown
        (byteLength passed) ∧
      (Error.PointsAt (Error.report ⟨.unexpectedToken "2" "`;`", .parse 17⟩
          "VAL s:\n\t Any = 1 2;" "main.ql").toList "VAL s:\n\t Any = 1 2;".toList 17 passed shown
          (column passed shown) ↔
        (∀ c ∈ passed, c.utf8Size = 1) ∧ passed <+: shown) := by
  have htokens : tokenize "VAL s:\n\t Any = 1 2;" =
      .ok [⟨.identifier, "VAL", 0⟩, ⟨.identifier, "s", 4⟩, ⟨.operator, ":", 5⟩,
        ⟨.identifier, "Any", 9⟩, ⟨.operator, "=", 13⟩, ⟨.integer, "1", 15⟩, ⟨.integer, "2", 17⟩,
        ⟨.operator, ";", 18⟩] :=
    tokenize_eq_ok (by decide +kernel)
  have hcheck : check "VAL s:\n\t Any = 1 2;" ([] : List (Builtin Unit)) =
      .error ⟨.unexpectedToken "2" "`;`", .parse 17⟩ := by
    unfold check parse
    rw [htokens]
    rfl
  refine ⟨hcheck, ?_⟩
  exact (caret_counts_bytes hcheck rfl "main.ql").resolve_right fun h => absurd h.2.1 (by decide)

/-- The second character between the quotes is blamed, but the first takes two bytes, and so the
caret is below the closing quote. The end of an open string is blamed, but the blanks before it are
not shown, and so the caret is not just behind the last character shown. -/
theorem caret_misses_character :
    (check "'éa'" ([] : List (Builtin Unit)) = .error ⟨.invalidCharacterLiteral, .lex 3⟩ ∧
      ¬ ∃ passed shown, Error.PointsAt (Error.report ⟨.invalidCharacterLiteral, .lex 3⟩ "'éa'"
        "main.ql").toList "'éa'".toList 3 passed shown (column passed shown)) ∧
    check "\"abc   " ([] : List (Builtin Unit)) = .error ⟨.unterminatedLiteral, .lex 7⟩ ∧
      ¬ ∃ passed shown, Error.PointsAt (Error.report ⟨.unterminatedLiteral, .lex 7⟩ "\"abc   "
        "main.ql").toList "\"abc   ".toList 7 passed shown (column passed shown) := by
  have hfirst : tokenize "'éa'" = .error ⟨.invalidCharacterLiteral, .lex 3⟩ := by
    decide +kernel
  have hsecond : tokenize "\"abc   " = .error ⟨.unterminatedLiteral, .lex 7⟩ := by
    decide +kernel
  refine ⟨⟨?_, ?_⟩, ?_, ?_⟩
  · unfold check parse
    rw [hfirst]
    rfl
  · have hplace : locate "'éa'".toList 3 = ⟨1, ['\'', 'é', 'a', '\''], 3⟩ := by
      decide +kernel
    have hsplits : Location.Splits ⟨1, ['\'', 'é', 'a', '\''], 3⟩ "'éa'".toList 3 [] [] :=
      ⟨rfl, rfl, .inl rfl, .inr ⟨by decide, rfl, by decide⟩⟩
    have hrest : ['\'', 'é', 'a', '\''].drop (Error.indentation ['\'', 'é', 'a', '\'']).length =
        ['\'', 'é'] ++ ['a', '\''] := by
      decide
    exact (Error.report_pointsAt rfl hplace rfl hsplits hrest (by decide) "main.ql").not_column
      (by decide)
  · unfold check parse
    rw [hsecond]
    rfl
  · have hplace : locate "\"abc   ".toList 7 = ⟨1, ['"', 'a', 'b', 'c', ' ', ' ', ' '], 7⟩ := by
      decide +kernel
    have hsplits : Location.Splits ⟨1, ['"', 'a', 'b', 'c', ' ', ' ', ' '], 7⟩ "\"abc   ".toList 7
        [] [] :=
      ⟨rfl, rfl, .inl rfl, .inr ⟨by decide, rfl, by decide⟩⟩
    have hrest : ['"', 'a', 'b', 'c', ' ', ' ', ' '].drop
          (Error.indentation ['"', 'a', 'b', 'c', ' ', ' ', ' ']).length =
        ['"', 'a', 'b', 'c', ' ', ' ', ' '] ++ [] := by
      decide
    exact (Error.report_pointsAt rfl hplace rfl hsplits hrest (by decide) "main.ql").not_column
      (by decide)

end Scriptlet
