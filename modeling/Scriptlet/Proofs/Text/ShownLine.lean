import Scriptlet.Proofs.Text.LineLookup
import Scriptlet.Proofs.Token.Ink
import Scriptlet.Report

/-! # Lines as they are shown

A line is shown without the spaces and tabs before it and without the white space behind it. What is
left depends only on the text and the position, and so does what the line has between its
indentation and the position. The lookup of a line and the two removals find these parts. The
position may be behind all that is shown, within the white space that was removed. -/

namespace Scriptlet

/-! ## Shown lines -/

namespace Text

/-- A line of a text, what is shown of it, and a place on it. Behind the indentation the line has
`passed` before the place and `ahead` behind it, whether this is shown or not. -/
structure ShownLine (text earlier indent passed ahead later shown : List Char) : Prop where
  text_eq : text = earlier ++ (indent ++ passed ++ ahead) ++ later
  /-- The line begins where the text does, or behind a newline. -/
  starts : earlier = [] ∨ ['\n'] <:+ earlier
  line : '\n' ∉ passed
  /-- The line ends with its newline, or where the text does. -/
  ends : (∃ body, ahead = body ++ ['\n'] ∧ '\n' ∉ body) ∨ '\n' ∉ ahead ∧ later = []
  /-- The spaces and tabs before its first other character are not shown. -/
  indent_blank : ∀ c ∈ indent, c = ' ' ∨ c = '\t'
  indent_stops : ∀ c ∈ (passed ++ ahead).head?, ¬ (c = ' ' ∨ c = '\t')
  /-- The white space behind its last other character is not shown. -/
  shown_eq : ∃ trailing, passed ++ ahead = shown ++ trailing ∧ ∀ c ∈ trailing, isBlank c = true
  shown_stops : ∀ c ∈ shown.getLast?, isBlank c = false

/-- Two texts that begin a third are compared by their bytes. -/
theorem prefix_of_byteLength_le {first second text : List Char} (hfirst : first <+: text)
    (hsecond : second <+: text) (h : byteLength first ≤ byteLength second) : first <+: second := by
  rcases List.prefix_or_prefix_of_prefix hfirst hsecond with hbegins | ⟨more, rfl⟩
  · exact hbegins
  · by_cases hmore : more = []
    · rw [hmore, List.append_nil]
    · rw [byteLength_append] at h
      exact absurd h (Nat.not_le.mpr (Nat.lt_add_of_pos_right (byteLength_pos hmore)))

theorem eq_of_byteLength_eq {first second text : List Char} (hfirst : first <+: text)
    (hsecond : second <+: text) (h : byteLength first = byteLength second) : first = second :=
  (prefix_of_byteLength_le hfirst hsecond h.le).sublist.antisymm
    (prefix_of_byteLength_le hsecond hfirst h.ge).sublist

/-- No line begins within a piece of text that has no newline. -/
theorem prefix_of_line_start {earlier rest earlier' rest' : List Char}
    (h : earlier ++ rest = earlier' ++ rest') (hstarts : earlier = [] ∨ ['\n'] <:+ earlier)
    (hrest : '\n' ∉ rest') : earlier <+: earlier' := by
  rcases List.append_eq_append_iff.mp h with ⟨more, rfl, -⟩ | ⟨more, rfl, rfl⟩
  · exact List.prefix_append _ _
  · by_cases hmore : more = []
    · rw [hmore, List.append_nil]
    · have hsuffix : ['\n'] <:+ earlier' ++ more :=
        hstarts.resolve_left (List.append_ne_nil_of_right_ne_nil _ hmore)
      have hlast : ['\n'] <:+ more :=
        List.suffix_of_suffix_length_le hsuffix (List.suffix_append _ _)
          (List.length_pos_iff.mpr hmore)
      exact absurd (List.mem_append_left _ (hlast.subset List.mem_cons_self)) hrest

namespace ShownLine

variable {text earlier indent passed ahead later shown : List Char}

theorem place_begins (h : ShownLine text earlier indent passed ahead later shown) :
    earlier ++ indent ++ passed <+: text :=
  ⟨ahead ++ later, by rw [h.text_eq]; simp⟩

theorem newline_not_mem_indent (h : ShownLine text earlier indent passed ahead later shown) :
    '\n' ∉ indent := by
  intro hmem
  rcases h.indent_blank _ hmem with hc | hc <;> exact absurd hc (by decide)

/-- What is shown of a line is without its newline. -/
theorem newline_not_mem_shown (h : ShownLine text earlier indent passed ahead later shown) :
    '\n' ∉ shown := by
  obtain ⟨trailing, heq, -⟩ := h.shown_eq
  intro hmem
  rcases h.ends with ⟨body, rfl, hbody⟩ | ⟨hahead, -⟩
  · -- The newline is the last character, so it is blank and not shown.
    have hnone : '\n' ∉ passed ++ body := List.not_mem_append h.line hbody
    rw [← List.append_assoc] at heq
    rcases List.eq_nil_or_concat trailing with rfl | ⟨more, c, rfl⟩
    · have hlast := h.shown_stops '\n' (by rw [← List.append_nil shown, ← heq]; simp)
      exact absurd hlast (by decide)
    · rw [List.concat_eq_append, ← List.append_assoc] at heq
      obtain ⟨hshown, -⟩ := List.append_inj' heq rfl
      exact hnone (hshown ▸ List.mem_append_left _ hmem)
  · exact List.not_mem_append h.line hahead (heq ▸ List.mem_append_left _ hmem)

theorem indent_begins {indent' passed' : List Char}
    (h : ShownLine text earlier indent passed ahead later shown)
    (heq : indent ++ passed = indent' ++ passed') (hblank : ∀ c ∈ indent', c = ' ' ∨ c = '\t') :
    indent' <+: indent := by
  rcases List.append_eq_append_iff.mp heq with ⟨more, rfl, rfl⟩ | ⟨more, rfl, -⟩
  · cases more with
    | nil => rw [List.append_nil]
    | cons c more => exact absurd (hblank c (by simp)) (h.indent_stops c rfl)
  · exact List.prefix_append _ _

/-- A position is on one line only, behind the same part of it. -/
theorem unique {earlier' indent' passed' ahead' later' shown' : List Char}
    (h : ShownLine text earlier indent passed ahead later shown)
    (h' : ShownLine text earlier' indent' passed' ahead' later' shown')
    (hposition : byteLength (earlier ++ indent ++ passed) =
      byteLength (earlier' ++ indent' ++ passed')) : earlier = earlier' ∧ passed = passed' := by
  have hplace : earlier ++ (indent ++ passed) = earlier' ++ (indent' ++ passed') := by
    rw [← List.append_assoc, ← List.append_assoc]
    exact eq_of_byteLength_eq h.place_begins h'.place_begins hposition
  -- Neither line begins within the other, as what stands on it before the position has no newline.
  have hline := List.not_mem_append h.newline_not_mem_indent h.line
  have hline' := List.not_mem_append h'.newline_not_mem_indent h'.line
  obtain rfl : earlier = earlier' :=
    (prefix_of_line_start hplace h.starts hline').sublist.antisymm
      (prefix_of_line_start hplace.symm h'.starts hline).sublist
  have heq := List.append_cancel_left hplace
  obtain rfl : indent = indent' :=
    (h'.indent_begins heq.symm h.indent_blank).sublist.antisymm
      (h.indent_begins heq h'.indent_blank).sublist
  exact ⟨rfl, List.append_cancel_left heq⟩

/-- What the line has before the place is shown as a whole, unless the place is behind the last
character that is shown. -/
theorem passed_begins_iff (h : ShownLine text earlier indent passed ahead later shown) :
    passed <+: shown ↔ passed.length ≤ shown.length := by
  obtain ⟨trailing, heq, -⟩ := h.shown_eq
  constructor
  · intro hbegins
    exact hbegins.length_le
  · intro hle
    exact List.prefix_of_prefix_length_le (List.prefix_append passed ahead) ⟨trailing, heq.symm⟩ hle

end ShownLine

/-- The column of a place on a line as it is shown, in characters. It is that of the character at
the place, or the one just behind the last character shown. -/
def column (passed shown : List Char) : Nat :=
  min passed.length shown.length

/-! ## Removing blanks -/

theorem trimEnd_append (text : List Char) :
    ∃ trailing, text = trimEnd text ++ trailing ∧ ∀ c ∈ trailing, isBlank c = true := by
  refine ⟨(text.reverse.takeWhile isBlank).reverse, ?_, ?_⟩
  · rw [trimEnd, ← List.reverse_append, List.takeWhile_append_dropWhile, List.reverse_reverse]
  · intro c hc
    exact List.mem_takeWhile_imp (List.mem_reverse.mp hc)

theorem isBlank_getLast?_trimEnd (text : List Char) :
    ∀ c ∈ (trimEnd text).getLast?, isBlank c = false := by
  intro c hc
  rw [trimEnd, List.getLast?_reverse] at hc
  have hhead := List.head?_dropWhile_not isBlank text.reverse
  rwa [Option.mem_def.mp hc] at hhead

theorem indentation_blank (line : List Char) :
    ∀ c ∈ Error.indentation line, c = ' ' ∨ c = '\t' := by
  intro c hc
  simpa using List.mem_takeWhile_imp hc

theorem newline_not_mem_indentation (line : List Char) : '\n' ∉ Error.indentation line := by
  intro hmem
  rcases indentation_blank line _ hmem with hc | hc <;> exact absurd hc (by decide)

theorem drop_indentation (line : List Char) :
    line.drop (Error.indentation line).length = line.dropWhile fun c => c = ' ' || c = '\t' := by
  have hdrop : (Error.indentation line ++ line.dropWhile fun c => c = ' ' || c = '\t').drop
      (Error.indentation line).length = line.dropWhile fun c => c = ' ' || c = '\t' :=
    List.drop_left
  rwa [Error.indentation, List.takeWhile_append_dropWhile] at hdrop

theorem indentation_append (line : List Char) :
    line = Error.indentation line ++ line.drop (Error.indentation line).length := by
  rw [drop_indentation]
  exact List.takeWhile_append_dropWhile.symm

theorem indentation_stops (line : List Char) :
    ∀ c ∈ (line.drop (Error.indentation line).length).head?, ¬ (c = ' ' ∨ c = '\t') := by
  intro c hc
  rw [drop_indentation] at hc
  have hhead := List.head?_dropWhile_not (fun c => c = ' ' || c = '\t') line
  rw [Option.mem_def.mp hc] at hhead
  simpa using hhead

/-- The indentation ends before the place if a character other than blanks is met there or
before. -/
theorem indentation_begins {before after : List Char}
    (h : (∃ c ∈ before, ¬ (c = ' ' ∨ c = '\t')) ∨ ∀ c ∈ after.head?, ¬ (c = ' ' ∨ c = '\t')) :
    Error.indentation (before ++ after) <+: before := by
  rw [Error.indentation, List.takeWhile_append]
  split
  next hall =>
    rcases h with ⟨c, hc, hnot⟩ | hstops
    · rw [← (List.takeWhile_prefix _).eq_of_length hall] at hc
      exact absurd (by simpa using List.mem_takeWhile_imp hc) hnot
    · cases after with
      | nil => rw [List.takeWhile_nil, List.append_nil]
      | cons c more =>
          rw [List.takeWhile_cons_of_neg (by simpa using hstops c rfl), List.append_nil]
  next => exact List.takeWhile_prefix _

theorem length_le_byteLength (text : List Char) : text.length ≤ byteLength text := by
  induction text with
  | nil => exact Nat.le_refl 0
  | cons c text ih =>
      have hpos := c.utf8Size_pos
      rw [List.length_cons, byteLength_cons]
      omega

/-- A text has as many bytes as characters if each of them takes one byte. -/
theorem byteLength_eq_length_iff {text : List Char} :
    byteLength text = text.length ↔ ∀ c ∈ text, c.utf8Size = 1 := by
  induction text with
  | nil => simp
  | cons c text ih =>
      have hpos := c.utf8Size_pos
      have hle := length_le_byteLength text
      rw [List.forall_mem_cons, ← ih, byteLength_cons, List.length_cons]
      omega

/-- Bytes count the column of a place if each character before it takes one byte and none of them is
removed. -/
theorem byteLength_eq_column_iff {passed shown : List Char} :
    byteLength passed = column passed shown ↔
      (∀ c ∈ passed, c.utf8Size = 1) ∧ passed.length ≤ shown.length := by
  have hle := length_le_byteLength passed
  rw [← byteLength_eq_length_iff, column]
  omega

theorem byteLength_indentation (line : List Char) :
    byteLength (Error.indentation line) = (Error.indentation line).length := by
  refine byteLength_eq_length_iff.mpr fun c hc => ?_
  rcases indentation_blank line c hc with rfl | rfl <;> rfl

/-! ## Finding the line -/

/-- What is left of a line ends as the line does. -/
theorem ends_of_append {line first ahead later : List Char} (hline : line = first ++ ahead)
    (hfirst : '\n' ∉ first)
    (h : (∃ body, line = body ++ ['\n'] ∧ '\n' ∉ body) ∨ '\n' ∉ line ∧ later = []) :
    (∃ body, ahead = body ++ ['\n'] ∧ '\n' ∉ body) ∨ '\n' ∉ ahead ∧ later = [] := by
  subst hline
  rcases h with ⟨body, hbody, hnone⟩ | ⟨hnone, hlater⟩
  · left
    rcases List.eq_nil_or_concat ahead with rfl | ⟨more, c, rfl⟩
    · rw [List.append_nil] at hbody
      exact absurd (by simp [hbody]) hfirst
    · rw [List.concat_eq_append, ← List.append_assoc] at hbody
      obtain ⟨rfl, hc⟩ := List.append_inj' hbody rfl
      cases hc
      exact ⟨more, List.concat_eq_append, fun hmem => hnone (List.mem_append_right _ hmem)⟩
  · exact .inr ⟨fun hmem => hnone (List.mem_append_right _ hmem), hlater⟩

/-- Something other than blanks stands on the line of a place that is inked, at the place or before
it. -/
theorem exists_ink {earlier before start piece after later : List Char}
    (hink : Lexis.Inked piece (after ++ later)) (h : earlier ++ before = start ++ piece)
    (hstarts : earlier = [] ∨ ['\n'] <:+ earlier) :
    (∃ c ∈ before, ¬ (c = ' ' ∨ c = '\t')) ∨ ∀ c ∈ after.head?, ¬ (c = ' ' ∨ c = '\t') := by
  have hblank {c : Char} (hc : c ∉ Lexis.separators) : ¬ (c = ' ' ∨ c = '\t') := by
    rintro (rfl | rfl)
    · exact hc (by decide)
    · exact hc (by decide)
  obtain ⟨c, hhead, hc⟩ := hink.head
  -- The ink is the first character of the piece, which is on the line, or it follows the place.
  cases piece with
  | nil =>
      right
      cases after with
      | nil => exact fun c hc => absurd hc (Option.not_mem_none c)
      | cons d more =>
          intro d' hd'
          cases hd'
          cases hhead
          exact hblank hc
  | cons d more =>
      left
      cases hhead
      obtain ⟨middle, rfl⟩ := prefix_of_line_start h hstarts hink.line
      rw [List.append_assoc] at h
      rw [List.append_cancel_left h]
      exact ⟨c, by simp, hblank hc⟩

namespace Location.Splits

variable {place : Location} {text earlier later : List Char} {position : Nat}

/-- The line of a location as it is shown, with any place on it behind the indentation. -/
theorem shownLine (h : place.Splits text position earlier later) {passed ahead : List Char}
    (hrest : place.text.drop (Error.indentation place.text).length = passed ++ ahead)
    (hpassed : '\n' ∉ passed) :
    ShownLine text earlier (Error.indentation place.text) passed ahead later
      (trimEnd (passed ++ ahead)) where
  text_eq := by
    rw [List.append_assoc, List.append_assoc _ passed, ← hrest, ← indentation_append]
    exact h.text_eq
  starts := h.starts
  line := hpassed
  ends := by
    have hline : place.text = Error.indentation place.text ++ passed ++ ahead := by
      rw [List.append_assoc, ← hrest]
      exact indentation_append place.text
    have hfirst := List.not_mem_append (newline_not_mem_indentation place.text) hpassed
    refine ends_of_append hline hfirst ?_
    rcases h.ends with ⟨body, htext, hbody, -⟩ | ⟨htext, hlater, -⟩
    · exact .inl ⟨body, htext, hbody⟩
    · exact .inr ⟨htext, hlater⟩
  indent_blank := indentation_blank place.text
  indent_stops := hrest ▸ indentation_stops place.text
  shown_eq := trimEnd_append (passed ++ ahead)
  shown_stops := isBlank_getLast?_trimEnd (passed ++ ahead)

/-- A position between two characters divides its line. -/
theorem exists_before (h : place.Splits text position earlier later) {start rest : List Char}
    (htext : text = start ++ rest) (hposition : position = byteLength start) :
    ∃ before after, start = earlier ++ before ∧ place.text = before ++ after ∧
      rest = after ++ later ∧ byteLength before = place.offset ∧ '\n' ∉ before := by
  have hle : byteLength earlier ≤ byteLength start := by
    rw [← hposition, h.position_eq]
    exact Nat.le_add_right _ _
  obtain ⟨before, rfl⟩ : earlier <+: start :=
    prefix_of_byteLength_le ⟨place.text ++ later, h.text_eq.symm⟩ ⟨rest, htext.symm⟩ hle
  have hoffset : byteLength before = place.offset := by
    rw [h.position_eq, byteLength_append] at hposition
    exact (Nat.add_left_cancel hposition).symm
  have hrest : before ++ rest = place.text ++ later := by
    rw [h.text_eq, List.append_assoc] at htext
    exact (List.append_cancel_left htext).symm
  have hbefore : before <+: place.text ++ later := ⟨rest, hrest⟩
  -- What the line has before the position ends before its newline, by the bound of the offset.
  obtain ⟨⟨after, hafter⟩, hnone⟩ : before <+: place.text ∧ '\n' ∉ before := by
    rcases h.ends with ⟨body, hbody, hnone, hle⟩ | ⟨hnone, -, hle⟩
    · have hbegins : before <+: body := by
        refine prefix_of_byteLength_le hbefore ⟨['\n'] ++ later, ?_⟩ (hoffset ▸ hle)
        rw [hbody, List.append_assoc]
      rw [hbody]
      exact ⟨hbegins.trans (List.prefix_append _ _), fun hmem => hnone (hbegins.subset hmem)⟩
    · have hbegins : before <+: place.text :=
        prefix_of_byteLength_le hbefore (List.prefix_append _ _) (hoffset ▸ hle)
      exact ⟨hbegins, fun hmem => hnone (hbegins.subset hmem)⟩
  rw [← hafter, List.append_assoc] at hrest
  exact ⟨before, after, rfl, hafter.symm, List.append_cancel_left hrest, hoffset, hnone⟩

/-- On a line on which something other than separators has begun, the position is behind the
indentation. -/
theorem exists_passed (h : place.Splits text position earlier later)
    (hinked : InkedAt text position) :
    ∃ passed ahead,
      place.text.drop (Error.indentation place.text).length = passed ++ ahead ∧ '\n' ∉ passed ∧
      position = byteLength (earlier ++ Error.indentation place.text ++ passed) ∧
      place.offset - (Error.indentation place.text).length = byteLength passed := by
  obtain ⟨start, piece, rest, htext, hposition, hink⟩ := hinked
  rw [← List.append_assoc] at htext
  obtain ⟨before, after, hstart, hline, rfl, hoffset, hbefore⟩ := h.exists_before htext hposition
  obtain ⟨passed, hpassed⟩ : Error.indentation place.text <+: before := by
    rw [hline]
    exact indentation_begins (exists_ink hink hstart.symm h.starts)
  refine ⟨passed, after, ?_, ?_, ?_, ?_⟩
  · have hsame : Error.indentation place.text ++
          place.text.drop (Error.indentation place.text).length =
        Error.indentation place.text ++ (passed ++ after) := by
      rw [← indentation_append, ← List.append_assoc, hpassed]
      exact hline
    exact List.append_cancel_left hsame
  · rw [← hpassed, List.mem_append, not_or] at hbefore
    exact hbefore.2
  · rw [hposition, hstart, ← hpassed, List.append_assoc]
  · rw [← hoffset, ← hpassed, byteLength_append, byteLength_indentation, Nat.add_sub_cancel_left]

/-- The first line is indented as the whole text is. -/
theorem indentation_of_zero (h : place.Splits text 0 earlier later) :
    earlier = [] ∧ place.offset = 0 ∧ Error.indentation place.text = Error.indentation text := by
  obtain ⟨hearlier, hoffset⟩ := Nat.add_eq_zero_iff.mp h.position_eq.symm
  have hnil : earlier = [] := by
    by_contra hne
    exact absurd hearlier (byteLength_pos hne).ne'
  refine ⟨hnil, hoffset, ?_⟩
  rw [h.text_eq, hnil, List.nil_append]
  rcases h.ends with ⟨body, hbody, -, -⟩ | ⟨-, rfl, -⟩
  · unfold Error.indentation
    rw [List.takeWhile_append, if_neg]
    intro hall
    have hmem : '\n' ∈ Error.indentation place.text := by
      rw [Error.indentation, (List.takeWhile_prefix _).eq_of_length hall, hbody]
      simp
    exact newline_not_mem_indentation _ hmem
  · rw [List.append_nil]

end Location.Splits

end Text

end Scriptlet
