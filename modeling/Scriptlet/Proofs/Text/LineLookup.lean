import Scriptlet.Text.Line

/-! # Looking up lines

Every byte position falls on one line of a text. The lookup numbers that line by the newlines before
the position, and gives the whole line with the distance of the position from its first byte. A text
is walked line by line, so what the lookup does is first said of characters, and then of bytes: a
newline is the same in both, as no other character has its byte.
-/

namespace Scriptlet.Text

/-! ## Bytes -/

/-- The bytes of a text in UTF-8. -/
def bytes (text : List Char) : List UInt8 :=
  text.flatMap String.utf8EncodeChar

/-- The byte of a newline. -/
def newline : UInt8 :=
  10

theorem bytes_toList (text : String) : bytes text.toList = text.toByteArray.data.toList := by
  have hencode : text.toList.utf8Encode = text.toByteArray := by
    rw [← String.toByteArray_ofList, String.ofList_toList]
  rw [← hencode, List.utf8Encode, List.data_toByteArray]
  rfl

@[simp] theorem bytes_append (first second : List Char) :
    bytes (first ++ second) = bytes first ++ bytes second :=
  List.flatMap_append

@[simp] theorem length_bytes (text : List Char) : (bytes text).length = byteLength text := by
  induction text with
  | nil => rfl
  | cons c text ih =>
      rw [bytes, List.flatMap_cons, List.length_append, String.length_utf8EncodeChar]
      exact congrArg (c.utf8Size + ·) ih

theorem bytes_eq_nil {text : List Char} : bytes text = [] ↔ text = [] := by
  constructor
  · intro hbytes
    cases text with
    | nil => rfl
    | cons c text =>
        have hlength := congrArg List.length hbytes
        have hpos := c.utf8Size_pos
        rw [length_bytes, byteLength_cons, List.length_nil] at hlength
        omega
  · rintro rfl
    rfl

theorem newline_eq_ofNat {n : Nat} : newline = UInt8.ofNat n ↔ n % 256 = 10 := by
  rw [← UInt8.toNat_inj, UInt8.toNat_ofNat', eq_comm]
  rfl

/-- No other character has the byte of a newline. -/
theorem newline_mem_utf8EncodeChar {c : Char} : newline ∈ String.utf8EncodeChar c ↔ c = '\n' := by
  have hc : c = '\n' ↔ c.val.toNat = 10 := Char.toNat_inj.symm
  rw [hc]
  unfold String.utf8EncodeChar
  generalize c.val.toNat = v
  dsimp only
  -- Past the first case every byte is 128 or more, which a newline is not.
  split
  · rw [List.mem_singleton, newline_eq_ofNat]
    omega
  · split
    · simp only [List.mem_cons, newline_eq_ofNat, List.not_mem_nil, or_false]
      omega
    · split
      · simp only [List.mem_cons, newline_eq_ofNat, List.not_mem_nil, or_false]
        omega
      · simp only [List.mem_cons, newline_eq_ofNat, List.not_mem_nil, or_false]
        omega

theorem newline_mem_bytes {text : List Char} : newline ∈ bytes text ↔ '\n' ∈ text := by
  simp only [bytes, List.mem_flatMap, newline_mem_utf8EncodeChar, exists_eq_right]

theorem count_newline_bytes (text : List Char) : (bytes text).count newline = text.count '\n' := by
  induction text with
  | nil => rfl
  | cons c text ih =>
      rw [bytes, List.flatMap_cons, List.count_append, ← bytes, ih, List.count_cons, Nat.add_comm]
      congr 1
      by_cases hc : c = '\n'
      · subst hc
        rfl
      · rw [if_neg (by simpa using hc)]
        exact List.count_eq_zero.mpr (mt newline_mem_utf8EncodeChar.mp hc)

/-! ## Lines -/

/-- A line still begins behind the text when a line is put before it. -/
theorem suffix_of_line_start {earlier : List Char} (h : earlier = [] ∨ ['\n'] <:+ earlier)
    (body : List Char) : ['\n'] <:+ body ++ ['\n'] ++ earlier := by
  rcases h with rfl | hsuffix
  · rw [List.append_nil]
    exact List.suffix_append _ _
  · exact hsuffix.trans (List.suffix_append _ _)

/-- Each line but the last ends with a newline, and there is no other newline in them. -/
inductive IsLines : List (List Char) → Prop
  | last {line : List Char} : '\n' ∉ line → IsLines [line]
  | cons {body : List Char} {rest : List (List Char)} :
      '\n' ∉ body → IsLines rest → IsLines ((body ++ ['\n']) :: rest)

theorem isLines_lines (text : List Char) : IsLines (lines text) := by
  induction text with
  | nil => exact .last List.not_mem_nil
  | cons c text ih =>
      unfold lines
      split
      next hc =>
        subst hc
        exact .cons List.not_mem_nil ih
      next hc =>
        generalize lines text = ls at ih
        cases ih with
        | last hline => exact .last (List.not_mem_cons_of_ne_of_not_mem (Ne.symm hc) hline)
        | cons hbody hrest =>
            exact .cons (List.not_mem_cons_of_ne_of_not_mem (Ne.symm hc) hbody) hrest

namespace Location

/-- What a location says of a text: its line stands between the earlier lines and the later ones,
and the position is on it, at the latest at its newline or, where it has none, at its end. -/
structure Splits (place : Location) (text : List Char) (position : Nat)
    (earlier later : List Char) : Prop where
  text_eq : text = earlier ++ (place.text ++ later)
  position_eq : position = byteLength earlier + place.offset
  starts : earlier = [] ∨ ['\n'] <:+ earlier
  ends : (∃ body, place.text = body ++ ['\n'] ∧ '\n' ∉ body ∧ place.offset ≤ byteLength body) ∨
    '\n' ∉ place.text ∧ later = [] ∧ place.offset ≤ byteLength place.text

/-- One more line before all others moves the position by the bytes of that line. -/
theorem Splits.after_line {place : Location} {text earlier later : List Char} {position : Nat}
    (h : place.Splits text position earlier later) (body : List Char) :
    place.Splits (body ++ ['\n'] ++ text) (byteLength (body ++ ['\n']) + position)
      (body ++ ['\n'] ++ earlier) later := by
  refine ⟨?_, ?_, .inr (suffix_of_line_start h.starts body), h.ends⟩
  · rw [h.text_eq, List.append_assoc (body ++ ['\n'])]
  · rw [h.position_eq, byteLength_append (body ++ ['\n']), Nat.add_assoc]

end Location

theorem locateIn_cons {rest : List (List Char)} (hrest : IsLines rest) (number position : Nat)
    (line : List Char) :
    locateIn number position (line :: rest) =
      if position < byteLength line then ⟨number, line, position⟩
      else locateIn (number + 1) (position - byteLength line) rest := by
  cases hrest with
  | last => rfl
  | cons => rfl

/-- The walk down the lines stops at the line of the position, or at the last one. -/
theorem locateIn_splits {ls : List (List Char)} (h : IsLines ls) (number position : Nat) :
    ∃ earlier later,
      (locateIn number position ls).line = number + earlier.count '\n' ∧
      (locateIn number position ls).Splits ls.flatten (min position (byteLength ls.flatten))
        earlier later := by
  induction h generalizing number position with
  | @last line hline =>
      refine ⟨[], [], rfl, ?_⟩
      rw [List.flatten_singleton]
      refine ⟨?_, ?_, .inl rfl, .inr ⟨hline, rfl, Nat.min_le_right _ _⟩⟩
      · exact (List.append_nil line).symm
      · exact (Nat.zero_add _).symm
  | @cons body rest hbody hrest ih =>
      rw [locateIn_cons hrest, List.flatten_cons, byteLength_append (body ++ ['\n'])]
      split
      next hlt =>
        refine ⟨[], rest.flatten, rfl, rfl, ?_, .inl rfl, .inl ⟨body, rfl, hbody, ?_⟩⟩
        · rw [byteLength_nil, Nat.zero_add]
          exact Nat.min_eq_left (by omega)
        · rw [byteLength_append] at hlt
          exact Nat.le_of_lt_succ hlt
      next hge =>
        obtain ⟨earlier, later, hline, hsplits⟩ :=
          ih (number + 1) (position - byteLength (body ++ ['\n']))
        refine ⟨body ++ ['\n'] ++ earlier, later, ?_, ?_⟩
        · rw [hline, List.count_append, List.count_append, List.count_eq_zero.mpr hbody,
            List.count_singleton_self]
          omega
        · -- Taking the line off moves the position and the end of the text back by the same bytes.
          have hposition : min position (byteLength (body ++ ['\n']) + byteLength rest.flatten) =
              byteLength (body ++ ['\n']) +
                min (position - byteLength (body ++ ['\n'])) (byteLength rest.flatten) := by
            omega
          rw [hposition]
          exact hsplits.after_line body

theorem locate_splits (content : List Char) (position : Nat) :
    ∃ earlier later, (locate content position).line = 1 + earlier.count '\n' ∧
      (locate content position).Splits content (min position (byteLength content))
        earlier later := by
  have hsplits := locateIn_splits (isLines_lines content) 1 position
  rwa [flatten_lines] at hsplits

/-! ## Exactness -/

namespace Location

/-- What it means that a location is that of byte `q` of a text with the given bytes. -/
structure Locates (place : Location) (content : List UInt8) (q : Nat) : Prop where
  /-- The number of the line is one more than the number of newlines before the byte. -/
  line_eq : place.line = 1 + (content.take q).count newline
  offset_le : place.offset ≤ q
  /-- The line begins where the text does, or just after a newline. -/
  starts : q - place.offset = 0 ∨ content[q - place.offset - 1]? = some newline
  /-- No newline stands on the line before the byte. -/
  unbroken : ∀ i, q - place.offset ≤ i → i < q → content[i]? ≠ some newline
  /-- The line goes on up to a newline and with it, or to the end of the text. -/
  ends : ∃ later, content.drop (q - place.offset) = bytes place.text ++ later ∧
    ((∃ body, bytes place.text = body ++ [newline] ∧ newline ∉ body) ∨
      newline ∉ bytes place.text ∧ later = [])
  /-- Only behind all lines is it empty. -/
  text_eq_nil : place.text = [] ↔
    content = [] ∨ content.getLast? = some newline ∧ q = content.length

namespace Splits

variable {place : Location} {text earlier later : List Char} {position : Nat}

/-- What stands on the line before the position has no newline. -/
theorem newline_not_mem_take (h : place.Splits text position earlier later) :
    newline ∉ (bytes (place.text ++ later)).take place.offset := by
  rcases h.ends with ⟨body, htext, hbody, hoffset⟩ | ⟨htext, rfl, -⟩
  · rw [htext, List.append_assoc, bytes_append,
      List.take_append_of_le_length (by rwa [length_bytes])]
    exact fun hmem => hbody (newline_mem_bytes.mp (List.mem_of_mem_take hmem))
  · rw [List.append_nil]
    exact fun hmem => htext (newline_mem_bytes.mp (List.mem_of_mem_take hmem))

theorem bytes_eq (h : place.Splits text position earlier later) :
    bytes text = bytes earlier ++ bytes (place.text ++ later) := by
  rw [h.text_eq, bytes_append]

/-- The line begins behind the bytes of the earlier lines. -/
theorem position_sub_offset (h : place.Splits text position earlier later) :
    position - place.offset = (bytes earlier).length := by
  rw [h.position_eq, length_bytes, Nat.add_sub_cancel]

theorem take_bytes (h : place.Splits text position earlier later) :
    (bytes text).take position =
      bytes earlier ++ (bytes (place.text ++ later)).take place.offset := by
  rw [h.bytes_eq, h.position_eq, ← length_bytes, List.take_length_add_append]

theorem starts_bytes (h : place.Splits text position earlier later) :
    bytes earlier = [] ∨ ∃ more, bytes earlier = more ++ [newline] := by
  rcases h.starts with rfl | ⟨more, rfl⟩
  · exact .inl rfl
  · exact .inr ⟨bytes more, bytes_append more ['\n']⟩

theorem ends_bytes (h : place.Splits text position earlier later) :
    (∃ body, bytes place.text = body ++ [newline] ∧ newline ∉ body) ∨
      newline ∉ bytes place.text ∧ bytes later = [] := by
  rcases h.ends with ⟨body, htext, hbody, -⟩ | ⟨htext, rfl, -⟩
  · left
    rw [htext]
    exact ⟨bytes body, bytes_append body ['\n'], mt newline_mem_bytes.mp hbody⟩
  · exact .inr ⟨mt newline_mem_bytes.mp htext, rfl⟩

/-- The position is at the end of the text only if its line has no newline. -/
theorem ends_of_position_eq (h : place.Splits text position earlier later)
    (hposition : position = (bytes text).length) : '\n' ∉ place.text ∧ later = [] := by
  rcases h.ends with ⟨body, htext, -, hoffset⟩ | ⟨htext, hlater, -⟩
  · rw [h.position_eq, h.bytes_eq, htext] at hposition
    simp only [List.length_append, length_bytes, byteLength_append, byteLength_cons,
      byteLength_nil] at hposition
    have hpos := Char.utf8Size_pos '\n'
    omega
  · exact ⟨htext, hlater⟩

/-- The line is empty only at the end of a text that is empty or ends with a newline. -/
theorem text_eq_nil_iff (h : place.Splits text position earlier later) :
    place.text = [] ↔
      bytes text = [] ∨ (bytes text).getLast? = some newline ∧ position = (bytes text).length := by
  constructor
  · intro hnil
    rcases h.ends with ⟨body, htext, -, -⟩ | ⟨-, rfl, hoffset⟩
    · rw [hnil] at htext
      exact absurd htext.symm (List.append_ne_nil_of_right_ne_nil _ (List.cons_ne_nil _ _))
    · have hbytes : bytes text = bytes earlier := by
        rw [h.bytes_eq, hnil]
        exact List.append_nil _
      rw [hnil, byteLength_nil, Nat.le_zero] at hoffset
      rw [hbytes, length_bytes, h.position_eq, hoffset]
      rcases h.starts_bytes with hfirst | ⟨more, hmore⟩
      · exact .inl hfirst
      · exact .inr ⟨by rw [hmore, List.getLast?_concat], rfl⟩
  · rintro (hbytes | ⟨hlast, hposition⟩)
    · rw [bytes_eq_nil, h.text_eq] at hbytes
      exact (List.append_eq_nil_iff.mp (List.append_eq_nil_iff.mp hbytes).2).1
    · obtain ⟨htext, rfl⟩ := h.ends_of_position_eq hposition
      cases hend : (bytes place.text).getLast? with
      | none => exact bytes_eq_nil.mp (List.getLast?_eq_none_iff.mp hend)
      | some byte =>
          rw [h.bytes_eq, List.append_nil, List.getLast?_append, hend, Option.some_or] at hlast
          cases hlast
          exact absurd (newline_mem_bytes.mp (List.mem_of_getLast? hend)) htext

/-- What is known of the characters around the position holds of the bytes. -/
theorem locates (h : place.Splits text position earlier later)
    (hline : place.line = 1 + earlier.count '\n') : place.Locates (bytes text) position := by
  refine ⟨?_, ?_, ?_, ?_, ?_, h.text_eq_nil_iff⟩
  · rw [h.take_bytes, List.count_append, count_newline_bytes,
      List.count_eq_zero.mpr h.newline_not_mem_take, hline]
    rfl
  · rw [h.position_eq]
    exact Nat.le_add_left _ _
  · rw [h.position_sub_offset, h.bytes_eq]
    rcases h.starts_bytes with hfirst | ⟨more, hmore⟩
    · exact .inl (by rw [hfirst]; rfl)
    · right
      rw [hmore, List.length_append, List.length_singleton, Nat.add_sub_cancel,
        List.append_assoc, List.getElem?_append_right (Nat.le_refl _), Nat.sub_self]
      rfl
  · intro i hle hlt hnewline
    rw [h.position_sub_offset] at hle
    rw [h.position_eq, ← length_bytes] at hlt
    rw [h.bytes_eq, List.getElem?_append_right hle] at hnewline
    have htake := List.getElem?_take_of_lt (l := bytes (place.text ++ later))
      (Nat.sub_lt_left_of_lt_add hle hlt)
    exact h.newline_not_mem_take (List.mem_of_getElem? (htake.trans hnewline))
  · refine ⟨bytes later, ?_, h.ends_bytes⟩
    rw [h.position_sub_offset, h.bytes_eq, List.drop_left, bytes_append]

end Splits

end Location

/-- The lookup of a line is exact for every byte position: it counts the newlines before the
position, or before the end of the text if that comes first, and gives the whole line around it. -/
theorem locate_exact (content : String) (position : Nat) :
    (locate content.toList position).Locates content.toByteArray.data.toList
      (min position content.toByteArray.size) := by
  obtain ⟨earlier, later, hline, hsplits⟩ := locate_splits content.toList position
  have hsize : content.toByteArray.size = byteLength content.toList := by
    rw [← length_bytes, bytes_toList]
    rfl
  rw [hsize, ← bytes_toList]
  exact hsplits.locates hline

end Scriptlet.Text
