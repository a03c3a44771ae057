import Scriptlet.Proofs.Token.Lexemes
import Scriptlet.Token.Scan

/-! # Tokens tile their text

The tokens of a text and the separators between them make up the whole text, and each token is the
longest at its place. A text that has no tokens is tiled up to the first flaw.
-/

namespace Scriptlet

open Text

/-- The text, which begins at the offset, is made up of the tokens and of separators. The tail is
the text after it. -/
inductive Tiles (tail : List Char) : Nat → List Char → List Token → Prop
  | nil {offset : Nat} : Tiles tail offset [] []
  | separator {offset : Nat} {c : Char} {text : List Char} {tokens : List Token} :
      c ∈ Lexis.separators → Tiles tail (offset + c.utf8Size) text tokens →
        Tiles tail offset (c :: text) tokens
  | token {offset : Nat} {kind : TokenKind} {lexeme text : List Char} {tokens : List Token} :
      kind.Longest lexeme (text ++ tail) → Tiles tail (offset + byteLength lexeme) text tokens →
        Tiles tail offset (lexeme ++ text) (⟨kind, String.ofList lexeme, offset⟩ :: tokens)

theorem Text.byteLength_pos {text : List Char} (h : text ≠ []) : 0 < byteLength text := by
  obtain ⟨c, more, rfl⟩ := List.exists_cons_of_ne_nil h
  exact Nat.add_pos_left c.utf8Size_pos _

/-! ## Scanning -/

/-- A text that is scanned is tiled. -/
theorem tiles_of_scan {offset : Nat} {text : List Char} {tokens : List Token}
    (h : scan offset text = .ok tokens) : Tiles [] offset text tokens := by
  fun_induction scan offset text generalizing tokens with
  | case1 offset =>
      cases h
      exact .nil
  | case2 offset c cs hseparator ih =>
      exact .separator (Lexis.isSeparator_iff.mp hseparator) (ih h)
  | case3 => cases h
  | case4 offset c cs hseparator kind more hread text =>
      rename_i ih
      obtain ⟨lexeme, rest, rfl, rfl, hlongest⟩ :=
        Lexeme.read_longest (Bool.eq_false_iff.mpr hseparator) hread
      have htext : text = c :: lexeme := congrArg (List.cons c) List.take_left
      rw [List.drop_left] at ih h
      cases hrest : scan (offset + byteLength text) rest with
      | error error =>
          rw [hrest] at h
          cases h
      | ok more =>
          rw [hrest] at h
          cases h
          have htiles := ih hrest
          rw [htext] at htiles ⊢
          refine .token ?_ htiles
          rwa [List.append_nil]

/-- A text that is not scanned is tiled up to a flaw, at which the error shows. -/
theorem flawed_of_scan {offset : Nat} {text : List Char} {error : Error}
    (h : scan offset text = .error error) :
    ∃ start piece after tokens, text = start ++ (piece ++ after) ∧
      Tiles (piece ++ after) offset start tokens ∧
      error.stage = .lex (offset + byteLength start + byteLength piece) ∧
      Lexeme.Flawed error.cause piece after := by
  fun_induction scan offset text with
  | case1 offset => cases h
  | case2 offset c cs hseparator ih =>
      obtain ⟨start, piece, after, tokens, rfl, htiles, hstage, hflawed⟩ := ih h
      refine ⟨c :: start, piece, after, tokens, rfl,
        .separator (Lexis.isSeparator_iff.mp hseparator) htiles, ?_, hflawed⟩
      rw [hstage, byteLength_cons, Nat.add_assoc offset]
  | case3 offset c cs hseparator flaw hread =>
      cases h
      obtain ⟨piece, after, heq, hdistance, hflawed⟩ := Lexeme.read_flawed hread
      refine ⟨[], piece, after, [], heq, .nil, ?_, hflawed⟩
      rw [hdistance, byteLength_nil, Nat.add_zero]
  | case4 offset c cs hseparator kind more hread text ih =>
      obtain ⟨lexeme, rest, rfl, rfl, hlongest⟩ :=
        Lexeme.read_longest (Bool.eq_false_iff.mpr hseparator) hread
      have htext : text = c :: lexeme := congrArg (List.cons c) List.take_left
      rw [List.drop_left] at ih h
      cases hrest : scan (offset + byteLength text) rest with
      | ok more =>
          rw [hrest] at h
          cases h
      | error other =>
          rw [hrest] at h
          cases h
          obtain ⟨start, piece, after, tokens, rfl, htiles, hstage, hflawed⟩ := ih hrest
          rw [htext] at htiles hstage
          refine ⟨c :: lexeme ++ start, piece, after, _, by simp, .token hlongest htiles, ?_,
            hflawed⟩
          rw [hstage, byteLength_append, Nat.add_assoc offset]

/-! ## What a tiling says -/

namespace Tiles

variable {tail text : List Char} {offset : Nat} {tokens : List Token}

/-- No token overlaps another. -/
theorem ordered (h : Tiles tail offset text tokens) :
    (∀ token ∈ tokens, offset ≤ token.offset) ∧ tokens.Pairwise fun first second =>
      first.offset < second.offset ∧ first.stop ≤ second.offset := by
  induction h with
  | nil => simp
  | separator _ _ ih => exact ⟨fun token htoken => Nat.le_of_add_right_le (ih.1 token htoken), ih.2⟩
  | @token offset kind lexeme text tokens hlongest _ ih =>
      obtain ⟨hbounds, hpairs⟩ := ih
      have hpos := byteLength_pos (TokenKind.ne_nil_of_mem hlongest.mem)
      constructor
      · rw [List.forall_mem_cons]
        exact ⟨Nat.le_refl _, fun token htoken => Nat.le_of_add_right_le (hbounds token htoken)⟩
      · rw [List.pairwise_cons]
        refine ⟨fun token htoken => ?_, hpairs⟩
        have hbound := hbounds token htoken
        rw [Token.stop, String.toList_ofList]
        exact ⟨Nat.lt_of_lt_of_le (Nat.lt_add_of_pos_right hpos) hbound, hbound⟩

/-- Each token stands in the text where its offset says. -/
theorem placed (h : Tiles tail offset text tokens) :
    ∀ token ∈ tokens, ∃ before rest, text = before ++ token.text.toList ++ rest ∧
      token.offset = offset + byteLength before ∧
      token.kind.Longest token.text.toList (rest ++ tail) := by
  induction h with
  | nil => exact nofun
  | @separator offset c text tokens _ _ ih =>
      intro token htoken
      obtain ⟨before, rest, rfl, hoffset, hlongest⟩ := ih token htoken
      refine ⟨c :: before, rest, rfl, ?_, hlongest⟩
      rw [hoffset, byteLength_cons, Nat.add_assoc]
  | @token offset kind lexeme text tokens hlongest _ ih =>
      rw [List.forall_mem_cons]
      constructor
      · refine ⟨[], text, ?_, rfl, ?_⟩
        · rw [String.toList_ofList, List.nil_append]
        · rwa [String.toList_ofList]
      · intro token htoken
        obtain ⟨before, rest, rfl, hoffset, hlongest⟩ := ih token htoken
        refine ⟨lexeme ++ before, rest, by simp, ?_, hlongest⟩
        rw [hoffset, byteLength_append, Nat.add_assoc]

/-- Each byte belongs to a token or to a separator. -/
theorem covered (h : Tiles tail offset text tokens) :
    ∀ position, offset ≤ position → position < offset + byteLength text →
      (∃ token ∈ tokens, token.offset ≤ position ∧ position < token.stop) ∨
      ∃ before c after, text = before ++ c :: after ∧ c ∈ Lexis.separators ∧
        offset + byteLength before ≤ position ∧
        position < offset + byteLength before + c.utf8Size := by
  induction h with
  | nil =>
      intro position hle hlt
      exact absurd hlt (Nat.not_lt.mpr hle)
  | @separator offset c text tokens hc _ ih =>
      intro position hle hlt
      by_cases hfirst : position < offset + c.utf8Size
      · exact .inr ⟨[], c, text, rfl, hc, hle, hfirst⟩
      · rw [byteLength_cons, ← Nat.add_assoc] at hlt
        rcases ih position (Nat.le_of_not_lt hfirst) hlt with htoken | hseparator
        · exact .inl htoken
        · obtain ⟨before, d, after, rfl, hd, hstart, hstop⟩ := hseparator
          refine .inr ⟨c :: before, d, after, rfl, hd, ?_, ?_⟩
          · rwa [byteLength_cons, ← Nat.add_assoc]
          · rwa [byteLength_cons, ← Nat.add_assoc]
  | @token offset kind lexeme text tokens _ _ ih =>
      intro position hle hlt
      by_cases hfirst : position < offset + byteLength lexeme
      · refine .inl ⟨_, List.mem_cons_self, hle, ?_⟩
        rwa [Token.stop, String.toList_ofList]
      · rw [byteLength_append, ← Nat.add_assoc] at hlt
        rcases ih position (Nat.le_of_not_lt hfirst) hlt with htoken | hseparator
        · obtain ⟨token, htoken, hwithin⟩ := htoken
          exact .inl ⟨token, List.mem_cons_of_mem _ htoken, hwithin⟩
        · obtain ⟨before, d, after, rfl, hd, hstart, hstop⟩ := hseparator
          refine .inr ⟨lexeme ++ before, d, after, by simp, hd, ?_, ?_⟩
          · rwa [byteLength_append, ← Nat.add_assoc]
          · rwa [byteLength_append, ← Nat.add_assoc]

end Tiles

/-- What it means that tokens tile a text before a tail: they are in order and none overlaps
another, each is not empty, stands where its offset says and is the longest there, and each byte
outside all of them belongs to a separator. -/
structure Token.Tiling (tokens : List Token) (text tail : List Char) : Prop where
  ordered : tokens.Pairwise fun first second =>
    first.offset < second.offset ∧ first.stop ≤ second.offset
  placed : ∀ token ∈ tokens, token.text ≠ "" ∧
    ∃ before rest, text = before ++ token.text.toList ++ rest ∧
      token.offset = byteLength before ∧ token.kind.Longest token.text.toList (rest ++ tail)
  covered : ∀ position < byteLength text,
    (∀ token ∈ tokens, ¬ (token.offset ≤ position ∧ position < token.stop)) →
      ∃ before c after, text = before ++ c :: after ∧ byteLength before ≤ position ∧
        position < byteLength before + c.utf8Size ∧ c ∈ [' ', '\t', '\n', '\r', '\x08', '\\']

theorem Tiles.tiling {tail text : List Char} {tokens : List Token} (h : Tiles tail 0 text tokens) :
    Token.Tiling tokens text tail := by
  refine ⟨h.ordered.2, fun token htoken => ?_, fun position hlt houtside => ?_⟩
  · obtain ⟨before, rest, htext, hoffset, hlongest⟩ := h.placed token htoken
    rw [Nat.zero_add] at hoffset
    refine ⟨fun hempty => ?_, before, rest, htext, hoffset, hlongest⟩
    exact TokenKind.ne_nil_of_mem hlongest.mem (by rw [hempty]; rfl)
  · rw [← Nat.zero_add (byteLength text)] at hlt
    rcases h.covered position (Nat.zero_le _) hlt with htoken | hseparator
    · obtain ⟨token, htoken, hwithin⟩ := htoken
      exact absurd hwithin (houtside token htoken)
    · obtain ⟨before, c, after, htext, hc, hstart, hstop⟩ := hseparator
      rw [Nat.zero_add] at hstart hstop
      exact ⟨before, c, after, htext, hstart, hstop, hc⟩

/-! ## Bytes -/

theorem Text.size_utf8Encode (text : List Char) : text.utf8Encode.size = byteLength text := by
  induction text with
  | nil => rfl
  | cons c more ih =>
      rw [List.utf8Encode_cons, ByteArray.size_append, ih, List.utf8Encode_singleton]
      simp

/-- A piece of a text has the bytes between the offsets of its ends. -/
theorem Text.extract_toByteArray {text : String} {before piece after : List Char}
    (h : text.toList = before ++ piece ++ after) :
    text.toByteArray.extract (byteLength before) (byteLength before + byteLength piece) =
      piece.utf8Encode := by
  have hbytes : text.toByteArray = before.utf8Encode ++ piece.utf8Encode ++ after.utf8Encode := by
    rw [← String.ofList_toList (s := text), String.toByteArray_ofList, h, List.utf8Encode_append,
      List.utf8Encode_append]
  rw [hbytes, ← size_utf8Encode, ← size_utf8Encode, ← ByteArray.size_append,
    ByteArray.extract_append_size_left]
  exact ByteArray.extract_append_eq_right rfl ByteArray.size_append

/-- If a text has tokens, they tile it: they are in order, none overlaps another, each is not empty,
is the longest of any kind at its place and has the bytes of the text from its offset to its end,
and each byte outside all of them belongs to a separator. If it has none, then its tokens up to some
place tile the text before that, and the error shows at the flaw of the text from there on. -/
theorem tokenize_tiles (text : String) :
    match tokenize text with
    | .ok tokens => Token.Tiling tokens text.toList [] ∧ ∀ token ∈ tokens,
        text.toByteArray.extract token.offset token.stop = token.text.toByteArray
    | .error error => ∃ start piece after tokens, text.toList = start ++ (piece ++ after) ∧
        Token.Tiling tokens start (piece ++ after) ∧
        error.stage = .lex (byteLength (start ++ piece)) ∧
        Lexeme.Flawed error.cause piece after := by
  cases hscan : tokenize text with
  | ok tokens =>
      have htiling := (tiles_of_scan hscan).tiling
      refine ⟨htiling, fun token htoken => ?_⟩
      obtain ⟨_, before, rest, htext, hoffset, _⟩ := htiling.placed token htoken
      rw [Token.stop, hoffset, Text.extract_toByteArray htext, ← String.toByteArray_ofList,
        String.ofList_toList]
  | error error =>
      obtain ⟨start, piece, after, tokens, htext, htiles, hstage, hflawed⟩ := flawed_of_scan hscan
      refine ⟨start, piece, after, tokens, htext, htiles.tiling, ?_, hflawed⟩
      rw [hstage, byteLength_append, Nat.zero_add]

end Scriptlet
