import Mathlib.Data.List.TakeWhile
import Scriptlet.Proofs.Token.Languages

/-! # Numbers in a text

A text that starts with digits, or with a minus sign and digits, has one of three shapes there. From
its shape follows the number that is read, or the flaw.
-/

namespace Scriptlet.Lexeme

open Text
open scoped Computability

/-! ## Runs of digits -/

/-- The text does not go on with a digit. -/
def Stops (text : List Char) : Prop :=
  ∀ c ∈ text.head?, c.isDigit = false

/-- What a number starts with: a sign perhaps, and digits. -/
structure Front (sign whole : List Char) : Prop where
  sign : sign ∈ Lexis.sign
  ne : whole ≠ []
  digits : ∀ c ∈ whole, c.isDigit = true

variable {sign whole fraction rest : List Char}

theorem stops_point : Stops ('.' :: rest) := by
  intro c hc
  cases hc
  decide

theorem takeWhile_digits (hdigits : ∀ c ∈ whole, c.isDigit = true) (hrest : Stops rest) :
    (whole ++ rest).takeWhile Char.isDigit = whole := by
  rw [List.takeWhile_append_of_pos hdigits]
  cases rest with
  | nil => simp
  | cons c rest => simp [hrest c rfl]

theorem dropWhile_digits (hdigits : ∀ c ∈ whole, c.isDigit = true) (hrest : Stops rest) :
    (whole ++ rest).dropWhile Char.isDigit = rest := by
  rw [List.dropWhile_append_of_pos hdigits]
  cases rest with
  | nil => simp
  | cons c rest => simp [hrest c rfl]

theorem stops_dropWhile (text : List Char) : Stops (text.dropWhile Char.isDigit) := by
  induction text with
  | nil => exact nofun
  | cons c text ih =>
      rw [List.dropWhile_cons]
      split
      next => exact ih
      next hc =>
        intro d hd
        cases hd
        exact Bool.eq_false_iff.mpr hc

/-- Of two runs of digits at one place, the one that stops is at least as long. -/
theorem length_le_of_stops {run rest' : List Char} (hrun : ∀ c ∈ run, c.isDigit = true)
    (hdigits : ∀ c ∈ whole, c.isDigit = true) (hrest : Stops rest)
    (heq : run ++ rest' = whole ++ rest) : run.length ≤ whole.length := by
  have htake := takeWhile_digits hdigits hrest
  rw [← heq, List.takeWhile_append_of_pos hrun] at htake
  rw [← htake, List.length_append]
  exact Nat.le_add_right _ _

/-- Two runs of digits at one place that both stop are the same. -/
theorem eq_of_stops {run rest' : List Char} (hrun : ∀ c ∈ run, c.isDigit = true)
    (hrest' : Stops rest') (hdigits : ∀ c ∈ whole, c.isDigit = true) (hrest : Stops rest)
    (heq : run ++ rest' = whole ++ rest) : run = whole ∧ rest' = rest := by
  have hsame : run = whole := by
    rw [← takeWhile_digits hrun hrest', heq, takeWhile_digits hdigits hrest]
  subst hsame
  exact ⟨rfl, List.append_cancel_left heq⟩

theorem byteLength_digits (hdigits : ∀ c ∈ whole, c.isDigit = true) :
    byteLength whole = whole.length := by
  induction whole with
  | nil => rfl
  | cons c more ih =>
      rw [List.forall_mem_cons] at hdigits
      have hsize : c.utf8Size = 1 := by
        have hdigit := Lexis.isDigit_iff.mp hdigits.1
        exact Char.utf8Size_eq_one_iff.mpr (UInt32.le_trans hdigit.2 (by decide))
      rw [byteLength_cons, hsize, ih hdigits.2, List.length_cons, Nat.add_comm]

theorem byteLength_sign (hsign : sign ∈ Lexis.sign) : byteLength sign = sign.length := by
  rcases Lexis.mem_sign.mp hsign with rfl | rfl <;> rfl

namespace Front

theorem head?_ne (h : Front sign whole) : (whole ++ rest).head? ≠ some '-' := by
  obtain ⟨c, more, rfl⟩ := List.exists_cons_of_ne_nil h.ne
  intro hhead
  obtain rfl : c = '-' := Option.some.inj hhead
  exact absurd (h.digits '-' (by simp)) (by decide)

/-- Only a sign is taken for one. -/
theorem length_sign (h : Front sign whole) :
    (if (sign ++ (whole ++ rest)).head? = some '-' then 1 else 0) = sign.length := by
  rcases Lexis.mem_sign.mp h.sign with rfl | rfl
  · rw [List.nil_append, if_neg h.head?_ne]
    rfl
  · rfl

/-- Two fronts at one place have the same sign. -/
theorem sign_eq {sign' whole' rest' : List Char} (h : Front sign whole) (h' : Front sign' whole')
    (heq : sign' ++ (whole' ++ rest') = sign ++ (whole ++ rest)) :
    sign' = sign ∧ whole' ++ rest' = whole ++ rest := by
  rcases Lexis.mem_sign.mp h.sign with rfl | rfl <;>
    rcases Lexis.mem_sign.mp h'.sign with rfl | rfl
  · exact ⟨rfl, heq⟩
  · exact absurd (congrArg List.head? heq).symm h.head?_ne
  · exact absurd (congrArg List.head? heq) h'.head?_ne
  · exact ⟨rfl, List.append_cancel_left heq⟩

theorem take_left (_ : Front sign whole) :
    (sign ++ (whole ++ rest)).take (sign.length + whole.length) = sign ++ whole := by
  rw [← List.append_assoc, ← List.length_append, List.take_left]

/-! ## Numbers -/

/-- A number without a point. -/
theorem number_integer (h : Front sign whole) (hrest : Stops rest)
    (hpoint : rest.head? ≠ some '.') :
    number (sign ++ (whole ++ rest)) =
      if 1 < whole.length ∧ whole.head? = some '0' then
        .error ⟨.invalidNumber (String.ofList (sign ++ whole)), sign.length + 1⟩
      else if sign ++ whole = ['-', '0'] then
        .error ⟨.invalidNumber (String.ofList (sign ++ whole)), 0⟩
      else .ok (.integer, sign.length + whole.length) := by
  have htake : (sign ++ (whole ++ rest)).take (sign.length + whole.length) = sign ++ whole :=
    h.take_left
  unfold number
  simp only [h.length_sign, List.drop_left, takeWhile_digits h.digits hrest,
    dropWhile_digits h.digits hrest]
  cases rest with
  | nil =>
      simp only [List.append_nil] at htake ⊢
      simp [htake]
  | cons c more =>
      have hc : c ≠ '.' := fun heq => hpoint (congrArg some heq)
      simp [hc, htake]

/-- A number with digits on both sides of its point. -/
theorem number_decimal (h : Front sign whole) (hne : fraction ≠ [])
    (hfraction : ∀ c ∈ fraction, c.isDigit = true) (hrest : Stops rest) :
    number (sign ++ (whole ++ '.' :: (fraction ++ rest))) =
      if 1 < whole.length ∧ whole.head? = some '0' then
        .error ⟨.invalidNumber (String.ofList (sign ++ (whole ++ '.' :: fraction))),
          sign.length + 1⟩
      else .ok (.decimal, sign.length + whole.length + (fraction.length + 1)) := by
  have htake : (sign ++ (whole ++ '.' :: (fraction ++ rest))).take
      (sign.length + whole.length + (fraction.length + 1)) =
        sign ++ (whole ++ '.' :: fraction) := by
    have hlength : sign.length + whole.length + (fraction.length + 1) =
        (sign ++ (whole ++ '.' :: fraction)).length := by simp [Nat.add_assoc]
    have hsplit : sign ++ (whole ++ '.' :: (fraction ++ rest)) =
        sign ++ (whole ++ '.' :: fraction) ++ rest := by simp
    rw [hlength, hsplit, List.take_left]
  have hzero : sign ++ (whole ++ '.' :: fraction) ≠ ['-', '0'] := by
    intro heq
    have hmem : '.' ∈ ['-', '0'] := heq ▸ by simp
    exact absurd hmem (by decide)
  unfold number
  simp only [h.length_sign, List.drop_left, takeWhile_digits h.digits stops_point,
    dropWhile_digits h.digits stops_point, takeWhile_digits hfraction hrest]
  simp [hne, htake, hzero]

/-- A number with nothing after its point. -/
theorem number_point (h : Front sign whole) (hrest : Stops rest) :
    number (sign ++ (whole ++ '.' :: rest)) =
      if 1 < whole.length ∧ whole.head? = some '0' then
        .error ⟨.invalidNumber (String.ofList (sign ++ whole)), sign.length + 1⟩
      else
        .error ⟨.invalidNumber (String.ofList (sign ++ whole ++ ['.'])),
          sign.length + whole.length + 1⟩ := by
  have htake : (sign ++ (whole ++ '.' :: rest)).take (sign.length + whole.length) =
      sign ++ whole := h.take_left
  have hfraction : rest.takeWhile Char.isDigit = [] := by
    have hnone : ([] ++ rest).takeWhile Char.isDigit = [] := takeWhile_digits nofun hrest
    exact hnone
  unfold number
  simp only [h.length_sign, List.drop_left, takeWhile_digits h.digits stops_point,
    dropWhile_digits h.digits stops_point, hfraction]
  simp [htake]

end Front

/-- The ways in which a text can start with a number. -/
inductive Shape : List Char → Prop
  | integer {sign whole rest : List Char} :
      Front sign whole → Stops rest → rest.head? ≠ some '.' → Shape (sign ++ (whole ++ rest))
  | decimal {sign whole fraction rest : List Char} :
      Front sign whole → fraction ≠ [] → (∀ c ∈ fraction, c.isDigit = true) → Stops rest →
        Shape (sign ++ (whole ++ '.' :: (fraction ++ rest)))
  | point {sign whole rest : List Char} :
      Front sign whole → Stops rest → Shape (sign ++ (whole ++ '.' :: rest))

/-- What follows the digits of a front: no point, a point and digits, or a point alone. -/
theorem Stops.point_cases (hrest : Stops rest) :
    rest.head? ≠ some '.' ∨
      (∃ fraction after, rest = '.' :: (fraction ++ after) ∧ fraction ≠ [] ∧
        (∀ c ∈ fraction, c.isDigit = true) ∧ Stops after) ∨
      ∃ after, rest = '.' :: after ∧ Stops after := by
  by_cases hpoint : rest.head? = some '.'
  · right
    obtain ⟨more, rfl⟩ := List.head?_eq_some_iff.mp hpoint
    have hsplit := List.takeWhile_append_dropWhile (p := Char.isDigit) (l := more)
    by_cases hne : more.takeWhile Char.isDigit = []
    · rw [hne, List.nil_append] at hsplit
      exact .inr ⟨more, rfl, hsplit ▸ stops_dropWhile more⟩
    · exact .inl ⟨_, _, congrArg (List.cons '.') hsplit.symm, hne,
        fun c hc => List.mem_takeWhile_imp hc, stops_dropWhile more⟩
  · exact .inl hpoint

theorem Front.shape (h : Front sign whole) (hrest : Stops rest) :
    Shape (sign ++ (whole ++ rest)) := by
  rcases hrest.point_cases with hpoint | ⟨fraction, after, rfl, hne, hfraction, hafter⟩ |
    ⟨after, rfl, hafter⟩
  · exact .integer h hrest hpoint
  · exact .decimal h hne hfraction hafter
  · exact .point h hafter

theorem shape_of_startsNumber {c : Char} {text : List Char} (h : startsNumber c text = true) :
    Shape (c :: text) := by
  have hrun (digits : List Char) : ∀ d ∈ digits.takeWhile Char.isDigit, d.isDigit = true :=
    fun d hd => List.mem_takeWhile_imp hd
  simp only [startsNumber, Bool.or_eq_true, Bool.and_eq_true, decide_eq_true_eq] at h
  rcases h with hdigit | ⟨rfl, hnext⟩
  · have hfront : Front [] ((c :: text).takeWhile Char.isDigit) :=
      ⟨.inl rfl, by simp [hdigit], hrun _⟩
    have hshape := hfront.shape (stops_dropWhile (c :: text))
    rwa [List.takeWhile_append_dropWhile] at hshape
  · obtain ⟨d, hhead, hdigit⟩ := (Option.any_eq_true _ _).mp hnext
    obtain ⟨more, rfl⟩ := List.head?_eq_some_iff.mp hhead
    have hfront : Front ['-'] ((d :: more).takeWhile Char.isDigit) :=
      ⟨.inr rfl, by simp [hdigit], hrun _⟩
    have hshape := hfront.shape (stops_dropWhile (d :: more))
    rwa [List.takeWhile_append_dropWhile] at hshape

/-- A number before the point, if it has no leading zero. -/
theorem Front.mem_whole (h : Front sign whole)
    (hzero : ¬ (1 < whole.length ∧ whole.head? = some '0')) : whole ∈ Lexis.whole :=
  Lexis.mem_whole.mpr ⟨h.ne, h.digits, hzero⟩

theorem front_of_mem_whole (hsign : sign ∈ Lexis.sign) (hwhole : whole ∈ Lexis.whole) :
    Front sign whole :=
  ⟨hsign, (Lexis.mem_whole.mp hwhole).1, (Lexis.mem_whole.mp hwhole).2.1⟩

namespace Front

/-- What looks like a number at the place of a front is no longer than the front, or it has that
front and then a point and digits. -/
theorem numeral_cases {other rest' : List Char} (h : Front sign whole) (hrest : Stops rest)
    (hother : other ∈ Lexis.numeral) (heq : other ++ rest' = sign ++ (whole ++ rest)) :
    other.length ≤ sign.length + whole.length ∨
      ∃ fraction, fraction ≠ [] ∧ (∀ c ∈ fraction, c.isDigit = true) ∧
        rest = '.' :: (fraction ++ rest') ∧
        other.length = sign.length + whole.length + (fraction.length + 1) := by
  obtain ⟨sign', whole', tail, hsign', hne', hdigits', htail, rfl⟩ := Lexis.mem_numeral.mp hother
  have h' : Front sign' whole' := ⟨hsign', hne', hdigits'⟩
  simp only [List.append_assoc] at heq
  obtain ⟨rfl, hruns⟩ := h.sign_eq h' heq
  rcases htail with rfl | ⟨fraction, hne, hfraction, rfl⟩
  · left
    rw [List.append_nil, List.length_append]
    exact Nat.add_le_add_left (length_le_of_stops hdigits' h.digits hrest hruns) _
  · right
    obtain ⟨rfl, rfl⟩ := eq_of_stops hdigits' stops_point h.digits hrest hruns
    exact ⟨fraction, hne, hfraction, rfl, by simp [Nat.add_assoc]⟩

/-- A front that no point and digits follow is all that looks like a number at its place. -/
theorem longest (h : Front sign whole) (hrest : Stops rest)
    (hpoint : ∀ fraction after, rest = '.' :: (fraction ++ after) →
      (∀ c ∈ fraction, c.isDigit = true) → fraction = []) :
    Lexis.LongestNumeral (sign ++ whole) rest where
  mem := Lexis.mem_numeral.mpr ⟨sign, whole, [], h.sign, h.ne, h.digits, .inl rfl, by simp⟩
  longest := by
    intro other rest' heq hother
    rw [List.append_assoc] at heq
    rw [List.length_append]
    rcases h.numeral_cases hrest hother heq with hle | ⟨fraction, hne, hfraction, rfl, _⟩
    · exact hle
    · exact absurd (hpoint fraction rest' rfl hfraction) hne

theorem longest_integer (h : Front sign whole) (hrest : Stops rest)
    (hpoint : rest.head? ≠ some '.') : Lexis.LongestNumeral (sign ++ whole) rest := by
  refine h.longest hrest fun fraction after heq _ => ?_
  exact absurd (congrArg List.head? heq) hpoint

theorem longest_point (h : Front sign whole) (hrest : Stops rest) :
    Lexis.LongestNumeral (sign ++ whole) ('.' :: rest) := by
  refine h.longest stops_point fun fraction after heq hfraction => ?_
  obtain rfl := (List.cons.inj heq).2
  cases fraction with
  | nil => rfl
  | cons c more =>
      have hc := hfraction c List.mem_cons_self
      rw [hrest c rfl] at hc
      cases hc

theorem longest_decimal (h : Front sign whole) (hne : fraction ≠ [])
    (hfraction : ∀ c ∈ fraction, c.isDigit = true) (hrest : Stops rest) :
    Lexis.LongestNumeral (sign ++ (whole ++ '.' :: fraction)) rest where
  mem := Lexis.mem_numeral.mpr
    ⟨sign, whole, _, h.sign, h.ne, h.digits, .inr ⟨fraction, hne, hfraction, rfl⟩, rfl⟩
  longest := by
    intro other rest' heq hother
    simp only [List.append_assoc, List.cons_append] at heq
    simp only [List.length_append, List.length_cons, ← Nat.add_assoc]
    rcases h.numeral_cases stops_point hother heq with hle | ⟨_, _, hfraction', hsame, hlength⟩
    · omega
    · have hle := length_le_of_stops hfraction' hfraction hrest (List.cons.inj hsame).2.symm
      omega

/-- A leading zero is reported with all that looks like a number there. -/
theorem number_leadingZero (h : Front sign whole) (hrest : Stops rest)
    (hzero : 1 < whole.length ∧ whole.head? = some '0') :
    ∃ tail after, rest = tail ++ after ∧ Lexis.LongestNumeral (sign ++ (whole ++ tail)) after ∧
      number (sign ++ (whole ++ rest)) =
        .error ⟨.invalidNumber (String.ofList (sign ++ (whole ++ tail))), sign.length + 1⟩ := by
  rcases hrest.point_cases with hpoint | ⟨fraction, after, rfl, hne, hfraction, hafter⟩ |
    ⟨after, rfl, hafter⟩
  · refine ⟨[], rest, rfl, ?_, ?_⟩
    · rw [List.append_nil]
      exact h.longest_integer hrest hpoint
    · rw [h.number_integer hrest hpoint, if_pos hzero, List.append_nil]
  · refine ⟨'.' :: fraction, after, rfl, h.longest_decimal hne hfraction hafter, ?_⟩
    rw [h.number_decimal hne hfraction hafter, if_pos hzero]
  · refine ⟨[], '.' :: after, rfl, ?_, ?_⟩
    · rw [List.append_nil]
      exact h.longest_point hafter
    · rw [h.number_point hafter, if_pos hzero, List.append_nil]

/-- A leading zero shows at the digit after it. -/
theorem leadingZero_flawed {flaw : Flaw} (hfront : Front sign whole) (hrest : Stops rest)
    (hzero : 1 < whole.length ∧ whole.head? = some '0')
    (h : number (sign ++ (whole ++ rest)) = .error flaw) :
    ∃ piece after, sign ++ (whole ++ rest) = piece ++ after ∧ flaw.distance = byteLength piece ∧
      Flawed flaw.cause piece after := by
  obtain ⟨tail, after, rfl, hlongest, hnumber⟩ := hfront.number_leadingZero hrest hzero
  rw [hnumber] at h
  cases h
  obtain ⟨more, rfl⟩ := List.head?_eq_some_iff.mp hzero.2
  obtain ⟨digit, more, rfl⟩ := List.exists_cons_of_ne_nil (List.ne_nil_of_length_pos
    (Nat.lt_of_succ_lt_succ hzero.1))
  refine ⟨sign ++ ['0'], digit :: (more ++ tail ++ after), by simp, ?_, ?_⟩
  · rw [byteLength_append, byteLength_sign hfront.sign]
    rfl
  · exact .leadingZero hfront.sign (hfront.digits digit (by simp)) hlongest

end Front

/-- Zero before another digit is reported with all that looks like a number there. -/
theorem number_of_leadingZero {more : List Char} {digit : Char} (hsign : sign ∈ Lexis.sign)
    (hdigit : digit.isDigit = true)
    (hlongest : Lexis.LongestNumeral (sign ++ '0' :: digit :: more) rest) :
    number (sign ++ (['0', digit] ++ (more ++ rest))) =
      .error ⟨.invalidNumber (String.ofList (sign ++ '0' :: digit :: more)), sign.length + 1⟩ := by
  have hsplit := List.takeWhile_append_dropWhile (p := Char.isDigit) (l := more ++ rest)
  have hfront : Front sign ('0' :: digit :: (more ++ rest).takeWhile Char.isDigit) := by
    refine ⟨hsign, List.cons_ne_nil _ _, ?_⟩
    simp only [List.forall_mem_cons]
    exact ⟨rfl, hdigit, fun c hc => List.mem_takeWhile_imp hc⟩
  obtain ⟨tail, after, hrest, hlongest', hnumber⟩ :=
    hfront.number_leadingZero (stops_dropWhile (more ++ rest)) ⟨by simp, rfl⟩
  have hsame : sign ++ ('0' :: digit :: (more ++ rest).takeWhile Char.isDigit ++ tail) ++ after =
      sign ++ '0' :: digit :: more ++ rest := by
    simp only [List.append_assoc, List.cons_append, ← hrest, hsplit]
  rw [hlongest'.unique hlongest hsame] at hnumber
  simpa only [List.cons_append, List.nil_append, hsplit] using hnumber

namespace Shape

variable {text : List Char}

/-- A number that is read is one of its kind, and nothing longer at its place looks like one. -/
theorem of_ok {kind : TokenKind} {length : Nat} (hshape : Shape text)
    (h : number text = .ok (kind, length)) :
    ∃ lexeme rest, text = lexeme ++ rest ∧ lexeme.length = length ∧ lexeme ∈ kind.language ∧
      kind ≠ .operator ∧ Lexis.LongestNumeral lexeme rest := by
  cases hshape with
  | @integer sign whole rest hfront hrest hpoint =>
      rw [hfront.number_integer hrest hpoint] at h
      split at h
      · cases h
      next hzero =>
        split at h
        · cases h
        next hsigned =>
          cases h
          refine ⟨sign ++ whole, rest, by simp, by simp, ?_, by decide,
            hfront.longest_integer hrest hpoint⟩
          exact Lexis.mem_integer.mpr ⟨sign, whole, hfront.sign, hfront.mem_whole hzero, hsigned,
            rfl⟩
  | @decimal sign whole fraction rest hfront hne hfraction hrest =>
      rw [hfront.number_decimal hne hfraction hrest] at h
      split at h
      · cases h
      next hzero =>
        cases h
        refine ⟨sign ++ (whole ++ '.' :: fraction), rest, by simp, by simp [Nat.add_assoc], ?_,
          by decide, hfront.longest_decimal hne hfraction hrest⟩
        exact Lexis.mem_decimal.mpr ⟨sign, whole, fraction, hfront.sign, hfront.mem_whole hzero,
          hne, hfraction, rfl⟩
  | point hfront hrest =>
      rw [hfront.number_point hrest] at h
      split at h <;> cases h

/-- Where a number is not read, the flaw says why. -/
theorem of_error {flaw : Flaw} (hshape : Shape text) (h : number text = .error flaw) :
    ∃ piece after, text = piece ++ after ∧ flaw.distance = byteLength piece ∧
      Flawed flaw.cause piece after := by
  cases hshape with
  | @integer sign whole rest hfront hrest hpoint =>
      by_cases hzero : 1 < whole.length ∧ whole.head? = some '0'
      · exact hfront.leadingZero_flawed hrest hzero h
      · rw [hfront.number_integer hrest hpoint, if_neg hzero] at h
        split at h
        next hsigned =>
          cases h
          refine ⟨[], '-' :: '0' :: rest, ?_, rfl, ?_⟩
          · rw [← List.append_assoc, hsigned]
            rfl
          · rw [hsigned]
            refine .negativeZero fun c hc => ⟨?_, fun heq => hpoint (heq ▸ hc)⟩
            rw [← Lexis.isDigit_iff, hrest c hc]
            decide
        · cases h
  | @decimal sign whole fraction rest hfront hne hfraction hrest =>
      by_cases hzero : 1 < whole.length ∧ whole.head? = some '0'
      · exact hfront.leadingZero_flawed stops_point hzero h
      · rw [hfront.number_decimal hne hfraction hrest, if_neg hzero] at h
        cases h
  | @point sign whole rest hfront hrest =>
      by_cases hzero : 1 < whole.length ∧ whole.head? = some '0'
      · exact hfront.leadingZero_flawed stops_point hzero h
      · rw [hfront.number_point hrest, if_neg hzero] at h
        cases h
        refine ⟨sign ++ whole ++ ['.'], rest, by simp, ?_, ?_⟩
        · rw [byteLength_append, byteLength_append, byteLength_sign hfront.sign,
            byteLength_digits hfront.digits]
          rfl
        · refine .trailingPoint hfront.sign (hfront.mem_whole hzero) fun c hc => ?_
          rw [← Lexis.isDigit_iff, hrest c hc]
          decide

end Shape

end Scriptlet.Lexeme
