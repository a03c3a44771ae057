import Scriptlet.Proofs.Number.NormalForm
import Scriptlet.Proofs.Token.Decoding
import Scriptlet.Value.Display

/-! # Printed numbers

A number is displayed by a text that is one token of its kind. Reading that token gives the number
back, and decimals that are equal as numbers, at whatever scale, share their text.
-/

namespace Scriptlet

namespace Lexis

/-! ## Digits of numbers -/

theorem value_zeros (count : ℕ) : value (List.replicate count '0') = 0 := by
  induction count with
  | zero => rfl
  | succ count ih =>
      rw [List.replicate_succ', value_append, ih, Nat.zero_mul]
      rfl

/-- Zeros before the digits count for nothing. -/
theorem value_zeros_append (count : ℕ) (digits : List Char) :
    value (List.replicate count '0' ++ digits) = value digits := by
  rw [value_append, value_zeros, Nat.zero_mul, Nat.zero_add]

theorem isDigit_of_mem_zeros {count : ℕ} {c : Char} (h : c ∈ List.replicate count '0') :
    c.isDigit = true := by
  rw [List.eq_of_mem_replicate h]
  rfl

theorem value_lt {digits : List Char} (hdigits : ∀ c ∈ digits, c.isDigit = true) :
    value digits < 10 ^ digits.length := by
  have hlt : ∀ n ∈ digits.reverse.map (fun c => c.toNat - '0'.toNat), n < 10 := by
    intro n hn
    obtain ⟨c, hc, rfl⟩ := List.mem_map.mp hn
    have hdigit := isDigit_iff.mp (hdigits c (List.mem_reverse.mp hc))
    have hle : c.toNat ≤ '9'.toNat := hdigit.2
    have hnine : '9'.toNat - '0'.toNat < 10 := by decide
    omega
  have hbound := Nat.ofDigits_lt_base_pow_length (by decide : 1 < 10) hlt
  rwa [List.length_map, List.length_reverse] at hbound

theorem value_writeNat (n : ℕ) : value (Numeral.writeNat n) = n := by
  rw [← ofDigitChars_eq_value]
  exact Nat.ofDigitChars_toDigits (by decide) (by decide)

theorem writeNat_ne_nil (n : ℕ) : Numeral.writeNat n ≠ [] :=
  Nat.toDigits_ne_nil

theorem isDigit_of_mem_writeNat {n : ℕ} {c : Char} (h : c ∈ Numeral.writeNat n) :
    c.isDigit = true :=
  Nat.isDigit_of_mem_toDigits (by decide) (by decide) h

/-- The digits of a positive number do not start with zero: the others would not be enough. -/
theorem head?_writeNat {n : ℕ} (h : 0 < n) : (Numeral.writeNat n).head? ≠ some '0' := by
  intro hhead
  obtain ⟨rest, hrest⟩ := List.head?_eq_some_iff.mp hhead
  have hvalue : value rest = n := by
    rw [← value_writeNat n, hrest, ← List.singleton_append]
    exact (value_zeros_append 1 rest).symm
  have hlt : value rest < 10 ^ rest.length :=
    value_lt fun c hc => isDigit_of_mem_writeNat (hrest ▸ List.mem_cons_of_mem _ hc)
  have hle := Numeral.pow_length_writeNat_le h
  rw [hrest, List.length_cons, Nat.add_sub_cancel] at hle
  exact absurd hlt (Nat.not_lt.mpr (hvalue ▸ hle))

theorem writeNat_append_mem_whole {n : ℕ} (h : 0 < n) {more : List Char}
    (hmore : ∀ c ∈ more, c.isDigit = true) : Numeral.writeNat n ++ more ∈ whole := by
  have hne := writeNat_ne_nil n
  refine .inr (mem_nonzero.mpr ⟨List.append_ne_nil_of_left_ne_nil hne more, ?_, ?_⟩)
  · exact List.forall_mem_append.mpr ⟨fun c hc => isDigit_of_mem_writeNat hc, hmore⟩
  · rw [List.head?_append_of_ne_nil _ hne]
    exact head?_writeNat h

/-! ## Signs -/

/-- The sign that a number is written with. -/
def signOf (n : ℤ) : List Char :=
  if n < 0 then ['-'] else []

theorem signOf_mem (n : ℤ) : signOf n ∈ sign := by
  unfold signOf
  split
  · exact mem_sign.mpr (.inr rfl)
  · exact mem_sign.mpr (.inl rfl)

theorem factor_signOf (n : ℤ) : factor (signOf n) * n.natAbs = n := by
  unfold signOf
  split
  next hneg =>
    have habs : (n.natAbs : ℤ) = -n := by omega
    rw [habs]
    simp [factor]
  next hpos =>
    have habs : (n.natAbs : ℤ) = n := by omega
    rw [habs]
    simp [factor]

theorem writeInt_eq (n : ℤ) : Numeral.writeInt n = signOf n ++ Numeral.writeNat n.natAbs := by
  unfold Numeral.writeInt signOf
  split <;> rfl

/-- The text of an integer. -/
theorem writeInt_mem_integer (n : ℤ) : Numeral.writeInt n ∈ integer := by
  by_cases hzero : n = 0
  · subst hzero
    exact .inl rfl
  · have hpos : 0 < n.natAbs := Int.natAbs_pos.mpr hzero
    refine .inr ?_
    rw [writeInt_eq]
    refine Language.append_mem_mul (signOf_mem n) (mem_nonzero.mpr ⟨writeNat_ne_nil _, ?_, ?_⟩)
    · exact fun c hc => isDigit_of_mem_writeNat hc
    · exact head?_writeNat hpos

theorem readInt?_writeInt (n : ℤ) : Numeral.readInt? (Numeral.writeInt n) = some n := by
  have hdigits : ∀ c ∈ Numeral.writeNat n.natAbs, c.isDigit = true :=
    fun c hc => isDigit_of_mem_writeNat hc
  rw [writeInt_eq, readInt?_of_digits (signOf_mem n) (writeNat_ne_nil _) hdigits, value_writeNat,
    factor_signOf]

/-! ## The point -/

/-- The text is that of a decimal, and is read as the number. -/
def ReadsAs (text : List Char) (x : ℚ) : Prop :=
  text ∈ decimal ∧ ∃ d, Decimal.read? text = some d ∧ d.toRat = x

theorem readsAs_of_digits {sign whole fraction : List Char} {x : ℚ} (hsign : sign ∈ Lexis.sign)
    (hwhole : whole ∈ Lexis.whole) (hne : fraction ≠ [])
    (hfraction : ∀ c ∈ fraction, c.isDigit = true)
    (hvalue : (⟨factor sign * value (whole ++ fraction), fraction.length⟩ : Decimal).toRat = x) :
    ReadsAs (sign ++ (whole ++ '.' :: fraction)) x :=
  ⟨mem_decimal.mpr ⟨sign, whole, fraction, hsign, hwhole, hne, hfraction, rfl⟩, _,
    read?_of_digits hsign hwhole hfraction, hvalue⟩

/-- The point splits the digits, with zeros before them where they are not enough. -/
theorem setPoint_eq (digits : List Char) (places : ℕ) :
    ∃ whole fraction, Decimal.setPoint digits places = whole ++ '.' :: fraction ∧
      whole ++ fraction = List.replicate (places + 1 - digits.length) '0' ++ digits ∧
      whole.length = max 1 (digits.length - places) ∧ fraction.length = places := by
  generalize hpadded : List.replicate (places + 1 - digits.length) '0' ++ digits = padded
  have hlength : padded.length = max (places + 1) digits.length := by
    rw [← hpadded, List.length_append, List.length_replicate]
    omega
  refine ⟨padded.take (padded.length - places), padded.drop (padded.length - places), ?_,
    List.take_append_drop _ _, ?_, ?_⟩
  · rw [Decimal.setPoint, hpadded, List.splitAt_eq]
  · rw [List.length_take]
    omega
  · rw [List.length_drop]
    omega

/-- The digits before the point have no leading zero: there is only one of them, or they are the
first digits of the number. -/
theorem not_leadingZero_of_setPoint {n places : ℕ} (hpos : 0 < n) {whole fraction : List Char}
    (hdigits : whole ++ fraction =
      List.replicate (places + 1 - (Numeral.writeNat n).length) '0' ++ Numeral.writeNat n)
    (hlength : whole.length = max 1 ((Numeral.writeNat n).length - places)) :
    ¬ (1 < whole.length ∧ whole.head? = some '0') := by
  intro hzero
  have hne : whole ≠ [] := List.ne_nil_of_length_pos (by omega)
  have hpadding : places + 1 - (Numeral.writeNat n).length = 0 := by omega
  rw [hpadding, List.replicate_zero, List.nil_append] at hdigits
  apply head?_writeNat hpos
  rw [← hdigits, List.head?_append_of_ne_nil _ hne]
  exact hzero.2

theorem readsAs_setPoint {sign : List Char} {n places : ℕ} (hsign : sign ∈ Lexis.sign)
    (hpos : 0 < n) (hplaces : 0 < places) :
    ReadsAs (sign ++ Decimal.setPoint (Numeral.writeNat n) places)
      (⟨factor sign * n, places⟩ : Decimal).toRat := by
  obtain ⟨whole, fraction, htext, hdigits, hwhole, hfraction⟩ :=
    setPoint_eq (Numeral.writeNat n) places
  have hall : ∀ c ∈ whole ++ fraction, c.isDigit = true := by
    rw [hdigits]
    exact List.forall_mem_append.mpr
      ⟨fun c hc => isDigit_of_mem_zeros hc, fun c hc => isDigit_of_mem_writeNat hc⟩
  obtain ⟨hallWhole, hallFraction⟩ := List.forall_mem_append.mp hall
  rw [htext]
  apply readsAs_of_digits hsign
  · refine mem_whole.mpr ⟨List.ne_nil_of_length_pos (by omega), hallWhole, ?_⟩
    exact not_leadingZero_of_setPoint hpos hdigits hwhole
  · exact List.ne_nil_of_length_pos (by omega)
  · exact hallFraction
  · rw [hdigits, value_zeros_append, value_writeNat, hfraction]

/-- Zeros behind the digits take the place of fractional digits. -/
theorem readsAs_zeros {sign : List Char} {n : ℕ} (hsign : sign ∈ Lexis.sign) (hpos : 0 < n)
    (zeros : ℕ) :
    ReadsAs (sign ++ (Numeral.writeNat n ++ List.replicate zeros '0' ++ ['.', '0']))
      (⟨factor sign * n, -zeros⟩ : Decimal).toRat := by
  have hzeros : ∀ c ∈ List.replicate zeros '0', c.isDigit = true :=
    fun c hc => isDigit_of_mem_zeros hc
  have hvalue : value (Numeral.writeNat n ++ List.replicate zeros '0' ++ ['0']) =
      n * 10 ^ zeros * 10 := by
    rw [value_append, value_append, value_writeNat, value_zeros, List.length_replicate]
    rfl
  apply readsAs_of_digits hsign (writeNat_append_mem_whole hpos hzeros) (by simp) (by simp)
  rw [hvalue, Decimal.toRat, Decimal.toRat]
  rw [neg_neg, zpow_natCast, List.length_singleton, Nat.cast_one, zpow_neg_one]
  push_cast
  ring

/-! ## Decimals -/

theorem plain_eq (d : Decimal) : d.plain = signOf d.digits ++
    if d.scale ≤ 0 then
      Numeral.writeNat d.digits.natAbs ++ List.replicate (-d.scale).toNat '0'
    else Decimal.setPoint (Numeral.writeNat d.digits.natAbs) d.scale.toNat := by
  unfold Decimal.plain signOf
  split <;> split <;> rfl

theorem readsAs_zero : ReadsAs ['0', '.', '0'] 0 := by
  have hwhole : ['0'] ∈ whole := .inl rfl
  have hdigits : ∀ c ∈ ['0'], c.isDigit = true := List.forall_mem_singleton.mpr rfl
  have hvalue : (⟨factor [] * value (['0'] ++ ['0']), 1⟩ : Decimal).toRat = 0 := by
    rw [show value (['0'] ++ ['0']) = 0 from value_zeros 2, Decimal.toRat, Nat.cast_zero, mul_zero,
      Int.cast_zero, zero_mul]
  exact readsAs_of_digits (.inl rfl) hwhole (List.cons_ne_nil _ _) hdigits hvalue

/-- The text of a decimal is read as the same number. -/
theorem readsAs_write (d : Decimal) : ReadsAs d.write d.toRat := by
  rw [← Decimal.toRat_strip]
  simp only [Decimal.write]
  generalize d.strip = stripped
  by_cases hzero : stripped.digits = 0
  · have hvalue : stripped.toRat = 0 := by rw [Decimal.toRat, hzero, Int.cast_zero, zero_mul]
    rw [if_pos hzero, hvalue]
    exact readsAs_zero
  · have hsign := signOf_mem stripped.digits
    have hpos : 0 < stripped.digits.natAbs := Int.natAbs_pos.mpr hzero
    rw [if_neg hzero, plain_eq]
    by_cases hscale : stripped.scale ≤ 0
    · have hread := readsAs_zeros hsign hpos (-stripped.scale).toNat
      have hplaces : -((-stripped.scale).toNat : ℤ) = stripped.scale := by omega
      rw [factor_signOf, hplaces] at hread
      rw [if_pos hscale, if_pos hscale, List.append_assoc]
      exact hread
    · have hread := readsAs_setPoint hsign hpos (by omega : 0 < stripped.scale.toNat)
      have hplaces : (stripped.scale.toNat : ℤ) = stripped.scale := by omega
      rw [factor_signOf, hplaces] at hread
      rw [if_neg hscale, if_neg hscale]
      exact hread

end Lexis

/-! ## Tokens -/

theorem Lexeme.isSeparator_of_startsNumber {c : Char} {rest : List Char}
    (h : startsNumber c rest = true) : isSeparator c = false := by
  by_contra hseparator
  have hmem := Lexis.isSeparator_iff.mp (Bool.eq_true_of_not_eq_false hseparator)
  simp only [Lexis.separators, List.mem_cons, List.not_mem_nil, or_false] at hmem
  rcases hmem with rfl | rfl | rfl | rfl | rfl | rfl <;> cases h

/-- A text that is a number alone is one token. -/
theorem tokenize_of_number {text sign whole tail : List Char} {kind : TokenKind}
    (hfront : Lexeme.Front sign whole) (htext : text = sign ++ (whole ++ tail))
    (hnumber : Lexeme.number text = .ok (kind, text.length)) :
    tokenize (String.ofList text) = .ok [⟨kind, String.ofList text, 0⟩] := by
  have hne : text ≠ [] := by
    rw [htext]
    exact List.append_ne_nil_of_right_ne_nil _ (List.append_ne_nil_of_left_ne_nil hfront.ne _)
  obtain ⟨c, rest, rfl⟩ := List.exists_cons_of_ne_nil hne
  have hstart : Lexeme.startsNumber c rest = true := hfront.startsNumber htext.symm
  rw [tokenize, String.toList_ofList]
  apply scan_of_read (Lexeme.isSeparator_of_startsNumber hstart)
  rw [Lexeme.read, if_pos hstart, hnumber]
  rfl

theorem tokenize_of_integer {text : List Char} (h : text ∈ Lexis.integer) :
    tokenize (String.ofList text) = .ok [⟨.integer, String.ofList text, 0⟩] := by
  obtain ⟨sign, whole, hsign, hwhole, hzero, htext⟩ := Lexis.mem_integer.mp h
  have hfront := Lexeme.front_of_mem_whole hsign hwhole
  have hnone : text = sign ++ (whole ++ []) := by rw [htext, List.append_nil]
  apply tokenize_of_number hfront hnone
  rw [hnone, hfront.number_integer (by simp [Lexeme.Stops]) (by simp),
    if_neg (Lexis.mem_whole.mp hwhole).2.2, if_neg hzero]
  simp

theorem tokenize_of_decimal {text : List Char} (h : text ∈ Lexis.decimal) :
    tokenize (String.ofList text) = .ok [⟨.decimal, String.ofList text, 0⟩] := by
  obtain ⟨sign, whole, fraction, hsign, hwhole, hne, hfraction, htext⟩ := Lexis.mem_decimal.mp h
  have hfront := Lexeme.front_of_mem_whole hsign hwhole
  apply tokenize_of_number hfront htext
  have hnone : text = sign ++ (whole ++ '.' :: (fraction ++ [])) := by rw [htext, List.append_nil]
  rw [hnone, hfront.number_decimal hne hfraction (by simp [Lexeme.Stops]),
    if_neg (Lexis.mem_whole.mp hwhole).2.2]
  simp [Nat.add_assoc]

/-- The text that an integer or a decimal is displayed by is one token of its kind, and is read back
as the same number. Decimals have the same text exactly if they are the same number. -/
theorem numbers_read_back (heap : Heap) :
    (∀ n : ℤ,
      tokenize (heap.display (.integer n)) = .ok [⟨.integer, heap.display (.integer n), 0⟩] ∧
      Expr.ofTokens [⟨.integer, heap.display (.integer n), 0⟩] =
        .ok (.literal 0 (.integer n))) ∧
    (∀ d : Decimal,
      tokenize (heap.display (.decimal d)) = .ok [⟨.decimal, heap.display (.decimal d), 0⟩] ∧
      ∃ found : Decimal, Expr.ofTokens [⟨.decimal, heap.display (.decimal d), 0⟩] =
        .ok (.literal 0 (.decimal found)) ∧ found.toRat = d.toRat) ∧
    ∀ a b : Decimal,
      heap.display (.decimal a) = heap.display (.decimal b) ↔ a.toRat = b.toRat := by
  have hinteger (n : ℤ) : heap.display (.integer n) = String.ofList (Numeral.writeInt n) := rfl
  have hdecimal (d : Decimal) : heap.display (.decimal d) = String.ofList d.write := rfl
  simp only [hinteger, hdecimal, String.ofList_inj]
  refine ⟨fun n => ⟨?_, ?_⟩, fun d => ?_, fun a b => ⟨?_, ?_⟩⟩
  · exact tokenize_of_integer (Lexis.writeInt_mem_integer n)
  · apply Expr.ofTokens_literal
    simp only [Token.literal, String.toList_ofList, Lexis.readInt?_writeInt]
  · obtain ⟨hmem, found, hread, hvalue⟩ := Lexis.readsAs_write d
    refine ⟨tokenize_of_decimal hmem, found, ?_, hvalue⟩
    apply Expr.ofTokens_literal
    simp only [Token.literal, String.toList_ofList, hread]
  · intro hsame
    obtain ⟨_, found, hread, hvalue⟩ := Lexis.readsAs_write a
    obtain ⟨_, found', hread', hvalue'⟩ := Lexis.readsAs_write b
    rw [hsame, hread'] at hread
    cases hread
    rw [← hvalue, hvalue']
  · exact Decimal.write_eq_of_toRat_eq

/-- A power of ten at a negative scale, and a fraction with zeros on both of its sides. -/
example : Heap.empty.display (.decimal ⟨-5, -3⟩) = "-5000.0" ∧
    Heap.empty.display (.decimal ⟨-250, 5⟩) = "-0.0025" := by
  decide +kernel

end Scriptlet
