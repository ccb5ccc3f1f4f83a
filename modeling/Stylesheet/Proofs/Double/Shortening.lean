import Mathlib.Data.List.DropRight
import Stylesheet.Double.Decimal
import Stylesheet.Proofs.Double.Numeral

/-!
# Shortest decimal texts

A number is printed by shortening the text with a fixed count of decimals.

**Theorem (`Double.decimalText_shortens`).** The shortened text stands for the same number. It has
no point without a digit behind it and no zero at the end of a fraction, and it is never `-0`. The
digits in front of the point stay, except for the single zero of a fraction below one, where it is
asked to leave it out; this zero is all that the two ways of printing differ in.

Each step of shortening changes a text, and each is compared with a change of a numeral: leaving out
the zeros at the end of the fraction (`Numeral.trimmed`), the sign of zero (`Numeral.unsigned`), the
zero in front of the point (`Numeral.bare`). On numerals it is plain what a step keeps. On texts the
steps depend on each other: the point keeps the zeros of a whole number apart from those of a
fraction, so a text without a point must not be trimmed, and `-0` shows only after trimming.
-/

namespace Stylesheet

namespace Numeral

variable {n : Numeral}

/-! ## Zeros at the end of the fraction -/

/-- The numeral without zeros at the end of its fraction. -/
def trimmed (n : Numeral) : Numeral :=
  { n with
    fraction := n.fraction.rdropWhile (· == '0')
    fraction_digits := fun c hc =>
      n.fraction_digits c ((List.rdropWhile_prefix _ _).subset hc) }

theorem rdropWhile_append_cons {c d : Char} (h : d ≠ c) (front rest : List Char) :
    (front ++ d :: rest).rdropWhile (· == c) = front ++ d :: rest.rdropWhile (· == c) := by
  induction rest using List.reverseRecOn with
  | nil => rw [List.rdropWhile_nil, List.rdropWhile_concat_neg _ _ _ (by simpa using h)]
  | append_singleton rest e ih =>
    rw [← List.cons_append, ← List.append_assoc, List.rdropWhile_concat, List.rdropWhile_concat]
    split_ifs
    · exact ih
    · simp

theorem point_not_mem : '.' ∉ n.sign ++ n.whole := by
  have hwhole : '.' ∉ n.whole := fun h => absurd (n.whole_digits '.' h) (by decide)
  cases hn : n.negative <;> simp [sign, hn, hwhole]

theorem point_not_mem_fraction : '.' ∉ n.fraction := fun h =>
  absurd (n.fraction_digits '.' h) (by decide)

theorem text_eq : n.text = n.sign ++ n.whole ++ n.pointed := (List.append_assoc _ _ _).symm

/-- A point at the end of a text goes, and any other character stays. -/
theorem dropTrailing_point (n : Numeral) :
    Double.dropTrailing '.' (n.sign ++ n.whole ++ '.' :: n.fraction) = n.text := by
  show (n.sign ++ n.whole ++ '.' :: n.fraction).rdropWhile (· == '.') = n.text
  rw [text_eq]
  -- The point goes only if it is the last character, and what stands in front of it never goes.
  by_cases h : n.fraction = []
  · rw [h, pointed_eq_nil h, List.rdropWhile_concat_pos _ _ _ (by simp), List.append_nil,
      List.rdropWhile_eq_self_iff]
    intro hne hlast
    have hmem := List.getLast_mem hne
    rw [beq_iff_eq.1 hlast] at hmem
    exact point_not_mem hmem
  · rw [pointed_eq_cons h, List.rdropWhile_eq_self_iff]
    intro _ hlast
    have hmem := List.getLast_mem h
    rw [List.getLast_append_of_ne_nil _ (by simp), List.getLast_cons h, beq_iff_eq] at hlast
    rw [hlast] at hmem
    exact point_not_mem_fraction hmem

theorem trimFraction_text (n : Numeral) : Double.trimFraction n.text = n.trimmed.text := by
  rw [Double.trimFraction, text_eq]
  by_cases h : n.fraction = []
  · have hpoint : '.' ∉ n.sign ++ n.whole ++ n.pointed := by
      simpa [pointed_eq_nil h] using point_not_mem (n := n)
    rw [if_neg hpoint]
    simp [trimmed, text, sign, pointed, h]
  · have hzeros : Double.dropTrailing '0' (n.sign ++ n.whole ++ '.' :: n.fraction) =
        n.sign ++ n.whole ++ '.' :: n.trimmed.fraction :=
      rdropWhile_append_cons (by decide) _ _
    rw [pointed_eq_cons h, if_pos (by simp), hzeros]
    exact dropTrailing_point n.trimmed

theorem value_trimmed (n : Numeral) : n.trimmed.value = n.value := by
  have hsplit : n.trimmed.fraction ++ n.fraction.rtakeWhile (· == '0') = n.fraction :=
    List.rdropWhile_append_rtakeWhile
  have hzeros : digitsValue (n.fraction.rtakeWhile (· == '0')) = 0 := by
    rw [digitsValue_eq_zero_iff fun c hc =>
      n.fraction_digits c ((List.rtakeWhile_suffix _ _).subset hc)]
    exact fun c hc => by simpa using List.mem_rtakeWhile_imp hc
  have hmagnitude : n.trimmed.magnitude = n.magnitude := by
    show (digitsValue n.whole : ℚ) + digitsValue n.trimmed.fraction / 10 ^ _ = n.magnitude
    rw [magnitude, ← hsplit, digitsValue_append, hzeros, List.length_append, pow_add]
    push_cast
    field_simp
    ring
  rw [value, value, hmagnitude]
  rfl

/-! ## The sign of zero -/

/-- The numeral without a sign, if it is zero and has no fraction. -/
def unsigned (n : Numeral) : Numeral :=
  if n.whole = ['0'] ∧ n.fraction = [] then { n with negative := false } else n

theorem text_eq_minusZero_iff :
    n.text = ['-', '0'] ↔ n.negative = true ∧ n.whole = ['0'] ∧ n.fraction = [] := by
  constructor
  · intro htext
    have hwhole : n.whole = ['0'] := by rw [← wholeDigits_text, htext]; rfl
    rw [text, hwhole] at htext
    by_cases hfraction : n.fraction = []
    · cases hn : n.negative <;> simp_all [sign]
    · cases hn : n.negative <;> simp [sign, hn, pointed_eq_cons hfraction] at htext
  · rintro ⟨hn, hwhole, hfraction⟩
    simp [text, sign, hn, hwhole, pointed_eq_nil hfraction]

theorem unsignZero_text (n : Numeral) : Double.unsignZero n.text = n.unsigned.text := by
  rw [Double.unsignZero, unsigned]
  by_cases hzero : n.whole = ['0'] ∧ n.fraction = []
  · rw [if_pos hzero]
    cases hn : n.negative <;> simp [text, sign, pointed, hn, hzero]
  · rw [if_neg hzero, if_neg fun htext => hzero (text_eq_minusZero_iff.1 htext).2]

theorem value_unsigned (n : Numeral) : n.unsigned.value = n.value := by
  unfold unsigned
  split_ifs with hzero
  · simp [value, magnitude, hzero, digitsValue, Nat.ofDigitChars_cons]
  · rfl

/-! ## The zero in front of the point -/

/-- The numeral without the zero in front of a fraction. -/
def bare (n : Numeral) : Numeral :=
  if n.whole = ['0'] ∧ n.fraction ≠ [] then { n with whole := [], whole_digits := by simp } else n

theorem dropLeadingZero_text (n : Numeral) : Double.dropLeadingZero n.text = n.bare.text := by
  unfold bare
  split_ifs with hfraction
  · show Double.dropLeadingZero n.text = n.sign ++ n.pointed
    rw [text, hfraction.1, pointed_eq_cons hfraction.2]
    cases hn : n.negative <;> simp [sign, hn, Double.dropLeadingZero]
  · -- A text whose only digit in front is a zero ends with it.
    have hends (h : wholeDigits n.text = ['0']) : n.text = n.sign ++ ['0'] := by
      rw [wholeDigits_text] at h
      rw [text, h, pointed_eq_nil (by_contra fun hne => hfraction ⟨h, hne⟩), List.append_nil]
    unfold Double.dropLeadingZero
    split
    · next rest heq =>
      have htext := hends (by rw [heq]; rfl)
      cases hn : n.negative <;> simp [heq, sign, hn] at htext
    · next rest heq =>
      have htext := hends (by rw [heq]; rfl)
      cases hn : n.negative <;> simp [heq, sign, hn] at htext
    · rfl

theorem value_bare (n : Numeral) : n.bare.value = n.value := by
  unfold bare
  split_ifs with hfraction
  · simp [value, magnitude, hfraction.1, digitsValue, Nat.ofDigitChars_cons]
  · rfl

/-! ## All steps -/

/-- The numeral that is printed, with or without the zero in front of a fraction. -/
def shortened (n : Numeral) (leadingZero : Bool) : Numeral :=
  if leadingZero then n.trimmed.unsigned else n.trimmed.unsigned.bare

@[simp] theorem whole_unsigned (n : Numeral) : n.unsigned.whole = n.whole := by
  unfold unsigned
  split_ifs <;> rfl

@[simp] theorem fraction_unsigned (n : Numeral) : n.unsigned.fraction = n.fraction := by
  unfold unsigned
  split_ifs <;> rfl

@[simp] theorem fraction_bare (n : Numeral) : n.bare.fraction = n.fraction := by
  unfold bare
  split_ifs <;> rfl

theorem whole_bare (n : Numeral) :
    n.bare.whole = if n.whole = ['0'] ∧ n.fraction ≠ [] then [] else n.whole := by
  unfold bare
  split_ifs <;> rfl

theorem text_shortened (n : Numeral) (leadingZero : Bool) :
    (n.shortened leadingZero).text =
      let text := Double.unsignZero (Double.trimFraction n.text)
      if leadingZero then text else Double.dropLeadingZero text := by
  rw [shortened, trimFraction_text, unsignZero_text]
  cases leadingZero
  · exact (dropLeadingZero_text _).symm
  · rfl

theorem value_shortened (n : Numeral) (leadingZero : Bool) :
    (n.shortened leadingZero).value = n.value := by
  cases leadingZero
  · exact (value_bare _).trans ((value_unsigned _).trans (value_trimmed n))
  · exact (value_unsigned _).trans (value_trimmed n)

theorem fraction_shortened (n : Numeral) (leadingZero : Bool) :
    (n.shortened leadingZero).fraction = n.trimmed.fraction := by
  cases leadingZero <;> simp [shortened]

/-- A fraction below one is seen from what is left of the digits behind the point. -/
theorem isFraction_value_iff_trimmed (h : n.IsPlain) :
    IsFraction n.value ↔ n.whole = ['0'] ∧ n.trimmed.fraction ≠ [] := by
  have hzeros : n.trimmed.fraction = [] ↔ ∀ d ∈ n.fraction, d = '0' := by
    simp [trimmed, List.rdropWhile_eq_nil_iff]
  rw [isFraction_value_iff h, ne_eq, hzeros]

theorem whole_shortened (h : n.IsPlain) (leadingZero : Bool) :
    (n.shortened leadingZero).whole =
      if leadingZero = false ∧ IsFraction n.value then [] else n.whole := by
  cases leadingZero
  · simp [shortened, whole_bare, isFraction_value_iff_trimmed h, trimmed]
  · simp [shortened, trimmed]

theorem text_shortened_ne_minusZero (n : Numeral) (leadingZero : Bool) :
    (n.shortened leadingZero).text ≠ ['-', '0'] := by
  have hunsigned : n.trimmed.unsigned.text ≠ ['-', '0'] := by
    rw [ne_eq, text_eq_minusZero_iff, unsigned]
    split_ifs with hzero
    · simp
    · exact fun h => hzero h.2
  cases leadingZero
  · show n.trimmed.unsigned.bare.text ≠ ['-', '0']
    rw [bare]
    split_ifs with hfraction
    · simp [text_eq_minusZero_iff]
    · exact hunsigned
  · exact hunsigned

end Numeral

/-- What it means that a decimal text of the number `r` was shortened. -/
structure Shortened (r : ℚ) (leadingZero : Bool) (fixed short : List Char) : Prop where
  /-- It still stands for the number. -/
  value : decimalValue? short = some r
  /-- Digits stand behind a point, and the last of them is not zero. -/
  point : ∀ front rest, short = front ++ '.' :: rest →
    (∀ c ∈ rest, c.isDigit = true) ∧ ∃ c, rest.getLast? = some c ∧ c ≠ '0'
  /-- Zero has no sign. -/
  ne_minusZero : short ≠ ['-', '0']
  /-- The digits in front of the point stay, unless they are the zero of a fraction that is to be
  left out. -/
  whole : wholeDigits short =
    if leadingZero = false ∧ IsFraction r then [] else wholeDigits fixed

namespace Numeral

variable {n : Numeral}

/-- What stands behind a point is the fraction. -/
theorem eq_fraction_of_text {front rest : List Char} (h : n.text = front ++ '.' :: rest) :
    n.fraction ≠ [] ∧ rest = n.fraction := by
  rw [text_eq] at h
  by_cases hfraction : n.fraction = []
  · have hmem : '.' ∈ n.sign ++ n.whole := by
      rw [pointed_eq_nil hfraction, List.append_nil] at h
      simp [h]
    exact absurd hmem point_not_mem
  · rw [pointed_eq_cons hfraction,
      List.append_cons_inj_of_notMem point_not_mem point_not_mem_fraction] at h
    exact ⟨hfraction, h.2.2.symm⟩

theorem shortened_spec (h : n.IsPlain) (leadingZero : Bool) :
    Shortened n.value leadingZero n.text (n.shortened leadingZero).text where
  value := by
    have hfilled :
        (n.shortened leadingZero).whole ≠ [] ∨ (n.shortened leadingZero).fraction ≠ [] := by
      rw [whole_shortened h, fraction_shortened]
      split_ifs with hbare
      · exact .inr ((isFraction_value_iff_trimmed h).1 hbare.2).2
      · exact .inl h.1
    rw [decimalValue?_text hfilled, value_shortened]
  point := by
    intro front rest htext
    obtain ⟨hfraction, rfl⟩ := eq_fraction_of_text htext
    refine ⟨(n.shortened leadingZero).fraction_digits, ?_⟩
    rw [fraction_shortened] at hfraction ⊢
    refine ⟨_, List.getLast?_eq_getLast_of_ne_nil hfraction, ?_⟩
    have hlast := List.rdropWhile_last_not _ n.fraction hfraction
    simpa [trimmed] using hlast
  ne_minusZero := text_shortened_ne_minusZero n leadingZero
  whole := by rw [wholeDigits_text, wholeDigits_text, whole_shortened h]

/-- The two ways of printing differ in the zero in front of a fraction. -/
theorem text_shortened_false (h : n.IsPlain) :
    if IsFraction n.value then
      ∃ sign rest, (sign = [] ∨ sign = ['-']) ∧
        (n.shortened true).text = sign ++ '0' :: '.' :: rest ∧
        (n.shortened false).text = sign ++ '.' :: rest
    else (n.shortened false).text = (n.shortened true).text := by
  have hfraction : n.trimmed.unsigned.whole = ['0'] ∧ n.trimmed.unsigned.fraction ≠ [] ↔
      IsFraction n.value := by
    rw [whole_unsigned, fraction_unsigned, isFraction_value_iff_trimmed h]
    rfl
  simp only [shortened, Bool.false_eq_true, if_false, if_true, ← hfraction]
  generalize n.trimmed.unsigned = m
  rw [bare]
  split_ifs with hbare
  · refine ⟨m.sign, m.fraction, ?_, ?_, ?_⟩
    · cases hn : m.negative <;> simp [sign, hn]
    · rw [text, hbare.1, pointed_eq_cons hbare.2]
      rfl
    · show m.sign ++ m.pointed = _
      rw [pointed_eq_cons hbare.2]
  · rfl

end Numeral

/-! ## Fixed decimals -/

namespace Double

/-- A number that is written in digits has no leading zeros. -/
theorem toDigits_of_head? {m : Nat} (h : (Nat.toDigits 10 m).head? = some '0') :
    Nat.toDigits 10 m = ['0'] := by
  induction m using Nat.strong_induction_on with
  | _ m ih =>
    by_cases hm : m < 10
    · rw [Nat.toDigits_of_lt_base hm] at h ⊢
      simpa using h
    · rw [Nat.toDigits_of_base_le (by decide) (by omega),
        List.head?_append_of_ne_nil _ Nat.toDigits_ne_nil] at h
      have hrest := congrArg (Nat.ofDigitChars 10 · 0) (ih (m / 10) (by omega) h)
      have hzero : m / 10 = 0 := by simpa [Nat.ofDigitChars_cons] using hrest
      omega

theorem isDigit_of_mem_padDigits {width m : Nat} {c : Char} (h : c ∈ padDigits width m) :
    c.isDigit = true := by
  rcases List.mem_append.1 h with hzero | hdigit
  · rw [List.eq_of_mem_replicate hzero]
    decide
  · exact Nat.isDigit_of_mem_toDigits (by decide) (by decide) hdigit

theorem length_padDigits {width m : Nat} (hwidth : 0 < width) (h : m < 10 ^ width) :
    (padDigits width m).length = width := by
  have hlength := (Nat.length_toDigits_le_iff (by decide) hwidth).2 h
  simp only [padDigits, List.length_append, List.length_replicate]
  omega

/-- The parts of the text with a fixed count of decimals. -/
def fixedNumeral (x : Double) (places : Nat) : Numeral where
  negative := x.isNegative
  whole := Nat.toDigits 10 (scaled x.dyadic places / Nat.pow 10 places)
  fraction := if places = 0 then [] else
    padDigits places (scaled x.dyadic places % Nat.pow 10 places)
  whole_digits := fun c hc => Nat.isDigit_of_mem_toDigits (by decide) (by decide) hc
  fraction_digits := by
    intro c hc
    split_ifs at hc with hplaces
    · cases hc
    · exact isDigit_of_mem_padDigits hc

theorem isPlain_fixedNumeral (x : Double) (places : Nat) : (x.fixedNumeral places).IsPlain :=
  ⟨Nat.toDigits_ne_nil, toDigits_of_head?⟩

theorem length_fraction_fixedNumeral (x : Double) (places : Nat) :
    (x.fixedNumeral places).fraction.length = places := by
  by_cases hplaces : places = 0
  · simp [fixedNumeral, hplaces]
  · have hlt : scaled x.dyadic places % Nat.pow 10 places < 10 ^ places :=
      Nat.mod_lt _ (Nat.pow_pos (by decide))
    simpa [fixedNumeral, hplaces] using length_padDigits (Nat.pos_of_ne_zero hplaces) hlt

theorem fixed_eq_text (x : Double) (places : Nat) :
    x.fixed places = (x.fixedNumeral places).text := by
  have hlength := length_fraction_fixedNumeral x places
  by_cases hplaces : places = 0
  · simp [fixed, Numeral.text, Numeral.sign, Numeral.pointed, fixedNumeral, hplaces]
  · have hfraction : (x.fixedNumeral places).fraction ≠ [] := by
      intro hnil
      exact hplaces (by simpa [hnil] using hlength.symm)
    rw [Numeral.text, Numeral.pointed_eq_cons hfraction]
    simp [fixed, Numeral.sign, fixedNumeral, hplaces]

/-- Finite numbers are printed by shortening the text with a fixed count of decimals. -/
theorem toList_decimalText {x : Double} (hx : x.isFinite = true) (places : Nat)
    (leadingZero : Bool) :
    (x.decimalText places leadingZero).toList =
      ((x.fixedNumeral places).shortened leadingZero).text := by
  have hmagnitude : x.magnitude < infMagnitude := by simpa [isFinite] using hx
  have hnan : ¬ x.isNaN = true := by
    simp [isNaN, hmagnitude.le]
  have hinfinite : ¬ x.isInfinite = true := by
    simp [isInfinite, hmagnitude.ne]
  rw [Numeral.text_shortened, ← fixed_eq_text, decimalText, if_neg hnan, if_neg hinfinite,
    String.toList_ofList]

/-- **Shortening a decimal text keeps what it says.** The text with a fixed count of decimals is
that of a number without leading zeros. For either way of printing, the short text stands for that
number, has no empty fraction and no zero at the end of one, is not `-0`, and has all digits in
front of the point, except for the single zero of a fraction below one that was to be left out. -/
theorem decimalText_shortens {x : Double} (hx : x.isFinite = true) (places : Nat) :
    ∃ n : Numeral, x.fixed places = n.text ∧ n.IsPlain ∧ n.fraction.length = places ∧
      decimalValue? (x.fixed places) = some n.value ∧
      (∀ leadingZero, Shortened n.value leadingZero (x.fixed places)
        (x.decimalText places leadingZero).toList) ∧
      (IsFraction n.value → wholeDigits (x.fixed places) = ['0']) ∧
      if IsFraction n.value then
        ∃ sign rest, (sign = [] ∨ sign = ['-']) ∧
          (x.decimalText places true).toList = sign ++ '0' :: '.' :: rest ∧
          (x.decimalText places false).toList = sign ++ '.' :: rest
      else x.decimalText places false = x.decimalText places true := by
  have hplain := isPlain_fixedNumeral x places
  refine ⟨x.fixedNumeral places, fixed_eq_text x places, hplain,
    length_fraction_fixedNumeral x places, ?_, fun leadingZero => ?_, fun hfraction => ?_, ?_⟩
  · rw [fixed_eq_text, Numeral.decimalValue?_text (.inl hplain.1)]
  · rw [fixed_eq_text, toList_decimalText hx]
    exact Numeral.shortened_spec hplain leadingZero
  · rw [fixed_eq_text, Numeral.wholeDigits_text]
    exact ((Numeral.isFraction_value_iff hplain).1 hfraction).1
  · rw [← String.toList_inj, toList_decimalText hx, toList_decimalText hx]
    exact Numeral.text_shortened_false hplain

/-- One half with a minus. -/
def minusHalf : Double := ⟨0xbfe0000000000000⟩

/-- Of `-0.50`, the short text keeps the sign, the point and the five. -/
theorem decimalText_shortens_minusHalf :
    minusHalf.isFinite = true ∧ minusHalf.fixed 2 = ['-', '0', '.', '5', '0'] ∧
      (minusHalf.decimalText 2 false).toList = ['-', '.', '5'] ∧
      decimalValue? ['-', '.', '5'] = decimalValue? ['-', '0', '.', '5', '0'] := by
  have hfixed : minusHalf.fixed 2 = ['-', '0', '.', '5', '0'] := by decide
  have hshort : (minusHalf.decimalText 2 false).toList = ['-', '.', '5'] := by decide
  obtain ⟨n, -, -, -, hvalue, hshortened, -⟩ :=
    decimalText_shortens (x := minusHalf) (by decide) 2
  refine ⟨by decide, hfixed, hshort, ?_⟩
  rw [← hfixed, ← hshort, hvalue, (hshortened false).value]

end Double

end Stylesheet
