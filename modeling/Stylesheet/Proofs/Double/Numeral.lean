import Mathlib.Algebra.Order.Field.Rat
import Mathlib.Data.List.TakeWhile
import Mathlib.Tactic.FieldSimp
import Mathlib.Tactic.Linarith
import Mathlib.Tactic.Positivity
import Mathlib.Tactic.Ring
import Stylesheet.Text.Blank

/-!
# Decimal numerals

A decimal text is read in two ways. **As a number (`decimalValue?`)**: a minus, a run of digits, and
behind a point another run, of which only one may be empty, and the second only without its point.
**By its parts (`Numeral`)**: the sign, the digits of the whole and the digits of the fraction. A
numeral is written as a text without doubt about where its parts end, so the text stands for the
number of the numeral (`Numeral.decimalValue?_text`).

Numerals are where a change of the text can be followed. Whether a number is a fraction below one is
seen from the digits if the whole has no leading zeros (`Numeral.isFraction_value_iff`).
-/

namespace Stylesheet

/-! ## Runs of digits -/

/-- The number that a run of digits stands for; no digits stand for zero. -/
def digitsValue (ds : List Char) : Nat := Nat.ofDigitChars 10 ds 0

theorem digitsValue_append (ds es : List Char) :
    digitsValue (ds ++ es) = 10 ^ es.length * digitsValue ds + digitsValue es := by
  rw [digitsValue, Nat.ofDigitChars_append, Nat.ofDigitChars_eq_ofDigitChars_zero]
  rfl

theorem digitsValue_cons (d : Char) (ds : List Char) :
    digitsValue (d :: ds) = 10 ^ ds.length * (d.toNat - '0'.toNat) + digitsValue ds := by
  rw [← List.singleton_append, digitsValue_append]
  simp [digitsValue, Nat.ofDigitChars_cons]

/-- A digit is worth less than ten, and nothing only if it is the zero. -/
theorem digit_bounds {d : Char} (h : d.isDigit = true) :
    d.toNat - '0'.toNat < 10 ∧ (d.toNat - '0'.toNat = 0 ↔ d = '0') := by
  obtain ⟨hlow, hhigh⟩ := Char.isDigit_iff_toNat.1 h
  have hzero : '0'.toNat = 48 := rfl
  have hnine : '9'.toNat = 57 := rfl
  refine ⟨by omega, fun hd => ?_, fun hd => by simp [hd]⟩
  exact Char.toNat_inj.1 (by omega)

theorem digitsValue_lt {ds : List Char} (h : ∀ d ∈ ds, d.isDigit = true) :
    digitsValue ds < 10 ^ ds.length := by
  induction ds with
  | nil => simp [digitsValue]
  | cons d ds ih =>
    have hd := (digit_bounds (h d List.mem_cons_self)).1
    have hds := ih fun e he => h e (List.mem_cons_of_mem d he)
    rw [digitsValue_cons, List.length_cons, pow_succ]
    calc 10 ^ ds.length * (d.toNat - '0'.toNat) + digitsValue ds
        < 10 ^ ds.length * (d.toNat - '0'.toNat) + 10 ^ ds.length := by omega
      _ = 10 ^ ds.length * (d.toNat - '0'.toNat + 1) := by ring
      _ ≤ 10 ^ ds.length * 10 := Nat.mul_le_mul_left _ hd

theorem digitsValue_eq_zero_iff {ds : List Char} (h : ∀ d ∈ ds, d.isDigit = true) :
    digitsValue ds = 0 ↔ ∀ d ∈ ds, d = '0' := by
  induction ds with
  | nil => simp [digitsValue]
  | cons d ds ih =>
    have hd := (digit_bounds (h d List.mem_cons_self)).2
    have hds := ih fun e he => h e (List.mem_cons_of_mem d he)
    have hpow : 10 ^ ds.length ≠ 0 := by positivity
    rw [digitsValue_cons, Nat.add_eq_zero_iff, Nat.mul_eq_zero, or_iff_right hpow, hd, hds,
      List.forall_mem_cons]

/-! ## Reading a text -/

/-- The number of a decimal text without a sign. A point needs digits behind it. -/
def unsignedValue? (text : List Char) : Option ℚ :=
  let whole := text.takeWhile Char.isDigit
  match text.dropWhile Char.isDigit with
  | [] => if whole.isEmpty then none else some (digitsValue whole)
  | c :: fraction =>
    if c == '.' && !fraction.isEmpty && fraction.all Char.isDigit then
      some (digitsValue whole + digitsValue fraction / 10 ^ fraction.length)
    else none

/-- The number of a decimal text. -/
def decimalValue? : List Char → Option ℚ
  | '-' :: text => (unsignedValue? text).map (- ·)
  | text => unsignedValue? text

theorem decimalValue?_of_head? {text : List Char} (h : ∀ c ∈ text.head?, c ≠ '-') :
    decimalValue? text = unsignedValue? text := by
  unfold decimalValue?
  split
  · exact absurd rfl (h '-' rfl)
  · rfl

/-- The digits of a decimal text in front of its point. -/
def wholeDigits (text : List Char) : List Char :=
  (text.dropWhile (· == '-')).takeWhile Char.isDigit

/-- Whether a number is a fraction below one, and not zero. -/
def IsFraction (r : ℚ) : Prop := r ≠ 0 ∧ |r| < 1

instance (r : ℚ) : Decidable (IsFraction r) := inferInstanceAs (Decidable (r ≠ 0 ∧ |r| < 1))

/-! ## Parts of a text -/

/-- The parts of a decimal text. -/
structure Numeral where
  negative : Bool
  whole : List Char
  fraction : List Char
  whole_digits : ∀ c ∈ whole, c.isDigit = true
  fraction_digits : ∀ c ∈ fraction, c.isDigit = true

namespace Numeral

variable (n : Numeral)

/-- The sign as it is written. -/
def sign : List Char := if n.negative then ['-'] else []

/-- The point and the digits behind it, if there are any. -/
def pointed : List Char := if n.fraction = [] then [] else '.' :: n.fraction

/-- The numeral as it is written. -/
def text : List Char := n.sign ++ (n.whole ++ n.pointed)

/-- The number without its sign. -/
def magnitude : ℚ := digitsValue n.whole + digitsValue n.fraction / 10 ^ n.fraction.length

/-- The number. -/
def value : ℚ := if n.negative then -n.magnitude else n.magnitude

variable {n}

theorem pointed_eq_nil (h : n.fraction = []) : n.pointed = [] := if_pos h

theorem pointed_eq_cons (h : n.fraction ≠ []) : n.pointed = '.' :: n.fraction := if_neg h

theorem takeWhile_isDigit : (n.whole ++ n.pointed).takeWhile Char.isDigit = n.whole := by
  rw [List.takeWhile_append_of_pos n.whole_digits]
  by_cases h : n.fraction = []
  · simp [pointed_eq_nil h]
  · simp [pointed_eq_cons h, show Char.isDigit '.' = false by decide]

theorem dropWhile_isDigit : (n.whole ++ n.pointed).dropWhile Char.isDigit = n.pointed := by
  rw [List.dropWhile_append_of_pos n.whole_digits]
  by_cases h : n.fraction = []
  · simp [pointed_eq_nil h]
  · simp [pointed_eq_cons h, show Char.isDigit '.' = false by decide]

theorem unsignedValue?_eq (h : n.whole ≠ [] ∨ n.fraction ≠ []) :
    unsignedValue? (n.whole ++ n.pointed) = some n.magnitude := by
  rw [unsignedValue?, takeWhile_isDigit, dropWhile_isDigit, magnitude]
  by_cases hfraction : n.fraction = []
  · have hwhole : n.whole ≠ [] := h.resolve_right (· hfraction)
    simp [pointed_eq_nil hfraction, hfraction, hwhole, digitsValue]
  · have hdigits := n.fraction_digits
    simpa [pointed_eq_cons hfraction, hfraction] using hdigits

/-- Without its sign, a numeral does not begin with a minus. -/
theorem head?_ne_minus : ∀ c ∈ (n.whole ++ n.pointed).head?, c ≠ '-' := by
  intro c hc
  have hdigits := n.whole_digits
  cases hwhole : n.whole with
  | nil =>
    by_cases h : n.fraction = []
    · simp [hwhole, pointed_eq_nil h] at hc
    · obtain rfl : '.' = c := by simpa [hwhole, pointed_eq_cons h] using hc
      decide
  | cons d whole =>
    obtain rfl : d = c := by simpa [hwhole] using hc
    rintro rfl
    exact absurd (hdigits '-' (by simp [hwhole])) (by decide)

/-- A written numeral stands for its number. -/
theorem decimalValue?_text (h : n.whole ≠ [] ∨ n.fraction ≠ []) :
    decimalValue? n.text = some n.value := by
  have hmagnitude := unsignedValue?_eq h
  rw [text, value]
  cases hn : n.negative with
  | true => simp [sign, hn, decimalValue?, hmagnitude]
  | false =>
    rw [sign, hn, if_neg (by simp), List.nil_append, if_neg (by simp),
      decimalValue?_of_head? head?_ne_minus, hmagnitude]

theorem wholeDigits_text : wholeDigits n.text = n.whole := by
  have hminus : n.text.dropWhile (· == '-') = n.whole ++ n.pointed := by
    have hhead : (n.whole ++ n.pointed).dropWhile (· == '-') = n.whole ++ n.pointed := by
      rw [Text.dropWhile_eq_self_iff]
      simpa [Option.any_eq_false] using head?_ne_minus
    cases hn : n.negative <;> simpa [text, sign, hn] using hhead
  rw [wholeDigits, hminus, takeWhile_isDigit]

/-! ## Fractions below one -/

variable (n) in
/-- Whether the digits in front of the point are those of a number, without leading zeros. -/
def IsPlain : Prop := n.whole ≠ [] ∧ (n.whole.head? = some '0' → n.whole = ['0'])

theorem fraction_lt_one : (digitsValue n.fraction : ℚ) / 10 ^ n.fraction.length < 1 := by
  rw [div_lt_one (by positivity)]
  exact_mod_cast digitsValue_lt n.fraction_digits

theorem magnitude_nonneg : 0 ≤ n.magnitude := by
  unfold magnitude
  positivity

theorem abs_value : |n.value| = n.magnitude := by
  unfold value
  split_ifs <;> simp [abs_of_nonneg magnitude_nonneg]

theorem value_eq_zero_iff : n.value = 0 ↔ n.magnitude = 0 := by
  rw [← abs_eq_zero, abs_value]

/-- A number without leading zeros is a fraction below one exactly if a single zero stands in front
of the point and another digit than zero behind it. -/
theorem isFraction_value_iff (h : n.IsPlain) :
    IsFraction n.value ↔ n.whole = ['0'] ∧ ¬ ∀ d ∈ n.fraction, d = '0' := by
  have hfraction := fraction_lt_one (n := n)
  rw [IsFraction, ne_eq, value_eq_zero_iff, abs_value, magnitude]
  -- The digits behind the point add less than one, so those in front of it decide.
  by_cases hzero : digitsValue n.whole = 0
  · have hwhole : n.whole = ['0'] := by
      obtain ⟨c, rest, hcons⟩ := List.exists_cons_of_ne_nil h.1
      have hc := (digitsValue_eq_zero_iff n.whole_digits).1 hzero c (by simp [hcons])
      exact h.2 (by simp [hcons, hc])
    rw [hzero, ← digitsValue_eq_zero_iff n.fraction_digits]
    simpa [hwhole] using fun _ => hfraction
  · have hone : (1 : ℚ) ≤ digitsValue n.whole := by exact_mod_cast Nat.one_le_iff_ne_zero.2 hzero
    have hnonneg : (0 : ℚ) ≤ digitsValue n.fraction / 10 ^ n.fraction.length := by positivity
    refine iff_of_false (fun hlt => ?_) (fun hwhole => hzero ?_)
    · linarith [hlt.2]
    · rw [hwhole.1]
      rfl

end Numeral

end Stylesheet
