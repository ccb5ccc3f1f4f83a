import Stylesheet.Proofs.Double.One
import Stylesheet.Proofs.Double.Remainder
import Stylesheet.Proofs.Units.Worth

/-!
# What a word stands for

A word is an integer times a power of two (`Double.dyadic`), and of the many such pairs for one
number it has the canonical one: with 53 binary digits, or with the least exponent
(`Dyadic.IsCanonical`).

**Words.** A canonical pair is the pair of the word with its magnitude
(`Double.dyadic_of_magnitude_eq`), and every number that fits has one (`Double.toRat_ofDyadic`). The
machine reads the same pair (`Double.unpacked_eq`).

**Order.** Words are ordered as the numbers they stand for (`Double.toRat_lt_iff`), so comparisons
of words are comparisons of numbers (`Double.lt_iff`, `Double.le_iff`).
-/

namespace Stylesheet.Double

variable {x y : Double} {d : Dyadic}

/-! ## Canonical pairs -/

namespace Dyadic

/-- The number of a pair. -/
def value (d : Dyadic) : ℚ := d.significand * 2 ^ d.exponent

/-- The pair that a word has: as many digits as fit, or the least exponent. -/
structure IsCanonical (d : Dyadic) : Prop where
  least : minExponent ≤ d.exponent
  fits : d.significand < 2 ^ 53
  full : 2 ^ 52 ≤ d.significand ∨ d.exponent = minExponent

/-- The magnitude of the word of a canonical pair. -/
def word (d : Dyadic) : Nat := d.significand + (d.exponent - minExponent).toNat * 2 ^ 52

theorem value_nonneg (d : Dyadic) : 0 ≤ d.value := by
  unfold value
  positivity

end Dyadic

theorem isCanonical_dyadic (x : Double) : x.dyadic.IsCanonical := by
  have hmod : x.magnitude % 2 ^ 52 < 2 ^ 52 := Nat.mod_lt _ (by decide)
  by_cases h : x.magnitude / 2 ^ 52 = 0
  · rw [dyadic_of_field_eq_zero h]
    exact ⟨le_rfl, by dsimp only; omega, .inr rfl⟩
  · rw [dyadic_of_field_ne_zero h]
    exact ⟨by dsimp only; omega, by dsimp only; omega, .inl (by dsimp only; omega)⟩

/-- **A canonical pair is the pair of its word.** -/
theorem dyadic_of_magnitude_eq (hd : d.IsCanonical) (h : x.magnitude = d.word) : x.dyadic = d := by
  obtain ⟨hleast, hfits, hfull⟩ := hd
  obtain ⟨significand, exponent⟩ := d
  dsimp only [Dyadic.word] at h hleast hfits hfull
  by_cases hsmall : significand < 2 ^ 52
  · obtain rfl : exponent = minExponent := hfull.resolve_left (by omega)
    rw [dyadic_of_field_eq_zero (by omega), h, Int.sub_self]
    rfl
  · obtain ⟨k, hk⟩ : ∃ k : Nat, exponent - minExponent = k :=
      ⟨_, (Int.toNat_of_nonneg (by omega)).symm⟩
    rw [hk, Int.toNat_natCast] at h
    have hfield : x.magnitude / 2 ^ 52 = k + 1 := by omega
    have hfraction : x.magnitude % 2 ^ 52 + 2 ^ 52 = significand := by omega
    rw [dyadic_of_field_ne_zero (by omega), hfraction, hfield, Nat.add_sub_cancel]
    congr 1
    omega

theorem dyadic_congr (h : x.magnitude = y.magnitude) : x.dyadic = y.dyadic := by
  unfold dyadic
  rw [h]

theorem word_dyadic (x : Double) : x.dyadic.word = x.magnitude := by
  by_cases h : x.magnitude / 2 ^ 52 = 0
  · rw [dyadic_of_field_eq_zero h, Dyadic.word, Int.sub_self]
    exact Nat.add_zero _
  · have hcount : (minExponent + (x.magnitude / 2 ^ 52 - 1 : Nat) - minExponent).toNat =
        x.magnitude / 2 ^ 52 - 1 := by omega
    rw [dyadic_of_field_ne_zero h, Dyadic.word]
    dsimp only
    omega

theorem magnitude_ofMagnitude {n : Nat} (s : Bool) (h : n < signWeight) :
    (ofMagnitude s n).magnitude = n := by
  unfold ofMagnitude magnitude signWeight at *
  rw [UInt64.toNat_ofNat']
  split <;> omega

theorem isNegative_ofMagnitude {n : Nat} (s : Bool) (h : n < signWeight) :
    (ofMagnitude s n).isNegative = s := by
  unfold ofMagnitude isNegative signWeight at *
  rw [UInt64.toNat_ofNat']
  cases s with
  | false => exact decide_eq_false (by rw [if_neg Bool.false_ne_true]; omega)
  | true => exact decide_eq_true (by rw [if_pos rfl]; omega)

/-! ## Numbers and their signs -/

/-- One, with the sign of a word. -/
def unit (negative : Bool) : ℚ := if negative then -1 else 1

theorem abs_unit (s : Bool) : |unit s| = 1 := by
  cases s
  · exact abs_one
  · exact (abs_neg 1).trans abs_one

theorem abs_unit_mul {q : ℚ} (s : Bool) (h : 0 ≤ q) : |unit s * q| = q := by
  rw [abs_mul, abs_unit, one_mul, abs_of_nonneg h]

theorem abs_unit_mul_sub (s : Bool) (a q : ℚ) : |unit s * a - unit s * q| = |a - q| := by
  rw [← mul_sub, abs_mul, abs_unit, one_mul]

/-- A number is as far from both signs of another one only if it is zero. -/
theorem eq_zero_of_tie {s s' : Bool} {a q : ℚ} (hne : unit s' * a ≠ unit s * a)
    (htie : |unit s' * a - unit s * q| = |a - q|) : q = 0 := by
  have hopposite : |a + q| = |a - q| := by
    cases s <;> cases s' <;>
      simp only [unit, if_true, if_false, Bool.false_eq_true, one_mul, neg_one_mul] at hne htie
    · exact absurd rfl hne
    · rwa [← neg_add', abs_neg] at htie
    · rwa [sub_neg_eq_add] at htie
    · exact absurd rfl hne
  rcases abs_eq_abs.1 hopposite with h | h
  · linarith
  · obtain rfl : a = 0 := by linarith
    rw [mul_zero, mul_zero] at hne
    exact absurd rfl hne

theorem toRat_eq (x : Double) : x.toRat = unit x.isNegative * x.dyadic.value := mul_assoc _ _ _

theorem abs_toRat (x : Double) : |x.toRat| = x.dyadic.value := by
  rw [toRat_eq, abs_unit_mul _ x.dyadic.value_nonneg]

theorem value_eq_toRat (h : 0 ≤ x.toRat) : x.dyadic.value = x.toRat :=
  (abs_toRat x).symm.trans (abs_of_nonneg h)

/-! ## Order -/

theorem value_lt_of_magnitude_lt (h : x.magnitude < y.magnitude) :
    x.dyadic.value < y.dyadic.value := by
  obtain ⟨hexponent, hsignificand⟩ := dyadic_lt h
  obtain ⟨k, hk⟩ := Int.le.dest hexponent
  have hdiff : y.dyadic.exponent - x.dyadic.exponent = k := by omega
  rw [hdiff, shift_natCast] at hsignificand
  have hcast : (x.dyadic.significand : ℚ) < y.dyadic.significand * 2 ^ k := by
    exact_mod_cast hsignificand
  calc x.dyadic.value < y.dyadic.significand * 2 ^ k * 2 ^ x.dyadic.exponent :=
      mul_lt_mul_of_pos_right hcast (by positivity)
    _ = y.dyadic.value := by
      rw [Dyadic.value, ← hk, zpow_add₀ two_ne_zero, zpow_natCast]
      ring

theorem value_lt_iff : x.dyadic.value < y.dyadic.value ↔ x.magnitude < y.magnitude := by
  refine ⟨fun h => ?_, value_lt_of_magnitude_lt⟩
  by_contra hle
  rcases (not_lt.1 hle).lt_or_eq with hlt | heq
  · exact lt_asymm h (value_lt_of_magnitude_lt hlt)
  · rw [dyadic_congr heq] at h
    exact lt_irrefl _ h

theorem value_zero (s : Bool) : (ofMagnitude s 0).dyadic.value = 0 := by
  have hdyadic : (ofMagnitude s 0).dyadic = ⟨0, minExponent⟩ := by cases s <;> rfl
  rw [hdyadic, Dyadic.value, Nat.cast_zero, zero_mul]

theorem value_pos_iff : 0 < x.dyadic.value ↔ 0 < x.magnitude := by
  rw [← value_zero false, value_lt_iff]
  rfl

/-- **Words are ordered as the numbers they stand for.** -/
theorem toRat_lt_iff : x.toRat < y.toRat ↔ x.key < y.key := by
  have hx := x.dyadic.value_nonneg
  have hy := y.dyadic.value_nonneg
  rw [toRat_eq, toRat_eq, key, key]
  cases x.isNegative <;> cases y.isNegative <;>
    simp only [unit, if_true, if_false, Bool.false_eq_true, one_mul, neg_one_mul]
  · rw [value_lt_iff, Int.ofNat_lt]
  · exact ⟨fun h => by linarith, fun h => by omega⟩
  · -- Only two zeros are not apart.
    constructor
    · intro h
      rcases hx.lt_or_eq with hpos | hzero
      · have := value_pos_iff.1 hpos
        omega
      · have := value_pos_iff.1 (show 0 < y.dyadic.value by linarith)
        omega
    · intro h
      by_cases hpos : 0 < x.magnitude
      · linarith [value_pos_iff.2 hpos]
      · linarith [value_pos_iff.2 (show 0 < y.magnitude by omega)]
  · rw [neg_lt_neg_iff, value_lt_iff]
    omega

theorem toRat_le_iff : x.toRat ≤ y.toRat ↔ x.key ≤ y.key := by
  rw [← not_lt, toRat_lt_iff, not_lt]

theorem toRat_eq_iff : x.toRat = y.toRat ↔ x.key = y.key := by
  rw [le_antisymm_iff, toRat_le_iff, toRat_le_iff, ← le_antisymm_iff]

theorem lt_iff (hx : x.isNaN = false) (hy : y.isNaN = false) :
    lt x y = true ↔ x.toRat < y.toRat := by
  rw [lt, ordered, hx, hy, toRat_lt_iff]
  exact decide_eq_true_iff

theorem le_iff (hx : x.isNaN = false) (hy : y.isNaN = false) :
    le x y = true ↔ x.toRat ≤ y.toRat := by
  rw [le, ordered, hx, hy, toRat_le_iff]
  exact decide_eq_true_iff

/-! ## Places -/

theorem isFinite_iff : x.isFinite = true ↔ x.key.natAbs < infMagnitude := by
  rw [natAbs_key]
  exact decide_eq_true_iff

/-- The word at a place. -/
def ofKey (k : Int) : Double := ofMagnitude (decide (k < 0)) k.natAbs

theorem key_ofKey {k : Int} (h : k.natAbs < signWeight) : (ofKey k).key = k := by
  rw [key, ofKey, isNegative_ofMagnitude _ h, magnitude_ofMagnitude _ h]
  split
  · next hneg =>
    have := of_decide_eq_true hneg
    omega
  · next hneg =>
    have : ¬ k < 0 := fun hlt => hneg (decide_eq_true hlt)
    omega

/-! ## Opposites -/

/-- The word of the other sign. -/
def opposite (x : Double) : Double := ofMagnitude (!x.isNegative) x.magnitude

theorem magnitude_lt (x : Double) : x.magnitude < signWeight := Nat.mod_lt _ (by decide)

@[simp] theorem magnitude_opposite (x : Double) : x.opposite.magnitude = x.magnitude :=
  magnitude_ofMagnitude _ x.magnitude_lt

@[simp] theorem isNegative_opposite (x : Double) : x.opposite.isNegative = !x.isNegative :=
  isNegative_ofMagnitude _ x.magnitude_lt

theorem isFinite_opposite (x : Double) : x.opposite.isFinite = x.isFinite := by
  rw [isFinite, isFinite, magnitude_opposite]

theorem toRat_opposite (x : Double) : x.opposite.toRat = -x.toRat := by
  rw [toRat_eq, toRat_eq, isNegative_opposite, dyadic_congr x.magnitude_opposite, ← neg_mul]
  congr 1
  cases x.isNegative
  · rfl
  · exact (neg_neg 1).symm

/-! ## Numbers that fit -/

/-- The greatest exponent of a number. -/
def maxExponent : Int := 971

theorem Dyadic.IsCanonical.word_lt (hd : d.IsCanonical) (h : d.exponent ≤ maxExponent) :
    d.word < infMagnitude := by
  have hfits := hd.fits
  unfold word infMagnitude minExponent
  unfold maxExponent at h
  omega

theorem isFinite_ofMagnitude {n : Nat} (s : Bool) (h : n < infMagnitude) :
    (ofMagnitude s n).isFinite = true := by
  have hlt : n < signWeight := h.trans (by decide)
  exact decide_eq_true ((magnitude_ofMagnitude s hlt).trans_lt h)

theorem toRat_ofMagnitude (s : Bool) (hd : d.IsCanonical) (h : d.exponent ≤ maxExponent) :
    (ofMagnitude s d.word).toRat = unit s * d.value := by
  have hlt : d.word < signWeight := (hd.word_lt h).trans (by decide)
  have hdyadic : (ofMagnitude s d.word).dyadic = d :=
    dyadic_of_magnitude_eq hd (magnitude_ofMagnitude s hlt)
  rw [toRat_eq, isNegative_ofMagnitude s hlt, hdyadic]

/-- Zeros behind the integer fill it up to 53 binary digits, or as far as the exponent goes down. -/
theorem Dyadic.exists_isCanonical {m : Nat} {e : Int} (hpos : m ≠ 0) (hfits : m < 2 ^ 53)
    (hleast : minExponent ≤ e) : ∃ k : Nat, max minExponent (e + m.log2 - 52) = e - k ∧
      IsCanonical ⟨m * 2 ^ k, e - k⟩ := by
  obtain ⟨hlow, hhigh⟩ := (Nat.log2_eq_iff hpos).1 rfl
  have hlog : m.log2 < 53 := (Nat.log2_lt hpos).2 hfits
  obtain ⟨k, hk⟩ : ∃ k : Nat, e - max minExponent (e + m.log2 - 52) = k :=
    ⟨_, (Int.toNat_of_nonneg (by omega)).symm⟩
  refine ⟨k, by omega, by dsimp only; omega, ?fits, ?full⟩
  case fits =>
    calc m * 2 ^ k < 2 ^ (m.log2 + 1) * 2 ^ k := Nat.mul_lt_mul_of_pos_right hhigh (by positivity)
      _ = 2 ^ (m.log2 + 1 + k) := (pow_add ..).symm
      _ ≤ 2 ^ 53 := Nat.pow_le_pow_right (by decide) (by omega)
  case full =>
    by_cases hexponent : e - k = minExponent
    · exact .inr hexponent
    · have hsum : m.log2 + k = 52 := by omega
      refine .inl ?_
      calc 2 ^ 52 = 2 ^ m.log2 * 2 ^ k := by rw [← pow_add, hsum]
        _ ≤ m * 2 ^ k := Nat.mul_le_mul_right _ hlow

/-- Writing a number that fits puts the word of its canonical pair. -/
theorem ofDyadic_eq (s : Bool) (hfits : d.significand < 2 ^ 53)
    (hleast : minExponent ≤ d.exponent) : ∃ c : Dyadic, c.IsCanonical ∧
      c.exponent ≤ d.exponent ∧ c.value = d.value ∧ ofDyadic s d = ofMagnitude s c.word := by
  by_cases hzero : d.significand = 0
  · refine ⟨⟨0, minExponent⟩, ⟨le_rfl, by decide, .inr rfl⟩, hleast, ?_, ?_⟩
    · rw [Dyadic.value, Dyadic.value, hzero, Nat.cast_zero, zero_mul, zero_mul]
    · rw [ofDyadic, if_pos hzero]
      rfl
  · obtain ⟨k, hk, hcanonical⟩ := Dyadic.exists_isCanonical hzero hfits hleast
    have hshift : shift d.significand (d.exponent - (d.exponent - k)) = d.significand * 2 ^ k := by
      rw [sub_sub_cancel, shift_natCast]
    refine ⟨_, hcanonical, by dsimp only; omega, ?_, ?_⟩
    · have hexponent : (2 : ℚ) ^ d.exponent = 2 ^ k * 2 ^ (d.exponent - k) := by
        rw [← zpow_natCast, ← zpow_add₀ two_ne_zero, add_sub_cancel]
      rw [Dyadic.value, Dyadic.value, hexponent]
      push_cast
      ring
    · rw [ofDyadic, if_neg hzero]
      dsimp only
      rw [hk, hshift]
      rfl

/-- **A number of 53 binary digits is that of the word that is written for it.** -/
theorem toRat_ofDyadic (s : Bool) (hfits : d.significand < 2 ^ 53)
    (hleast : minExponent ≤ d.exponent) (hgreatest : d.exponent ≤ maxExponent) :
    (ofDyadic s d).isFinite = true ∧ (ofDyadic s d).toRat = unit s * d.value := by
  obtain ⟨c, hc, hexponent, hvalue, hword⟩ := ofDyadic_eq s hfits hleast
  have hmax := hexponent.trans hgreatest
  rw [hword, ← hvalue]
  exact ⟨isFinite_ofMagnitude s (hc.word_lt hmax), toRat_ofMagnitude s hc hmax⟩

/-! ## What the machine reads -/

open Float.Model Float.Model.UnpackedFloat Binary64

/-- Whether a sign is that of a negative number. -/
def minus : Sign → Bool
  | .negative => true
  | .positive => false

theorem minus_signOf (x : Double) : minus (signOf x.bits.toBitVec) = x.isNegative := by
  have hlt := x.bits.toNat_lt
  have hsign : (@unpackSign Format.binary64 x.bits.toBitVec).toNat = x.bits.toNat / 2 ^ 63 := by
    simp [unpackSign, Nat.shiftRight_eq_div_pow]
    omega
  unfold signOf Sign.ofBitVec isNegative signWeight
  by_cases h : 0x8000000000000000 ≤ x.bits.toNat
  · rw [decide_eq_true h, if_neg]
    · rfl
    · intro hzero
      rw [hzero, BitVec.toNat_ofNat] at hsign
      omega
  · rw [decide_eq_false h, if_pos]
    · rfl
    · refine BitVec.eq_of_toNat_eq (hsign.trans ?_)
      rw [BitVec.toNat_ofNat]
      omega

theorem minus_injective {s s' : Sign} (h : minus s = minus s') : s = s' := by
  cases s <;> cases s' <;> first | rfl | cases h

/-- The unpacked number of a sign and a pair. -/
def Dyadic.unpacked (s : Sign) (d : Dyadic) : UnpackedFloat :=
  if h : d.significand = 0 then .zero s
  else .finite s d.significand d.exponent (Nat.pos_of_ne_zero h)

theorem Dyadic.unpacked_of_pos (s : Sign) (h : 0 < d.significand) :
    d.unpacked s = .finite s d.significand d.exponent h := dif_neg h.ne'

/-- **The machine reads the canonical pair of a word.** -/
theorem unpacked_eq (h : x.isFinite = true) :
    x.unpacked = x.dyadic.unpacked (signOf x.bits.toBitVec) := by
  have hlt : x.magnitude < infMagnitude := of_decide_eq_true h
  have hmagnitude := magnitude_eq x
  have hfraction : (fractionOf x.bits.toBitVec).toNat < 2 ^ 52 := BitVec.isLt _
  have hread : ReadAs x.bits.toBitVec x.unpacked := readAs_unpack _
  have hfield : exponentOf x.bits.toBitVec ≠ -1 := fun he => by
    have hmax : (exponentOf x.bits.toBitVec).toNat = 2047 := congrArg BitVec.toNat he
    unfold infMagnitude at hlt
    omega
  generalize x.unpacked = u at hread ⊢
  cases hread with
  | infinity he hf | nan he hf => exact absurd he hfield
  | zero he hf =>
    have hfield : (exponentOf x.bits.toBitVec).toNat = 0 := congrArg BitVec.toNat he
    have hzero : (fractionOf x.bits.toBitVec).toNat = 0 := congrArg BitVec.toNat hf
    have hdyadic := dyadic_of_field_eq_zero (x := x) (by omega)
    rw [hmagnitude, hfield, hzero] at hdyadic
    rw [hdyadic]
    rfl
  | subnormal he hf =>
    have hfield : (exponentOf x.bits.toBitVec).toNat = 0 := congrArg BitVec.toNat he
    have hdyadic := dyadic_of_field_eq_zero (x := x) (by omega)
    rw [hmagnitude, hfield, Nat.zero_mul, Nat.zero_add] at hdyadic
    rw [hdyadic, Dyadic.unpacked_of_pos _ hf]
    rfl
  | normal he he' =>
    have hfield : (exponentOf x.bits.toBitVec).toNat ≠ 0 :=
      fun h => he' (BitVec.eq_of_toNat_eq h)
    have hquotient : x.magnitude / 2 ^ 52 = (exponentOf x.bits.toBitVec).toNat := by omega
    have hremainder : x.magnitude % 2 ^ 52 = (fractionOf x.bits.toBitVec).toNat := by omega
    have hexponent : minExponent + ((exponentOf x.bits.toBitVec).toNat - 1 : Nat) =
        (exponentOf x.bits.toBitVec).toNat - 1075 := by
      unfold minExponent
      omega
    have hdyadic := dyadic_of_field_ne_zero (x := x) (by omega)
    rw [hquotient, hremainder, hexponent, Nat.add_comm] at hdyadic
    rw [hdyadic, Dyadic.unpacked_of_pos _ (Nat.add_pos_left (Nat.two_pow_pos 52) _)]

/-- The word of a canonical pair is read as that pair. -/
theorem unpacked_ofMagnitude (s : Sign) (hd : d.IsCanonical) (h : d.exponent ≤ maxExponent) :
    (ofMagnitude (minus s) d.word).unpacked = d.unpacked s := by
  have hlt := hd.word_lt h
  have hword : d.word < signWeight := hlt.trans (by decide)
  have hdyadic : (ofMagnitude (minus s) d.word).dyadic = d :=
    dyadic_of_magnitude_eq hd (magnitude_ofMagnitude _ hword)
  have hsign : signOf (ofMagnitude (minus s) d.word).bits.toBitVec = s :=
    minus_injective ((minus_signOf _).trans (isNegative_ofMagnitude _ hword))
  rw [unpacked_eq (isFinite_ofMagnitude _ hlt), hdyadic, hsign]

theorem unpacked_opposite (h : x.isFinite = true) : x.opposite.unpacked = x.unpacked.neg := by
  have hsign : signOf x.opposite.bits.toBitVec = -signOf x.bits.toBitVec := by
    refine minus_injective ?_
    rw [minus_signOf, isNegative_opposite, ← minus_signOf]
    cases signOf x.bits.toBitVec <;> rfl
  rw [unpacked_eq h, unpacked_eq (x.isFinite_opposite.trans h), hsign,
    dyadic_congr x.magnitude_opposite]
  unfold Dyadic.unpacked
  split <;> rfl

/-- **What a finite word is read as, and the number it stands for.** -/
theorem unpacked_cases (h : x.isFinite = true) :
    (∃ s, x.unpacked = .zero s ∧ x.toRat = 0) ∨
      ∃ s m e hm, x.unpacked = .finite s m e hm ∧ x.toRat = unit (minus s) * (m * 2 ^ e) ∧
        (2 ^ 52 ≤ m ∨ e = minExponent) := by
  rw [toRat_eq, ← minus_signOf, Dyadic.value]
  by_cases hzero : x.dyadic.significand = 0
  · refine .inl ⟨_, (unpacked_eq h).trans (dif_pos hzero), ?_⟩
    rw [hzero, Nat.cast_zero, zero_mul, mul_zero]
  · exact .inr ⟨_, _, _, Nat.pos_of_ne_zero hzero, (unpacked_eq h).trans (dif_neg hzero), rfl,
      (isCanonical_dyadic x).full⟩

end Stylesheet.Double
