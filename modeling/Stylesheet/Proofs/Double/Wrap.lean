import Stylesheet.Proofs.Double.Arithmetic

/-!
# Where wrapping lands

A number is wrapped by a modulus by taking the remainder, and adding the modulus where that is
negative.

**Theorem (`Double.isRounding_wrap`).** The result is the remainder from zero to below the modulus
(`residue`), rounded to nearest. So it is not below zero and not above the modulus.

The remainder itself is exact (`Double.rem_spec`): it has no more digits than the operand with the
finer grid. From zero on nothing more is done to it. Below zero the modulus is added, and that sum
is rounded. It can be rounded up to the modulus, and `Double.wrap_lt_iff` says when: where the
remainder is nearer to the modulus than to the word before it (`Double.RoundsUpTo`).
-/

namespace Stylesheet

/-- The remainder of a number by a positive one, from zero to below it. -/
def residue (q m : ℚ) : ℚ := m * Int.fract (q / m)

section

variable {q m r : ℚ}

theorem residue_nonneg (q : ℚ) (hm : 0 < m) : 0 ≤ residue q m :=
  mul_nonneg hm.le (Int.fract_nonneg _)

theorem residue_lt (q : ℚ) (hm : 0 < m) : residue q m < m :=
  mul_lt_of_lt_one_right hm (Int.fract_lt_one _)

/-- What is left beside a whole number of moduli is the remainder. -/
theorem residue_eq (hm : 0 < m) (hlow : 0 ≤ r) (hhigh : r < m) (k : ℤ) (h : q = k * m + r) :
    residue q m = r := by
  have hquotient : q / m = k + r / m := by
    rw [h, add_div, mul_div_cancel_right₀ _ hm.ne']
  have hfract : Int.fract (r / m) = r / m :=
    Int.fract_eq_self.2 ⟨div_nonneg hlow hm.le, (div_lt_one hm).2 hhigh⟩
  rw [residue, hquotient, Int.fract_intCast_add, hfract, mul_div_cancel₀ _ hm.ne']

end

namespace Double

variable {x y m : Double} {q : ℚ}

/-! ## Remainders are exact -/

theorem exponent_le_maxExponent (h : x.isFinite = true) : x.dyadic.exponent ≤ maxExponent := by
  have hlt : x.magnitude < infMagnitude := of_decide_eq_true h
  have hword := x.word_dyadic
  have hfull := (isCanonical_dyadic x).full
  unfold Dyadic.word at hword
  unfold infMagnitude at hlt
  unfold maxExponent minExponent at *
  omega

/-- The integer of a pair on a finer grid. -/
theorem shift_mul_zpow (d : Dyadic) {e : Int} (h : e ≤ d.exponent) :
    (shift d.significand (d.exponent - e) : ℚ) * 2 ^ e = d.value := by
  obtain ⟨k, hk⟩ := Int.le.dest h
  have hdiff : d.exponent - e = k := by omega
  rw [hdiff, shift_natCast, Dyadic.value, ← hk, zpow_add₀ two_ne_zero, zpow_natCast]
  push_cast
  ring

/-- A remainder has no more digits than the number with the finer grid. -/
theorem significand_remDyadic_lt {x y : Dyadic} (hx : x.significand < 2 ^ 53)
    (hy : y.significand < 2 ^ 53) (hpos : 0 < y.significand) :
    (remDyadic x y).significand < 2 ^ 53 := by
  unfold remDyadic
  dsimp only
  rcases le_total x.exponent y.exponent with h | h
  · rw [Int.min_eq_left h, Int.sub_self, shift_zero]
    exact (Nat.mod_le _ _).trans_lt hx
  · rw [Int.min_eq_right h, Int.sub_self, shift_zero]
    exact (Nat.mod_lt _ hpos).trans hy

/-- The remainder is what is left beside a whole number of right operands. -/
theorem value_remDyadic (x y : Dyadic) (hpos : 0 < y.significand) :
    (remDyadic x y).value < y.value ∧ ∃ k : Nat, x.value = k * y.value + (remDyadic x y).value := by
  obtain ⟨e, he⟩ : ∃ e, min x.exponent y.exponent = e := ⟨_, rfl⟩
  have hx := shift_mul_zpow x (he ▸ Int.min_le_left _ _)
  have hy := shift_mul_zpow y (he ▸ Int.min_le_right _ _)
  have hvalue : 0 < y.value := by
    unfold Dyadic.value
    positivity
  have hunit : (0 : ℚ) < 2 ^ e := by positivity
  have hrem : (remDyadic x y).value = ((shift x.significand (x.exponent - e) %
      shift y.significand (y.exponent - e) : Nat) : ℚ) * 2 ^ e := by
    rw [← he]
    rfl
  rw [hrem, ← hx, ← hy]
  rw [← hy] at hvalue
  generalize shift x.significand (x.exponent - e) = a
  generalize shift y.significand (y.exponent - e) = b at hvalue ⊢
  have hb : 0 < b := by exact_mod_cast pos_of_mul_pos_left hvalue hunit.le
  have hlt : ((a % b : Nat) : ℚ) < b := by exact_mod_cast Nat.mod_lt a hb
  have hdiv : (a : ℚ) = b * (a / b : Nat) + (a % b : Nat) := by
    exact_mod_cast (Nat.div_add_mod a b).symm
  refine ⟨mul_lt_mul_of_pos_right hlt hunit, a / b, ?_⟩
  rw [hdiv]
  ring

/-- **The remainder of two finite numbers is exact**, with the sign of the left one. -/
theorem rem_spec (hx : x.isFinite = true) (hy : y.isFinite = true) (hzero : y.isZero = false) :
    (rem x y).isFinite = true ∧ ∃ (k : Nat) (r : ℚ), 0 ≤ r ∧ r < y.dyadic.value ∧
      x.dyadic.value = k * y.dyadic.value + r ∧ (rem x y).toRat = unit x.isNegative * r := by
  have hxc := isCanonical_dyadic x
  have hyc := isCanonical_dyadic y
  have hpos : 0 < y.dyadic.significand := by
    have hvalue := value_pos_iff.2 (Nat.pos_of_ne_zero (beq_eq_false_iff_ne.1 hzero))
    exact_mod_cast pos_of_mul_pos_left hvalue (by positivity)
  obtain ⟨hlt, k, hk⟩ := value_remDyadic x.dyadic y.dyadic hpos
  have hexponent : (remDyadic x.dyadic y.dyadic).exponent =
      min x.dyadic.exponent y.dyadic.exponent := rfl
  have hrem : rem x y = ofDyadic x.isNegative (remDyadic x.dyadic y.dyadic) := by
    have hxi : x.isInfinite = false := by
      have hlt : x.magnitude < infMagnitude := of_decide_eq_true hx
      exact beq_eq_false_iff_ne.2 hlt.ne
    have hyi : y.isInfinite = false := by
      have hlt : y.magnitude < infMagnitude := of_decide_eq_true hy
      exact beq_eq_false_iff_ne.2 hlt.ne
    unfold rem
    rw [isNaN_of_isFinite hx, isNaN_of_isFinite hy, hxi, hyi, hzero]
    rfl
  obtain ⟨hfinite, hrat⟩ := toRat_ofDyadic x.isNegative
    (significand_remDyadic_lt hxc.fits hyc.fits hpos) (d := remDyadic x.dyadic y.dyadic)
    (hexponent ▸ le_min hxc.least hyc.least)
    (hexponent ▸ (Int.min_le_left _ _).trans (exponent_le_maxExponent hx))
  rw [hrem]
  exact ⟨hfinite, k, _, Dyadic.value_nonneg _, hlt, hk, hrat⟩

/-! ## Wrapping -/

theorem isFinite_zero : (0 : Double).isFinite = true := by decide +kernel

theorem toRat_zero : (0 : Double).toRat = 0 := by
  have hzero : (0 : Double) = ofMagnitude false 0 := by decide +kernel
  rw [hzero, toRat_eq, value_zero, mul_zero]

theorem isZero_of_toRat_pos (h : 0 < x.toRat) : x.isZero = false := by
  refine beq_eq_false_iff_ne.2 fun hzero => h.ne' ?_
  have hvalue : ¬ 0 < x.dyadic.value := fun hpos => (value_pos_iff.1 hpos).ne' hzero
  rw [toRat_eq, le_antisymm (not_lt.1 hvalue) x.dyadic.value_nonneg, mul_zero]

/-- The word before. -/
def before (m : Double) : Double := ofKey (m.key - 1)

/-- A number below `m` that is rounded to `m`: it is nearer to `m` than to the word before, or in
the middle where the word of `m` is even. -/
def RoundsUpTo (m : Double) (q : ℚ) : Prop :=
  m.before.toRat + m.toRat < 2 * q ∨ m.before.toRat + m.toRat = 2 * q ∧ m.magnitude % 2 = 0

section

variable (hx : x.isFinite = true) (hm : m.isFinite = true) (hpos : 0 < m.toRat)
include hx hm hpos

/-- The remainder by a positive modulus: `x` less a whole number of moduli, and not below zero
where `x` is not. -/
theorem toRat_rem : (rem x m).isFinite = true ∧ ∃ k : ℤ, x.toRat = k * m.toRat + (rem x m).toRat ∧
    -m.toRat < (rem x m).toRat ∧ (rem x m).toRat < m.toRat ∧
      (0 ≤ x.toRat → 0 ≤ (rem x m).toRat) := by
  obtain ⟨hfinite, k, r, hr, hlt, hk, hrem⟩ := rem_spec hx hm (isZero_of_toRat_pos hpos)
  rw [value_eq_toRat hpos.le] at hlt hk
  have hwhole : 0 ≤ (k : ℚ) * m.toRat := by positivity
  rw [hrem, x.toRat_eq, hk]
  cases x.isNegative <;> simp only [unit, if_true, if_false, Bool.false_eq_true]
  · exact ⟨hfinite, k, by push_cast; ring, by linarith, by linarith, fun _ => by linarith⟩
  · exact ⟨hfinite, -k, by push_cast; ring, by linarith, by linarith, fun _ => by linarith⟩

/-- What wrapping does, with the remainder as a number. -/
theorem wrap_cases : (0 ≤ (rem x m).toRat ∧ Channel.wrap x m = rem x m ∧
      residue x.toRat m.toRat = (rem x m).toRat) ∨
    ((rem x m).toRat < 0 ∧ Channel.wrap x m = rem x m + m ∧
      residue x.toRat m.toRat = (rem x m).toRat + m.toRat) := by
  obtain ⟨hfinite, k, hk, hlow, hhigh, -⟩ := toRat_rem hx hm hpos
  have hwrap : Channel.wrap x m = if lt (rem x m) 0 then rem x m + m else rem x m := rfl
  have hsign : lt (rem x m) 0 = true ↔ (rem x m).toRat < 0 := by
    rw [lt_iff (isNaN_of_isFinite hfinite) (isNaN_of_isFinite isFinite_zero), toRat_zero]
  rcases le_or_gt 0 (rem x m).toRat with hnonneg | hneg
  · exact .inl ⟨hnonneg, hwrap.trans (if_neg fun h => hnonneg.not_gt (hsign.1 h)),
      residue_eq hpos hnonneg hhigh k hk⟩
  · refine .inr ⟨hneg, hwrap.trans (if_pos (hsign.2 hneg)), ?_⟩
    refine residue_eq hpos (by linarith) (by linarith) (k - 1) ?_
    rw [hk]
    push_cast
    ring

/-- **Wrapping rounds the remainder to nearest.** -/
theorem isRounding_wrap : (Channel.wrap x m).IsRounding (residue x.toRat m.toRat) := by
  have hfinite := (toRat_rem hx hm hpos).1
  rcases wrap_cases hx hm hpos with ⟨-, hwrap, hresidue⟩ | ⟨hneg, hwrap, hresidue⟩
  · rw [hwrap, hresidue]
    exact isRounding_self hfinite
  · rw [hwrap, hresidue]
    refine isRounding_add hfinite hm hm ?_
    have hnonneg := residue_nonneg x.toRat hpos
    rw [hresidue] at hnonneg
    rw [abs_of_nonneg hnonneg, value_eq_toRat hpos.le]
    linarith

/-- From zero on wrapping is exact. -/
theorem toRat_wrap_of_nonneg (hle : 0 ≤ x.toRat) :
    (Channel.wrap x m).toRat = residue x.toRat m.toRat := by
  obtain ⟨-, -, -, -, -, hsign⟩ := toRat_rem hx hm hpos
  rcases wrap_cases hx hm hpos with ⟨-, hwrap, hresidue⟩ | ⟨hneg, -, -⟩
  · rw [hwrap, hresidue]
  · exact absurd (hsign hle) hneg.not_ge

theorem le_zero_wrap : le 0 (Channel.wrap x m) = true := by
  have hround := isRounding_wrap hx hm hpos
  have hnonneg : (0 : Double).toRat ≤ residue x.toRat m.toRat :=
    toRat_zero.trans_le (residue_nonneg _ hpos)
  rw [le_iff (isNaN_of_isFinite isFinite_zero) (isNaN_of_isFinite hround.finite)]
  exact hround.ge isFinite_zero hnonneg

theorem wrap_le : le (Channel.wrap x m) m = true := by
  have hround := isRounding_wrap hx hm hpos
  rw [le_iff (isNaN_of_isFinite hround.finite) (isNaN_of_isFinite hm)]
  exact hround.le hm (residue_lt _ hpos).le

theorem wrap_lt_iff_toRat_lt : lt (Channel.wrap x m) m = true ↔
    (Channel.wrap x m).toRat < m.toRat :=
  lt_iff (isNaN_of_isFinite (isRounding_wrap hx hm hpos).finite) (isNaN_of_isFinite hm)

/-- **Wrapping stays below the modulus** but for what is rounded up to it. -/
theorem wrap_lt_iff : lt (Channel.wrap x m) m = true ↔
    ¬ m.RoundsUpTo (residue x.toRat m.toRat) := by
  have hround := isRounding_wrap hx hm hpos
  have hle := hround.le hm (residue_lt _ hpos).le
  have hkey : 0 < m.key := by
    have hzero : (0 : Double).key = 0 := by decide +kernel
    have hlt := toRat_lt_iff.1 (toRat_zero.trans_lt hpos)
    rwa [hzero] at hlt
  have hfinite := isFinite_iff.1 hm
  have hbefore : m.before.key = m.key - 1 :=
    key_ofKey ((show (m.key - 1).natAbs < infMagnitude by omega).trans (by decide))
  have hupper := hround.toRat_eq_upper_iff (a := m.before) (isFinite_iff.2 (by omega)) hm
    (by omega) (residue_lt _ hpos).le
  rw [wrap_lt_iff_toRat_lt hx hm hpos, RoundsUpTo, ← hupper]
  exact ⟨fun hlt => hlt.ne, fun hne => lt_of_le_of_ne hle hne⟩

end

end Double

end Stylesheet
