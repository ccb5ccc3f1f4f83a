import Stylesheet.Proofs.Double.Value

/-!
# Rounding to nearest

A result is computed as an integer, an exponent and an account of the digits behind the integer. It
is shifted to the grid that words of its size are on, and rounded there. What comes out is the word
of the nearest number, and of two that are equally near the one with the even word
(`Double.IsRounding`).

**Digits.** Shifting by one halves the number, and two residual bits keep where it lies between two
integers (`Stands.shiftRightOne`), so that in the end the nearest integer is known
(`Stands.nearestEven`).

**Grids.** On its grid a number has 53 binary digits, or the grid is the finest (`OnGrid`). A carry
that makes it too long leaves zeros behind it, which go to the exponent (`exists_onGrid`).

**Words.** Any word is on the grid too, or below all numbers that the grid is for
(`value_div_cases`). So the nearest integer gives the nearest word (`OnGrid.word_apart`).

That a number is correctly rounded says all about it but the sign of a zero
(`IsRounding.toRat_eq`), and the order of the numbers is kept (`IsRounding.mono`); between two
neighbouring words the middle decides (`IsRounding.toRat_eq_upper_iff`).
-/

namespace Stylesheet

open Float.Model Float.Model.UnpackedFloat

namespace Binary64

/-! ## The nearest natural number -/

/-- A natural number nearest to `y`, the even one of two. -/
structure NearestEven (y : ℚ) (n : Nat) : Prop where
  near : |y - n| ≤ 1 / 2
  even : |y - n| = 1 / 2 → n % 2 = 0

namespace NearestEven

variable {y : ℚ} {n : Nat}

theorem half_le {k : ℤ} (h : NearestEven y n) (hk : k ≠ n) : 1 / 2 ≤ |y - k| := by
  have hapart : (1 : ℚ) ≤ |(k : ℚ) - n| := by
    exact_mod_cast Int.one_le_abs (sub_ne_zero.2 hk)
  have htriangle : |(k : ℚ) - n| ≤ |y - k| + |y - n| := by
    rw [abs_sub_comm y k]
    exact abs_sub_le _ _ _
  linarith [h.near]

theorem le_abs (h : NearestEven y n) (k : ℤ) : |y - n| ≤ |y - k| := by
  by_cases hk : k = n
  · rw [hk, Int.cast_natCast]
  · exact h.near.trans (h.half_le hk)

theorem even_of_tie {k : ℤ} (h : NearestEven y n) (hk : k ≠ n) (htie : |y - k| = |y - n|) :
    n % 2 = 0 :=
  h.even (le_antisymm h.near (htie ▸ h.half_le hk))

theorem le {k : Nat} (h : NearestEven y n) (hk : y ≤ k) : n ≤ k := by
  have hle := h.near
  by_contra hlt
  have hcast : (k : ℚ) + 1 ≤ n := by exact_mod_cast not_le.1 hlt
  rw [abs_sub_comm, abs_of_nonneg (by linarith)] at hle
  linarith

theorem ge {k : Nat} (h : NearestEven y n) (hk : k ≤ y) : k ≤ n := by
  have hle := h.near
  by_contra hlt
  have hcast : (n : ℚ) + 1 ≤ k := by exact_mod_cast not_le.1 hlt
  rw [abs_of_nonneg (by linarith)] at hle
  linarith

end NearestEven

/-! ## Digits that are shifted out -/

/-- Where the part of a unit lies that an accuracy stands for. -/
def Describes : Accuracy → ℚ → Prop
  | .exact, f => f = 0
  | .inexact .lt, f => 0 < f ∧ f < 1 / 2
  | .inexact .eq, f => f = 1 / 2
  | .inexact .gt, f => 1 / 2 < f ∧ f < 1

/-- An integer with two residual bits stands for `y`. -/
def Stands (em : ExtendedMantissa) (y : ℚ) : Prop := Describes em.accuracy (y - em.mantissa)

theorem stands_of_describes {m : Nat} {a : Accuracy} {y : ℚ} (h : Describes a (y - m)) :
    Stands (.ofMantissaAndAccuracy m a) y := by
  cases a with
  | exact => exact h
  | inexact o => cases o <;> exact h

namespace Stands

variable {em : ExtendedMantissa} {y : ℚ}

/-- Something is left over, less than a unit, where a residual bit is set. -/
theorem residue (h : Stands em y) : if em.roundBit || em.stickyBit then
    0 < y - em.mantissa ∧ y - em.mantissa < 1 else y - em.mantissa = 0 := by
  obtain ⟨m, roundBit, stickyBit⟩ := em
  cases roundBit <;> cases stickyBit
  · exact h
  · exact ⟨h.1, h.2.trans one_half_lt_one⟩
  · have hhalf : y - (m : ℚ) = 1 / 2 := h
    exact ⟨hhalf ▸ one_half_pos, hhalf ▸ one_half_lt_one⟩
  · exact ⟨one_half_pos.trans h.1, h.2⟩

theorem bounds (h : Stands em y) : (em.mantissa : ℚ) ≤ y ∧ y < em.mantissa + 1 := by
  have hresidue := h.residue
  split at hresidue <;> constructor <;> linarith

/-- Shifting by one halves, and the residual bits keep what they have to. -/
theorem shiftRightOne (h : Stands em y) : Stands em.shiftRightOne (y / 2) := by
  obtain ⟨m, roundBit, stickyBit⟩ := em
  have hresidue := h.residue
  have hdigit : (m : ℚ) = 2 * (m / 2 : Nat) + (m % 2 : Nat) := by
    exact_mod_cast (Nat.div_add_mod m 2).symm
  show Describes (ExtendedMantissa.accuracy ⟨m / 2, m % 2 != 0, roundBit || stickyBit⟩)
    (y / 2 - (m / 2 : Nat))
  generalize (roundBit || stickyBit) = lost at hresidue ⊢
  -- The digit that goes out is the new half, and what was left over is halved.
  rcases Nat.mod_two_eq_zero_or_one m with hm | hm <;> rw [hm] at hdigit ⊢ <;>
    push_cast at hdigit <;> cases lost <;>
    simp only [if_true, if_false, Bool.false_eq_true] at hresidue
  · show _ = _
    linarith
  · exact ⟨by linarith, by linarith⟩
  · show _ = _
    linarith
  · exact ⟨by linarith, by linarith⟩

theorem shiftRight (h : Stands em y) (k : Nat) : Stands (em >>> k) (y / 2 ^ k) := by
  show Stands (k.repeat ExtendedMantissa.shiftRightOne em) _
  induction k with
  | zero => simpa [Nat.repeat] using h
  | succ k ih =>
    rw [pow_succ, ← div_div]
    exact ih.shiftRightOne

/-- **The mantissa is rounded to the nearest, and to the even one of two.** -/
theorem nearestEven (h : Stands em y) : NearestEven y em.roundedMantissa := by
  obtain ⟨m, roundBit, stickyBit⟩ := em
  cases roundBit <;> cases stickyBit
  · have hexact : y - (m : ℚ) = 0 := h
    show NearestEven y m
    refine ⟨by rw [hexact]; norm_num, fun hhalf => ?_⟩
    rw [hexact] at hhalf
    norm_num at hhalf
  · obtain ⟨hpos, hlt⟩ : 0 < y - (m : ℚ) ∧ y - (m : ℚ) < 1 / 2 := h
    show NearestEven y m
    rw [← abs_of_pos hpos] at hlt
    exact ⟨hlt.le, fun hhalf => absurd hhalf hlt.ne⟩
  · have hhalf : y - (m : ℚ) = 1 / 2 := h
    show NearestEven y (m + m % 2)
    refine ⟨?_, fun _ => by omega⟩
    rcases Nat.mod_two_eq_zero_or_one m with hm | hm <;> rw [hm] <;> push_cast
    · rw [add_zero, hhalf]
      norm_num
    · rw [← sub_sub, hhalf]
      norm_num
  · obtain ⟨hlow, hhigh⟩ : 1 / 2 < y - (m : ℚ) ∧ y - (m : ℚ) < 1 := h
    show NearestEven y (m + 1)
    have habs : |y - (m + 1 : Nat)| = 1 - (y - m) := by
      push_cast
      rw [abs_sub_comm, abs_of_nonneg (by linarith)]
      ring
    exact ⟨by linarith, fun hhalf => by linarith⟩

end Stands

/-! ## The grid of a number -/

open Double (minExponent)
open Double.Dyadic (IsCanonical)

/-- A number from zero on, rounded to `n` units of the grid that words of its size have. -/
structure OnGrid (q : ℚ) (t : Int) (n : Nat) : Prop where
  least : minExponent ≤ t
  nearest : NearestEven (q / 2 ^ t) n
  fits : n ≤ 2 ^ 53
  full : 2 ^ 52 ≤ q / 2 ^ t ∨ t = minExponent

/-- The pair of a rounded integer: one that has become too long has ended in zeros. -/
def carried (t : Int) (n : Nat) : Double.Dyadic :=
  if n < 2 ^ 53 then ⟨n, t⟩ else ⟨2 ^ 52, t + 1⟩

namespace OnGrid

variable {q : ℚ} {t : Int} {n : Nat}

theorem isCanonical (h : OnGrid q t n) : (carried t n).IsCanonical := by
  have hleast := h.least
  unfold carried
  split
  · next hlt =>
    refine ⟨hleast, hlt, h.full.imp_left fun hfull => ?_⟩
    exact h.nearest.ge (by exact_mod_cast hfull)
  · exact ⟨by dsimp only; omega, Nat.pow_lt_pow_right (by decide) (by decide), .inl le_rfl⟩

theorem eq_of_not_lt (h : OnGrid q t n) (hlt : ¬ n < 2 ^ 53) : n = 2 ^ 53 :=
  le_antisymm h.fits (not_lt.1 hlt)

theorem value_carried (h : OnGrid q t n) : (carried t n).value = n * 2 ^ t := by
  unfold carried
  split
  · rfl
  · next hlt =>
    rw [Double.Dyadic.value, h.eq_of_not_lt hlt, zpow_add_one₀ two_ne_zero]
    push_cast
    ring

theorem word_carried (h : OnGrid q t n) : (carried t n).word % 2 = n % 2 := by
  unfold carried Double.Dyadic.word
  split
  · dsimp only
    omega
  · next hlt =>
    rw [h.eq_of_not_lt hlt]
    dsimp only
    omega

end OnGrid

/-! ## Rounding -/

section

variable {m : Nat} {e : Int} {a : Accuracy} {y : ℚ}

/-- The exponent is not above that of the grid where the mantissa is long enough, or the exponent
is small. -/
theorem le_targetExponent (h : 52 ≤ m.log2 ∨ e ≤ minExponent) :
    e ≤ Format.binary64.targetExponent (totalExponent m e) := by
  rw [targetExponent_eq, totalExponent]
  unfold minExponent at h
  omega

/-- The shift to the grid, with the digits that go out. -/
theorem exists_shift (hy : Describes a (y - m))
    (he : e ≤ Format.binary64.targetExponent (totalExponent m e)) :
    ∃ em t, shiftToTargetExponent Format.binary64 m e a = (em, t) ∧
      OnGrid (y * 2 ^ e) t em.roundedMantissa := by
  obtain ⟨k, hk⟩ := Int.le.dest he
  have hamount : (Format.binary64.targetExponent (totalExponent m e) - e).toNat = k := by omega
  have hstands := stands_of_describes hy
  have hmantissa : (ExtendedMantissa.ofMantissaAndAccuracy m a).mantissa = m := by
    cases a with
    | exact => rfl
    | inexact o => cases o <;> rfl
  obtain ⟨hlow, hhigh⟩ := hstands.bounds
  rw [hmantissa] at hlow hhigh
  have hnearest := (hstands.shiftRight k).nearestEven
  have hshifted : y * 2 ^ e / 2 ^ (e + (k : Int)) = y / 2 ^ k := by
    rw [zpow_add₀ two_ne_zero, zpow_natCast]
    field_simp
  rw [targetExponent_eq, totalExponent] at hk
  refine ⟨_, e + k, ?shift, ?least, hshifted ▸ hnearest, ?fits, ?full⟩
  case shift => rw [shiftToTargetExponent, shiftToExponent, hamount]
  case least =>
    unfold minExponent
    omega
  case fits =>
    have hlong : (m : ℚ) + 1 ≤ 2 ^ 53 * 2 ^ k := by
      have hle : m + 1 ≤ 2 ^ (53 + k) := Nat.lt_log2_self.trans_le
        (Nat.pow_le_pow_right (by decide) (by omega))
      rw [← pow_add]
      exact_mod_cast hle
    refine hnearest.le ?_
    rw [div_le_iff₀ (by positivity)]
    push_cast
    linarith
  case full =>
    by_cases hleast : e + (k : Int) = minExponent
    · exact .inr hleast
    · refine .inl ?_
      unfold minExponent at hleast
      have hlog : m.log2 = 52 + k := by omega
      have hne : m ≠ 0 := by
        rintro rfl
        rw [Nat.log2_zero] at hlog
        omega
      have hshort : (2 ^ 52 * 2 ^ k : ℚ) ≤ m := by
        have hle := Nat.log2_self_le hne
        rw [hlog] at hle
        rw [← pow_add]
        exact_mod_cast hle
      rw [hshifted, le_div_iff₀ (by positivity)]
      linarith

/-- The second shift is one of no digits, or of a zero. -/
theorem shiftToTargetExponent_carried {q : ℚ} {t : Int} {n : Nat} (h : OnGrid q t n) :
    shiftToTargetExponent Format.binary64 n t .exact =
      (⟨(carried t n).significand, false, false⟩, (carried t n).exponent) := by
  have hleast := h.least
  unfold minExponent at hleast
  unfold carried
  split
  · next hlt =>
    have hlog : n.log2 ≤ 52 := by
      by_cases hn : n = 0
      · rw [hn, Nat.log2_zero]
        omega
      · exact Nat.le_of_lt_succ ((Nat.log2_lt hn).2 hlt)
    have hamount : (Format.binary64.targetExponent (totalExponent n t) - t).toNat = 0 := by
      rw [targetExponent_eq, totalExponent]
      omega
    rw [shiftToTargetExponent, shiftToExponent, hamount]
    exact congrArg₂ Prod.mk rfl (add_zero t)
  · next hlt =>
    have hlog : n.log2 = 53 := by rw [h.eq_of_not_lt hlt, Nat.log2_two_pow]
    have hamount : (Format.binary64.targetExponent (totalExponent n t) - t).toNat = 1 := by
      rw [targetExponent_eq, totalExponent]
      omega
    rw [shiftToTargetExponent, shiftToExponent, hamount, h.eq_of_not_lt hlt]
    rfl

/-- **A result is rounded to the pair of the nearest integer on its grid.** -/
theorem exists_onGrid (s : Sign) (hy : Describes a (y - m))
    (he : e ≤ Format.binary64.targetExponent (totalExponent m e)) : ∃ t n,
      OnGrid (y * 2 ^ e) t n ∧
        roundWithAccuracy Format.binary64 s m e a = (carried t n).unpacked s := by
  obtain ⟨em, t, hshift, hgrid⟩ := exists_shift hy he
  refine ⟨t, _, hgrid, ?_⟩
  simp only [roundWithAccuracy, hshift, shiftToTargetExponent_carried hgrid]
  rfl

end

/-! ## Words off the grid -/

/-- On a grid a word is a whole number, unless it is below the numbers that the grid is for. -/
theorem value_div_cases (v : Double) (t : Int) :
    (∃ k : ℤ, v.dyadic.value / 2 ^ t = k) ∨
      t ≠ minExponent ∧ v.dyadic.value / 2 ^ t < 2 ^ 52 := by
  have hv := Double.isCanonical_dyadic v
  have hscaled : v.dyadic.value / 2 ^ t = v.dyadic.significand * 2 ^ (v.dyadic.exponent - t) := by
    rw [Double.Dyadic.value, zpow_sub₀ two_ne_zero, mul_div_assoc]
  by_cases ht : t ≤ v.dyadic.exponent
  · obtain ⟨k, hk⟩ := Int.le.dest ht
    refine .inl ⟨v.dyadic.significand * 2 ^ k, ?_⟩
    have hdiff : v.dyadic.exponent - t = k := by omega
    rw [hscaled, hdiff, zpow_natCast]
    push_cast
    rfl
  · refine .inr ⟨by have := hv.least; omega, ?_⟩
    have hfits : (v.dyadic.significand : ℚ) < 2 ^ 53 := by exact_mod_cast hv.fits
    calc v.dyadic.value / 2 ^ t = v.dyadic.significand * 2 ^ (v.dyadic.exponent - t) := hscaled
      _ ≤ v.dyadic.significand * 2 ^ (-1 : ℤ) :=
        mul_le_mul_of_nonneg_left (zpow_le_zpow_right₀ one_le_two (by omega)) (by positivity)
      _ < 2 ^ 52 := by
        norm_num
        linarith

namespace OnGrid

variable {q : ℚ} {t : Int} {n : Nat}

theorem scaled_apart (h : OnGrid q t n) (v : Double) :
    |q / 2 ^ t - n| ≤ |q / 2 ^ t - v.dyadic.value / 2 ^ t| ∧
      (v.dyadic.value / 2 ^ t ≠ n →
        |q / 2 ^ t - v.dyadic.value / 2 ^ t| = |q / 2 ^ t - n| → n % 2 = 0) := by
  rcases value_div_cases v t with ⟨k, hk⟩ | ⟨ht, hlt⟩
  · rw [hk]
    exact ⟨h.nearest.le_abs k, fun hne => h.nearest.even_of_tie (by exact_mod_cast hne)⟩
  · have hfull := h.full.resolve_right ht
    have hnear := h.nearest.le_abs (2 ^ 52)
    have hstrict : |q / 2 ^ t - n| < |q / 2 ^ t - v.dyadic.value / 2 ^ t| := by
      refine hnear.trans_lt ?_
      push_cast
      rw [abs_of_nonneg (by linarith), abs_of_nonneg (by linarith)]
      linarith
    exact ⟨hstrict.le, fun _ htie => absurd htie hstrict.ne'⟩

/-- **No word is nearer than the rounded one**, and another is as near only where its integer is
even. -/
theorem word_apart (h : OnGrid q t n) (v : Double) :
    |(carried t n).value - q| ≤ |v.dyadic.value - q| ∧
      (v.dyadic.value ≠ (carried t n).value →
        |v.dyadic.value - q| = |(carried t n).value - q| → n % 2 = 0) := by
  have hpos : (0 : ℚ) < 2 ^ t := by positivity
  have hscale : ∀ a : ℚ, |a - q| = |q / 2 ^ t - a / 2 ^ t| * 2 ^ t := fun a => by
    rw [← sub_div, abs_div, abs_of_pos hpos, div_mul_cancel₀ _ hpos.ne', abs_sub_comm]
  obtain ⟨hnear, htie⟩ := h.scaled_apart v
  rw [h.value_carried, hscale, hscale v.dyadic.value, mul_div_cancel_right₀ _ hpos.ne',
    mul_left_inj' hpos.ne', Ne, ← div_eq_iff hpos.ne']
  exact ⟨mul_le_mul_of_nonneg_right hnear hpos.le, htie⟩

/-- What is rounded from no more than a finite number has not become infinite. -/
theorem exponent_le {b : Double} (h : OnGrid q t n) (hb : b.isFinite = true)
    (hq : q ≤ b.dyadic.value) : (carried t n).exponent ≤ Double.maxExponent := by
  have hle : (carried t n).value ≤ b.dyadic.value := by
    have hnear := (le_abs_self _).trans (h.word_apart b).1
    rw [abs_of_nonneg (sub_nonneg.2 hq)] at hnear
    linarith
  have hlt : b.dyadic.value < 2 ^ 52 * 2 ^ (972 : ℤ) := by
    have hinfinity : Double.infinity.dyadic = ⟨2 ^ 52, 972⟩ := by decide +kernel
    have hmagnitude : b.magnitude < Double.infinity.magnitude := of_decide_eq_true hb
    have hvalue := Double.value_lt_of_magnitude_lt hmagnitude
    rw [hinfinity, Double.Dyadic.value] at hvalue
    push_cast at hvalue
    exact hvalue
  by_contra hexponent
  unfold Double.maxExponent at hexponent
  have hcanonical := h.isCanonical
  have hlong : (2 ^ 52 : ℚ) ≤ (carried t n).significand := by
    refine mod_cast hcanonical.full.resolve_right fun hleast => hexponent ?_
    rw [hleast]
    decide
  have hgreat : (2 ^ (972 : ℤ) : ℚ) ≤ 2 ^ (carried t n).exponent :=
    zpow_le_zpow_right₀ one_le_two (by omega)
  have hfar : (2 ^ 52 * 2 ^ (972 : ℤ) : ℚ) ≤ (carried t n).value :=
    mul_le_mul hlong hgreat (by positivity) (by positivity)
  linarith

end OnGrid

end Binary64

namespace Double

open Binary64

/-! ## Correct rounding -/

/-- The number nearest to `q`. Where another one is as near, it is the one with the even word. -/
structure IsRounding (x : Double) (q : ℚ) : Prop where
  finite : x.isFinite = true
  nearest : ∀ v : Double, v.isFinite = true → |x.toRat - q| ≤ |v.toRat - q|
  even : ∀ v : Double, v.isFinite = true → v.toRat ≠ x.toRat → |v.toRat - q| = |x.toRat - q| →
    x.magnitude % 2 = 0

variable {x y b : Double} {p q : ℚ} {t : Int} {n : Nat}

/-- A number that is rounded to an integer of its grid is rounded to the word of that integer. -/
theorem isRounding_ofMagnitude (s : Bool) (hq : 0 ≤ q) (h : OnGrid q t n)
    (hmax : (carried t n).exponent ≤ maxExponent) :
    (ofMagnitude s (carried t n).word).IsRounding (unit s * q) := by
  have hlt := h.isCanonical.word_lt hmax
  have hmagnitude := magnitude_ofMagnitude s (hlt.trans (by decide))
  have hvalue := toRat_ofMagnitude s h.isCanonical hmax
  have hself := abs_unit_mul_sub s (carried t n).value q
  have hother : ∀ v : Double, |v.dyadic.value - q| ≤ |v.toRat - unit s * q| := fun v => by
    have hreverse := abs_abs_sub_abs_le v.toRat (unit s * q)
    rwa [abs_toRat, abs_unit_mul s hq] at hreverse
  constructor
  case finite => exact isFinite_ofMagnitude s hlt
  case nearest =>
    intro v _
    rw [hvalue, hself]
    exact (h.word_apart v).1.trans (hother v)
  case even =>
    intro v _ hne htie
    rw [hvalue] at hne
    rw [hvalue, hself] at htie
    rw [hmagnitude, h.word_carried]
    obtain ⟨hnear, heven⟩ := h.word_apart v
    refine heven (fun hsame => hne ?_) (le_antisymm (htie ▸ hother v) hnear)
    -- The word of the other sign can be as near only to zero, and that is rounded to zero.
    rw [toRat_eq, hsame] at hne htie ⊢
    obtain rfl : q = 0 := eq_zero_of_tie hne htie
    have hzero := (h.word_apart (ofMagnitude false 0)).1
    rw [value_zero, sub_zero, sub_zero, abs_zero] at hzero
    rw [abs_nonpos_iff.1 hzero, mul_zero, mul_zero]

theorem isRounding_self (h : x.isFinite = true) : x.IsRounding x.toRat where
  finite := h
  nearest v _ := by
    rw [sub_self, abs_zero]
    exact abs_nonneg _
  even v _ hne htie := by
    rw [sub_self, abs_zero, abs_eq_zero] at htie
    exact absurd (sub_eq_zero.1 htie) hne

theorem IsRounding.opposite (h : x.IsRounding q) : x.opposite.IsRounding (-q) := by
  have hflip : ∀ v : Double, |v.toRat - -q| = |v.opposite.toRat - q| := fun v => by
    rw [toRat_opposite, sub_neg_eq_add, ← neg_add', abs_neg]
  have hself : x.opposite.opposite.toRat = x.toRat := by
    rw [toRat_opposite, toRat_opposite, neg_neg]
  constructor
  case finite => exact x.isFinite_opposite.trans h.finite
  case nearest =>
    intro v hv
    rw [hflip, hflip, hself]
    exact h.nearest _ (v.isFinite_opposite.trans hv)
  case even =>
    intro v hv hne htie
    rw [hflip, hflip, hself] at htie
    rw [magnitude_opposite]
    refine h.even _ (v.isFinite_opposite.trans hv) (fun hsame => hne ?_) htie
    rw [toRat_opposite, ← hsame, toRat_opposite, neg_neg]

/-! ## What rounding keeps -/

namespace IsRounding

/-- Of two numbers the upper one is no farther where `q` is not below the middle. -/
theorem abs_upper_le_iff {a b : ℚ} (h : a < b) : |b - q| ≤ |a - q| ↔ a + b ≤ 2 * q := by
  have hfactor : (a - q) ^ 2 - (b - q) ^ 2 = (b - a) * (2 * q - (a + b)) := by ring
  rw [← sq_le_sq, ← sub_nonneg, hfactor, mul_nonneg_iff_of_pos_left (sub_pos.2 h), sub_nonneg]

/-- Of two numbers the lower one is no farther where `q` is not above the middle. -/
theorem abs_lower_le_iff {a b : ℚ} (h : a < b) : |a - q| ≤ |b - q| ↔ 2 * q ≤ a + b := by
  have hfactor : (b - q) ^ 2 - (a - q) ^ 2 = (b - a) * (a + b - 2 * q) := by ring
  rw [← sq_le_sq, ← sub_nonneg, hfactor, mul_nonneg_iff_of_pos_left (sub_pos.2 h), sub_nonneg]

theorem abs_sub_eq_iff {a b : ℚ} (h : a < b) : |a - q| = |b - q| ↔ a + b = 2 * q := by
  rw [le_antisymm_iff, abs_lower_le_iff h, abs_upper_le_iff h, and_comm, ← le_antisymm_iff]

/-- What is not above a word is not rounded above it. -/
theorem le (h : x.IsRounding q) (hb : b.isFinite = true) (hq : q ≤ b.toRat) :
    x.toRat ≤ b.toRat := by
  have hnear := (le_abs_self _).trans (h.nearest b hb)
  rw [abs_of_nonneg (sub_nonneg.2 hq)] at hnear
  linarith

/-- What is not below a word is not rounded below it. -/
theorem ge (h : x.IsRounding q) (hb : b.isFinite = true) (hq : b.toRat ≤ q) :
    b.toRat ≤ x.toRat := by
  have hnear := (neg_le_abs _).trans (h.nearest b hb)
  rw [abs_of_nonpos (sub_nonpos.2 hq)] at hnear
  linarith

/-- **Between two neighbours** a number is rounded to the upper one from the middle on, and in the
middle itself if that word is even. -/
theorem toRat_eq_upper_iff {a : Double} (h : x.IsRounding q) (ha : a.isFinite = true)
    (hb : b.isFinite = true) (hnext : b.key = a.key + 1) (hq : q ≤ b.toRat) :
    x.toRat = b.toRat ↔
      a.toRat + b.toRat < 2 * q ∨ a.toRat + b.toRat = 2 * q ∧ b.magnitude % 2 = 0 := by
  have hab : a.toRat < b.toRat := toRat_lt_iff.2 (by omega)
  constructor
  · intro hx
    have hnear := h.nearest a ha
    rw [hx, abs_upper_le_iff hab] at hnear
    refine hnear.lt_or_eq.imp_right fun hmiddle => ⟨hmiddle, ?_⟩
    have htie : |a.toRat - q| = |x.toRat - q| := hx ▸ (abs_sub_eq_iff hab).2 hmiddle
    have heven := h.even a ha (hx ▸ hab.ne) htie
    rwa [← natAbs_key, toRat_eq_iff.1 hx, natAbs_key] at heven
  · intro hmiddle
    by_contra hne
    have hlt : x.toRat < b.toRat := lt_of_le_of_ne (h.le hb hq) hne
    have hkey := toRat_lt_iff.1 hlt
    have hle : x.toRat ≤ a.toRat := toRat_le_iff.2 (by omega)
    -- So the word is the lower neighbour, as near as the upper, and its word is odd.
    have hfar := (abs_lower_le_iff hlt).1 (h.nearest b hb)
    rcases hmiddle with hmiddle | ⟨hmiddle, heven⟩
    · linarith
    · have hxa : x.toRat = a.toRat := le_antisymm hle (by linarith)
      have htie : |b.toRat - q| = |x.toRat - q| := by
        rw [hxa]
        exact ((abs_sub_eq_iff hab).2 hmiddle).symm
      have hodd := h.even b hb hlt.ne' htie
      rw [← natAbs_key, toRat_eq_iff.1 hxa] at hodd
      rw [← natAbs_key, hnext] at heven
      omega

/-- **A number is rounded to one number**; only the sign of a zero is left open. -/
theorem toRat_eq (h : x.IsRounding q) (h' : y.IsRounding q) : x.toRat = y.toRat := by
  wlog hlt : x.toRat < y.toRat generalizing x y
  · rcases (not_lt.1 hlt).lt_or_eq with hgt | heq
    · exact (this h' h hgt).symm
    · exact heq.symm
  exfalso
  have htie : |x.toRat - q| = |y.toRat - q| :=
    le_antisymm (h.nearest y h'.finite) (h'.nearest x h.finite)
  have hmiddle := (abs_sub_eq_iff hlt).1 htie
  have heven := h.even y h'.finite hlt.ne' htie.symm
  have heven' := h'.even x h.finite hlt.ne htie
  -- Both words are even, so another one lies between them, which is nearer.
  have hkey := toRat_lt_iff.1 hlt
  have hx := isFinite_iff.1 h.finite
  have hy := isFinite_iff.1 h'.finite
  rw [← natAbs_key] at heven heven'
  have hfinite : (x.key + 1).natAbs < infMagnitude := by omega
  have hbetween := key_ofKey (hfinite.trans (by decide))
  have hlow : x.toRat < (ofKey (x.key + 1)).toRat := toRat_lt_iff.2 (by omega)
  have hhigh : (ofKey (x.key + 1)).toRat < y.toRat := toRat_lt_iff.2 (by omega)
  have hnear := h.nearest (ofKey (x.key + 1)) (isFinite_iff.2 (by omega))
  rw [abs_of_neg (show x.toRat - q < 0 by linarith)] at hnear
  exact absurd hnear (not_le.2 (abs_lt.2 ⟨by linarith, by linarith⟩))

/-- **Rounding keeps the order.** -/
theorem mono (h : x.IsRounding p) (h' : y.IsRounding q) (hle : p ≤ q) : x.toRat ≤ y.toRat := by
  rcases hle.lt_or_eq with hlt | rfl
  · by_contra hgt
    have hlow := (abs_upper_le_iff (not_le.1 hgt)).1 (h.nearest y h'.finite)
    have hhigh := (abs_lower_le_iff (not_le.1 hgt)).1 (h'.nearest x h.finite)
    linarith
  · exact (h.toRat_eq h').le

end IsRounding

end Double

end Stylesheet
