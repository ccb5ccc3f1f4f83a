import Mathlib.Data.Rat.Floor
import Mathlib.Tactic.FieldSimp
import Mathlib.Tactic.Linarith
import Mathlib.Tactic.NormNum
import Mathlib.Tactic.Ring
import Stylesheet.Color.Convert

/-!
# Channels without rounding

The conversions between the colour models are written for every type of scalars. Here they are read
over the rationals, where sums and quotients are exact and a remainder is what truncated division
leaves. Being near stays what it is: numbers are near that snap to one point of a grid of `1e-11`
(`Channel.gridPoint`).

**Clamping and wrapping do nothing to a scalar in its range** (`Channel.clamp_eq_self`,
`Channel.wrap_eq_self`), and wrapping moves a scalar that is less than a turn out of it by one turn.
**Numbers that snap to one point are less than a grid step apart** (`Channel.abs_sub_lt`).
-/

namespace Stylesheet.Channel

/-- The whole part of a number, toward zero. -/
def wholePart (x : ℚ) : ℤ := if 0 ≤ x then ⌊x⌋ else ⌈x⌉

/-- The nearest point of the grid at output precision, counted in its steps of `1e-11`; a half goes
away from zero. -/
def gridPoint (x : ℚ) : ℤ :=
  if 0 ≤ x then ⌊x * 10 ^ 11 + 1 / 2⌋ else ⌈x * 10 ^ 11 - 1 / 2⌉

/-- Rational channels: every operation is exact, and numbers are near that snap to one point. -/
instance : Channel ℚ where
  ofNat n := n
  lt x y := decide (x < y)
  le x y := decide (x ≤ y)
  rem x y := x - y * wholePart (x / y)
  near x y := decide (gridPoint x = gridPoint y)

variable {x y lo hi m : ℚ}

/-! ## Comparisons -/

theorem lt_iff : lt x y = true ↔ x < y := decide_eq_true_iff

theorem le_iff : le x y = true ↔ x ≤ y := decide_eq_true_iff

theorem near_iff : near x y = true ↔ gridPoint x = gridPoint y := decide_eq_true_iff

theorem same_iff : same x y = true ↔ x = y := by
  rw [same, Bool.and_eq_true, le_iff, le_iff, le_antisymm_iff]

theorem isNumber_eq_true (x : ℚ) : isNumber x = true := le_iff.2 le_rfl

theorem larger_eq_max (x y : ℚ) : larger x y = max x y := by
  simp only [larger, isNumber_eq_true, Bool.not_true, Bool.false_or, le_iff, max_def]

theorem smaller_eq_min (x y : ℚ) : smaller x y = min x y := by
  simp only [smaller, isNumber_eq_true, Bool.not_true, Bool.false_or, le_iff, min_comm x, min_def]

/-- Two numbers that are not negative and snap to one point are less than a step apart. -/
theorem abs_sub_lt (hx : 0 ≤ x) (hy : 0 ≤ y) (h : gridPoint x = gridPoint y) :
    |x - y| < 1 / 10 ^ 11 := by
  rw [gridPoint, gridPoint, if_pos hx, if_pos hy] at h
  have hscaled : |x * 10 ^ 11 + 1 / 2 - (y * 10 ^ 11 + 1 / 2)| < 1 :=
    Int.abs_sub_lt_one_of_floor_eq_floor h
  rw [abs_lt] at hscaled ⊢
  constructor <;> linarith [hscaled.1, hscaled.2]

/-! ## Clamping and wrapping -/

theorem clamp_eq_self (hlo : lo ≤ x) (hhi : x ≤ hi) : clamp x lo hi = x := by
  simp only [clamp, isNumber_eq_true, Bool.not_true, Bool.false_or, lt_iff, if_neg hlo.not_gt,
    if_neg hhi.not_gt]

theorem rem_eq (x m : ℚ) : rem x m = x - m * wholePart (x / m) := rfl

/-- Less than a modulus away from zero nothing is taken off, on either side. -/
theorem rem_eq_self (hlo : -m < x) (hhi : x < m) : rem x m = x := by
  have hm : 0 < m := by linarith
  have hwhole : wholePart (x / m) = 0 := by
    rw [wholePart]
    split
    · next hpos => exact Int.floor_eq_zero_iff.2 ⟨hpos, (div_lt_one hm).2 hhi⟩
    · next hneg =>
      refine Int.ceil_eq_zero_iff.2 ⟨?_, (not_le.1 hneg).le⟩
      rw [lt_div_iff₀ hm]
      linarith
  rw [rem_eq, hwhole, Int.cast_zero, mul_zero, sub_zero]

theorem rem_eq_sub (hlo : m ≤ x) (hhi : x < 2 * m) : rem x m = x - m := by
  have hm : 0 < m := by linarith
  have hfloor : ⌊x / m⌋ = 1 := by
    rw [Int.floor_eq_iff, Int.cast_one, le_div_iff₀ hm, div_lt_iff₀ hm]
    constructor <;> linarith
  have hwhole : wholePart (x / m) = 1 := by
    rw [wholePart, if_pos (div_nonneg (hm.le.trans hlo) hm.le), hfloor]
  rw [rem_eq, hwhole, Int.cast_one, mul_one]

theorem wrap_eq (x m : ℚ) : wrap x m = if rem x m < 0 then rem x m + m else rem x m := by
  simp only [wrap, lt_iff]
  rfl

theorem wrap_eq_self (hlo : 0 ≤ x) (hhi : x < m) : wrap x m = x := by
  rw [wrap_eq, rem_eq_self (by linarith) hhi, if_neg hlo.not_gt]

theorem wrap_eq_add (hlo : -m < x) (hhi : x < 0) : wrap x m = x + m := by
  rw [wrap_eq, rem_eq_self hlo (by linarith), if_pos hhi]

theorem wrap_eq_sub (hlo : m ≤ x) (hhi : x < 2 * m) : wrap x m = x - m := by
  rw [wrap_eq, rem_eq_sub hlo hhi, if_neg (by linarith)]

end Stylesheet.Channel
