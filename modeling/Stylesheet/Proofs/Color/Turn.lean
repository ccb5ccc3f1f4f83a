import Stylesheet.Proofs.Color.Range
import Stylesheet.Proofs.Double.Bounds
import Stylesheet.Proofs.Double.Wrap

/-!
# Hues within a turn

**Theorem (`Channel.wrap_lands`).** A wrapped number lands from zero to the modulus, and on the
modulus itself only if its remainder is rounded up to it. So a hue that is given is below a turn
unless it is short of one by no more than `2 ^ -45`, and a number just below zero makes a hue of 360
(`Channel.wrap_justBelowZero`). A hue that is converted from red, green and blue is always below a
turn.

Converted hues are wrapped from zero on, where nothing is rounded (`wrap_lt_of_nonneg`). That they
are from zero on is a matter of rounding too: the difference of two channels is no farther from zero
than that of the largest and the smallest, and stays so when both are rounded, because rounding
keeps the order (`share_between`). So the share is from minus one to one, and where it can be
negative at least two sixths of a turn are added (`Spread.between_sextant`).
-/

namespace Stylesheet

open Channel Double

/-! ## Channels as numbers -/

namespace Double

variable {x y : Double} {lo hi : ℤ}

/-- The literals of the conversion are the numbers that they name. -/
theorem lit_spec : ∀ n ∈ [0, 2, 4, 6, 60, 255, 360],
    (lit n : Double).isFinite = true ∧ (lit n : Double).toRat = n := by
  decide +kernel

theorem lit_between (n : Nat) (h : n ∈ [0, 2, 4, 6, 60, 255, 360]) :
    (lit n : Double).Between n n := by
  obtain ⟨hfinite, hrat⟩ := lit_spec n h
  exact ⟨hfinite, by rw [hrat, Int.cast_natCast], by rw [hrat, Int.cast_natCast]⟩

theorem Between.larger (hx : x.Between lo hi) (hy : y.Between lo hi) :
    (larger x y).Between lo hi := by
  unfold Channel.larger
  split <;> assumption

theorem Between.smaller (hx : x.Between lo hi) (hy : y.Between lo hi) :
    (smaller x y).Between lo hi := by
  unfold Channel.smaller
  split <;> assumption

theorem toRat_larger (hx : x.isNaN = false) (hy : y.isNaN = false) :
    (larger x y).toRat = max x.toRat y.toRat := by
  have hle : Channel.le x y = true ↔ x.toRat ≤ y.toRat := le_iff hx hy
  unfold Channel.larger
  rw [isNumber_eq, hx, Bool.not_false, Bool.not_true, Bool.false_or]
  split
  · next h => exact (max_eq_right (hle.1 h)).symm
  · next h => exact (max_eq_left (not_le.1 (mt hle.2 h)).le).symm

theorem toRat_smaller (hx : x.isNaN = false) (hy : y.isNaN = false) :
    (smaller x y).toRat = min x.toRat y.toRat := by
  have hle : Channel.le y x = true ↔ y.toRat ≤ x.toRat := le_iff hy hx
  unfold Channel.smaller
  rw [isNumber_eq, hx, Bool.not_false, Bool.not_true, Bool.false_or]
  split
  · next h => exact (min_eq_right (hle.1 h)).symm
  · next h => exact (min_eq_left (not_le.1 (mt hle.2 h)).le).symm

/-- Equal numbers are near, also the two zeros. -/
theorem near_of_toRat_eq (h : x.toRat = y.toRat) : near x y = true := by
  have hkey := toRat_eq_iff.1 h
  have hmagnitude : x.magnitude = y.magnitude := by rw [← natAbs_key, ← natAbs_key, hkey]
  by_cases hzero : x.magnitude = 0
  · have hzeros : ∀ s s' : Bool, near (ofMagnitude s 0) (ofMagnitude s' 0) = true := by
      decide +kernel
    rw [← ofMagnitude_magnitude x, ← ofMagnitude_magnitude y, ← hmagnitude, hzero]
    exact hzeros _ _
  · have hsign : x.isNegative = y.isNegative := by
      unfold key at hkey
      split at hkey <;> split at hkey
      · next hx hy => exact hx.trans hy.symm
      · omega
      · omega
      · next hx hy => rw [Bool.eq_false_iff.2 hx, Bool.eq_false_iff.2 hy]
    rw [← ofMagnitude_magnitude x, ← ofMagnitude_magnitude y, hsign, hmagnitude]
    exact near_refl _

end Double

/-! ## Shares -/

section

variable {x y delta : Double} {q : ℚ}

/-- The difference of two channels as a share of the largest difference. -/
theorem share_between (hx : x.Between 0 1) (hy : y.Between 0 1) (hdelta : delta.IsRounding q)
    (hpos : 0 < delta.toRat) (hlow : -q ≤ x.toRat - y.toRat) (hhigh : x.toRat - y.toRat ≤ q) :
    ((x - y) / delta).Between (-1) 1 := by
  have hround := isRounding_sub_of_nonneg hx.finite hy.finite (by exact_mod_cast hx.low)
    (by exact_mod_cast hy.low)
  have hneg := hdelta.opposite.mono hround hlow
  rw [toRat_opposite] at hneg
  refine between_div hround.finite hdelta.finite hpos ?_ (hround.mono hdelta hhigh) (by decide)
  push_cast
  linarith

/-- It is not below zero where the first channel is not below the second. -/
theorem share_nonneg (hx : x.Between 0 1) (hy : y.Between 0 1) (hdelta : delta.IsRounding q)
    (hpos : 0 < delta.toRat) (hle : y.toRat ≤ x.toRat) (hhigh : x.toRat - y.toRat ≤ q) :
    ((x - y) / delta).Between 0 1 := by
  have hround := isRounding_sub_of_nonneg hx.finite hy.finite (by exact_mod_cast hx.low)
    (by exact_mod_cast hy.low)
  have hnonneg := hround.ge isFinite_zero (by rw [toRat_zero]; linarith)
  rw [toRat_zero] at hnonneg
  refine between_div hround.finite hdelta.finite hpos ?_ (hround.mono hdelta hhigh) (by decide)
  rwa [Int.cast_zero, zero_mul]

end

/-! ## The hue -/

section

variable {r g b M m : Double}

/-- Three channels from a smallest to a largest one, which are apart. -/
structure Spread (r g b M m : Double) : Prop where
  between : ∀ x ∈ [r, g, b], x.Between 0 1
  low : ∀ x ∈ [r, g, b], m.toRat ≤ x.toRat
  high : ∀ x ∈ [r, g, b], x.toRat ≤ M.toRat
  delta : (M - m).IsRounding (M.toRat - m.toRat)
  pos : 0 < (M - m).toRat

namespace Spread

variable (h : Spread r g b M m)
include h

theorem share {x y : Double} (hx : x ∈ [r, g, b]) (hy : y ∈ [r, g, b]) :
    ((x - y) / (M - m)).Between (-1) 1 :=
  share_between (h.between x hx) (h.between y hy) h.delta h.pos
    (by linarith [h.low x hx, h.high y hy]) (by linarith [h.high x hx, h.low y hy])

/-- **The hue in sixths of a turn is not below zero.** Where the share can be, two, four or six is
added. -/
theorem between_sextant : (sextant r g b M (M - m)).Between 0 7 := by
  unfold sextant
  split
  · split
    · exact ((h.share (by simp) (by simp)).add (lit_between 6 (by decide)) (by decide)
        (by decide)).mono (by decide) (by decide)
    · next hle =>
      have hg := h.between g (by simp)
      have hb := h.between b (by simp)
      have hbg : b.toRat ≤ g.toRat :=
        not_lt.1 fun hlt => hle ((Double.lt_iff hg.isNaN hb.isNaN).2 hlt)
      have hshare : ((g - b) / (M - m)).Between 0 1 :=
        share_nonneg hg hb h.delta h.pos hbg
          (by linarith [h.high g (by simp), h.low b (by simp)])
      exact (hshare.add (lit_between 0 (by decide)) (by decide) (by decide)).mono (by decide)
        (by decide)
  · split
    · exact ((h.share (by simp) (by simp)).add (lit_between 2 (by decide)) (by decide)
        (by decide)).mono (by decide) (by decide)
    · exact ((h.share (by simp) (by simp)).add (lit_between 4 (by decide)) (by decide)
        (by decide)).mono (by decide) (by decide)

end Spread

/-- What the conversion wraps: a number from zero on. -/
theorem between_raised (h : Spread r g b M m) :
    (sextant r g b M (M - m) * lit 60 : Double).Between 0 420 :=
  h.between_sextant.mul ((lit_between 60 (by decide)).mono (by decide) le_rfl) (by decide)

/-- Channels from 0 to 1 that do not make a grey are spread. -/
theorem spread_of_not_near (hr : r.Between 0 1) (hg : g.Between 0 1) (hb : b.Between 0 1)
    (h : Channel.near (larger (larger r g) b) (smaller (smaller r g) b) = false) :
    Spread r g b (larger (larger r g) b) (smaller (smaller r g) b) := by
  have hmax := toRat_larger (hr.larger hg).isNaN hb.isNaN
  have hmin := toRat_smaller (hr.smaller hg).isNaN hb.isNaN
  rw [toRat_larger hr.isNaN hg.isNaN] at hmax
  rw [toRat_smaller hr.isNaN hg.isNaN] at hmin
  have hM := (hr.larger hg).larger hb
  have hm := (hr.smaller hg).smaller hb
  have hdelta := isRounding_sub_of_nonneg hM.finite hm.finite (by exact_mod_cast hM.low)
    (by exact_mod_cast hm.low)
  have hlow : ∀ x ∈ [r, g, b], (smaller (smaller r g) b).toRat ≤ x.toRat := by
    rw [hmin]
    simp
  have hhigh : ∀ x ∈ [r, g, b], x.toRat ≤ (larger (larger r g) b).toRat := by
    rw [hmax]
    simp
  refine ⟨by simp [hr, hg, hb], hlow, hhigh, hdelta, pos_of_isRounding_sub hdelta ?_⟩
  refine lt_of_le_of_ne ((hlow r (by simp)).trans (hhigh r (by simp))) fun heq => ?_
  exact absurd (near_of_toRat_eq heq.symm) (Bool.eq_false_iff.1 h)

end

/-! ## Below a turn -/

theorem toRat_turn : (360 : Double).toRat = 360 := (lit_spec 360 (by decide)).2

theorem turn_pos : 0 < (360 : Double).toRat := by
  rw [toRat_turn]
  norm_num

theorem isFinite_turn : (360 : Double).isFinite = true := (lit_spec 360 (by decide)).1

theorem Hsl.h_clamped (h s l alpha : Double) : (clamped h s l alpha).h = wrap h 360 := rfl

/-- From zero on a hue is wrapped exactly, to below a turn. -/
theorem wrap_lt_of_nonneg {x : Double} {hi : ℤ} (h : x.Between 0 hi) :
    Double.le 0 (wrap x 360) = true ∧ Double.lt (wrap x 360) 360 = true := by
  refine ⟨le_zero_wrap h.finite isFinite_turn turn_pos, ?_⟩
  rw [wrap_lt_iff_toRat_lt h.finite isFinite_turn turn_pos,
    toRat_wrap_of_nonneg h.finite isFinite_turn turn_pos (by exact_mod_cast h.low)]
  exact residue_lt _ turn_pos

/-- A channel from 0 to 255 over 255. -/
theorem between_div_byte {x : Double} (h : x.Within 0 255) : (x / lit 255).Between 0 1 := by
  obtain ⟨hfinite, hrat⟩ := lit_spec 255 (by decide)
  have hlow : (0 : Double).toRat ≤ x.toRat := by
    refine not_lt.1 fun hlt => Bool.eq_false_iff.1 h.low ?_
    exact (Double.lt_iff h.number (by decide)).2 hlt
  have hhigh : x.toRat ≤ (lit 255 : Double).toRat := by
    refine not_lt.1 fun hlt => Bool.eq_false_iff.1 h.high ?_
    exact (Double.lt_iff (by decide) h.number).2 hlt
  have hx : x.isFinite = true := by
    have hzero : (0 : Double).key = 0 := by decide
    have hbyte : (lit 255 : Double).key < infMagnitude := by decide +kernel
    have hlow' := toRat_le_iff.1 hlow
    have hhigh' := toRat_le_iff.1 hhigh
    exact isFinite_iff.2 (by omega)
  refine between_div hx hfinite (by rw [hrat]; norm_num) ?_ hhigh (by decide)
  rwa [Int.cast_zero, zero_mul, ← toRat_zero]

/-- **A hue that is converted from red, green and blue is below a turn.** -/
theorem Rgb.Bounded.hue_toHsl {c : Rgb Double} (h : c.Bounded) :
    Double.le 0 c.toHsl.h = true ∧ Double.lt c.toHsl.h 360 = true := by
  have hr := between_div_byte h.r
  have hg := between_div_byte h.g
  have hb := between_div_byte h.b
  unfold toHsl
  dsimp only
  split
  · have hgrey := (lit_between 0 (by decide)).mul
      ((lit_between 60 (by decide)).mono (by decide) le_rfl) (by decide)
    rw [Hsl.h_clamped]
    exact wrap_lt_of_nonneg hgrey
  · next hnear =>
    rw [Hsl.h_clamped]
    exact wrap_lt_of_nonneg
      (between_raised (spread_of_not_near hr hg hb (Bool.eq_false_iff.2 hnear)))

/-- The word before a turn is less by `2 ^ -44`. From the middle on a number is rounded up to the
turn, also in the middle, because the word of the turn is even. -/
theorem roundsUpTo_turn (q : ℚ) : (360 : Double).RoundsUpTo q ↔ 360 - 1 / 2 ^ 45 ≤ q := by
  have hbefore : (360 : Double).before.toRat = 360 - 1 / 2 ^ 44 := by decide +kernel
  have heven : (360 : Double).magnitude % 2 = 0 := by decide +kernel
  have hmiddle : (360 - 1 / 2 ^ 44 + 360 : ℚ) = 2 * (360 - 1 / 2 ^ 45) := by norm_num
  rw [RoundsUpTo, hbefore, toRat_turn, hmiddle, heven]
  simp only [and_true]
  rw [← le_iff_lt_or_eq, mul_le_mul_iff_right₀ two_pos]

/-- **Where a number lands when it is wrapped.** Its remainder is from zero to below the modulus and
is rounded to nearest, so it lands from zero to the modulus, and on the modulus only if the
remainder is rounded up to it. A hue that is given lands on a whole turn if it is short of one by
`2 ^ -45` or less. A hue that is converted from red, green and blue lands below. -/
theorem Channel.wrap_lands {x m : Double} (hx : x.isFinite = true) (hm : m.isFinite = true)
    (hpos : Double.lt 0 m = true) :
    ((wrap x m).IsRounding (residue x.toRat m.toRat) ∧ Double.le 0 (wrap x m) = true ∧
      Double.le (wrap x m) m = true ∧
      (Double.lt (wrap x m) m = true ↔ ¬ m.RoundsUpTo (residue x.toRat m.toRat))) ∧
    (∀ s l alpha, Double.le 0 (Hsl.clamped x s l alpha).h = true ∧
      Double.le (Hsl.clamped x s l alpha).h 360 = true ∧
      (Double.lt (Hsl.clamped x s l alpha).h 360 = true ↔
        residue x.toRat 360 < 360 - 1 / 2 ^ 45)) ∧
    ∀ r g b alpha, Double.le 0 (Rgb.clamped r g b alpha).toHsl.h = true ∧
      Double.lt (Rgb.clamped r g b alpha).toHsl.h 360 = true := by
  have hpos' : 0 < m.toRat := by
    rw [← toRat_zero]
    exact (Double.lt_iff (isNaN_of_isFinite isFinite_zero) (isNaN_of_isFinite hm)).1 hpos
  refine ⟨⟨isRounding_wrap hx hm hpos', le_zero_wrap hx hm hpos', wrap_le hx hm hpos',
    wrap_lt_iff hx hm hpos'⟩, fun s l alpha => ?given, fun r g b alpha =>
    (Rgb.bounded_clamped r g b alpha).hue_toHsl⟩
  rw [Hsl.h_clamped]
  refine ⟨le_zero_wrap hx isFinite_turn turn_pos, wrap_le hx isFinite_turn turn_pos, ?_⟩
  rw [wrap_lt_iff hx isFinite_turn turn_pos, roundsUpTo_turn, not_le, toRat_turn]

/-- A number just below zero, `-1e-20`. -/
def Channel.justBelowZero : Double := ⟨0xbbc79ca10c924223⟩

/-- A hue of thirty degrees backwards lands below the turn, as its remainder of 330 says. -/
theorem Channel.wrap_lands_backwards : wrap ⟨0xc03e000000000000⟩ (360 : Double) = 330 ∧
    Double.lt (wrap ⟨0xc03e000000000000⟩ 360) (360 : Double) = true ∧
    ¬ (360 : Double).RoundsUpTo (residue (⟨0xc03e000000000000⟩ : Double).toRat
      (360 : Double).toRat) := by
  have hlands := Channel.wrap_lands (x := ⟨0xc03e000000000000⟩) (m := 360) (by decide +kernel)
    (by decide +kernel) (by decide +kernel)
  have hlt : Double.lt (wrap ⟨0xc03e000000000000⟩ 360) (360 : Double) = true := by decide +kernel
  exact ⟨by decide +kernel, hlt, hlands.1.2.2.2.1 hlt⟩

/-- **A number just below zero is wrapped to the whole turn**, which is not below the turn. -/
theorem Channel.wrap_justBelowZero : justBelowZero.isFinite = true ∧
    wrap justBelowZero (360 : Double) = 360 ∧
    Double.lt (wrap justBelowZero 360) (360 : Double) = false ∧
    (Hsl.clamped justBelowZero 1 0 1).h = 360 := by
  decide +kernel

end Stylesheet
