import Stylesheet.Proofs.Color.Hue

/-!
# Converting a colour there and back

**Theorem (`Rgb.toRgb_toHsl`).** In exact arithmetic, a colour whose largest and smallest channel
do not snap to one point of the grid is its own conversion to hue, saturation and lightness and
back, and on the way there no channel is clamped and the hue is not wrapped. A colour whose largest
and smallest channel snap to one point is taken for a shade of grey, which costs a channel no more
than a step of the grid.

Saturation and lightness determine the two levels of a colour, its largest and smallest channel
(`upper_saturation`). The lightness is compared with a half strictly on the way there and not
strictly on the way back, but at a half both formulas agree. Between the two levels the hue gives
the primaries back (`hueOf_sextant`).
-/

namespace Stylesheet

open Channel

/-! ## Saturation and lightness -/

theorem saturation_eq (max min l : ℚ) : saturation max min l =
    if l < 1 / 2 then (max - min) / (max + min) else (max - min) / (2 - max - min) := by
  simp only [saturation, lt_iff]
  rfl

/-- The upper level of a colour of given lightness and saturation. -/
def upper (l s : ℚ) : ℚ := if l ≤ 1 / 2 then l * (s + 1) else l + s - l * s

section

variable {m M : ℚ}

theorem saturation_mem (hm : 0 ≤ m) (hlt : m < M) (hM : M ≤ 1) (l : ℚ) :
    0 ≤ saturation M m l ∧ saturation M m l ≤ 1 := by
  have hdark : 0 < M + m := by linarith
  have hlight : 0 < 2 - M - m := by linarith
  rw [saturation_eq]
  split
  · exact ⟨div_nonneg (by linarith) hdark.le, (div_le_one hdark).2 (by linarith)⟩
  · exact ⟨div_nonneg (by linarith) hlight.le, (div_le_one hlight).2 (by linarith)⟩

/-- **Saturation and lightness determine the upper level.** -/
theorem upper_saturation (hm : 0 ≤ m) (hlt : m < M) (hM : M ≤ 1) :
    upper ((M + m) / 2) (saturation M m ((M + m) / 2)) = M := by
  have hdark : M + m ≠ 0 := by linarith
  have hlight : 2 - M - m ≠ 0 := by linarith
  rw [saturation_eq, upper]
  rcases lt_trichotomy ((M + m) / 2) (1 / 2) with hl | hl | hl
  · rw [if_pos hl, if_pos hl.le]
    field_simp
    ring
  · -- Here the way there has passed to the second formula, and the way back not yet.
    have hsum : M + m = 1 := by linarith
    have hrest : 2 - M - m = 1 := by linarith
    rw [if_neg hl.not_lt, if_pos hl.le, hl, hrest]
    linarith
  · rw [if_neg hl.not_gt, if_neg hl.not_ge]
    field_simp
    ring

end

/-! ## The conversions -/

theorem Hsl.clamped_eq_self {c : Hsl ℚ} (hh : 0 ≤ c.h ∧ c.h < 360) (hs : 0 ≤ c.s ∧ c.s ≤ 1)
    (hl : 0 ≤ c.l ∧ c.l ≤ 1) (ha : 0 ≤ c.alpha ∧ c.alpha ≤ 1) :
    clamped c.h c.s c.l c.alpha = c := by
  have hunit {x : ℚ} (hx : 0 ≤ x ∧ x ≤ 1) : unitInterval x = x := clamp_eq_self hx.1 hx.2
  have hwrap : wrap c.h (lit 360) = c.h := wrap_eq_self hh.1 hh.2
  rw [clamped, hwrap, hunit hs, hunit hl, hunit ha]

theorem Hsl.toRgb_eq (c : Hsl ℚ) : c.toRgb =
    .clamped (primary (c.l * 2 - upper c.l c.s) (upper c.l c.s) (c.h / 360 + 1 / 3) * 255)
      (primary (c.l * 2 - upper c.l c.s) (upper c.l c.s) (c.h / 360) * 255)
      (primary (c.l * 2 - upper c.l c.s) (upper c.l c.s) (c.h / 360 - 1 / 3) * 255) c.alpha := by
  unfold toRgb
  simp only [le_iff]
  rfl

namespace Rgb

variable {c : Rgb ℚ}

/-- Channels in their ranges. -/
structure InRange (c : Rgb ℚ) : Prop where
  r : 0 ≤ c.r ∧ c.r ≤ 255
  g : 0 ≤ c.g ∧ c.g ≤ 255
  b : 0 ≤ c.b ∧ c.b ≤ 255
  alpha : 0 ≤ c.alpha ∧ c.alpha ≤ 1

theorem InRange.clamped_eq_self (h : c.InRange) : clamped c.r c.g c.b c.alpha = c := by
  have hbyte {x : ℚ} (hx : 0 ≤ x ∧ x ≤ 255) : byteRange x = x := clamp_eq_self hx.1 hx.2
  have halpha : unitInterval c.alpha = c.alpha := clamp_eq_self h.alpha.1 h.alpha.2
  rw [clamped, hbyte h.r, hbyte h.g, hbyte h.b, halpha]

/-- The largest of red, green and blue, the full level counting one. -/
def largest (c : Rgb ℚ) : ℚ := max (max (c.r / 255) (c.g / 255)) (c.b / 255)

/-- The smallest of red, green and blue. -/
def smallest (c : Rgb ℚ) : ℚ := min (min (c.r / 255) (c.g / 255)) (c.b / 255)

def lightness (c : Rgb ℚ) : ℚ := (c.largest + c.smallest) / 2

/-- The hue, saturation and lightness as they are computed, before the hue is wrapped and the others
are clamped. -/
def computedHsl (c : Rgb ℚ) : Hsl ℚ where
  h := sextant (c.r / 255) (c.g / 255) (c.b / 255) c.largest (c.largest - c.smallest) * 60
  s := saturation c.largest c.smallest c.lightness
  l := c.lightness
  alpha := c.alpha

theorem toHsl_of_not_near (h : gridPoint c.largest ≠ gridPoint c.smallest) :
    c.toHsl = .clamped c.computedHsl.h c.computedHsl.s c.computedHsl.l c.computedHsl.alpha := by
  unfold toHsl
  simp only [larger_eq_max, smaller_eq_min]
  exact if_neg fun hnear => h (near_iff.1 hnear)

theorem toHsl_of_near (h : gridPoint c.largest = gridPoint c.smallest) :
    c.toHsl = .clamped 0 0 c.lightness c.alpha := by
  have hzero : (lit 0 * lit 60 : ℚ) = 0 := zero_mul _
  unfold toHsl
  simp only [larger_eq_max, smaller_eq_min]
  exact (if_pos (near_iff.2 h)).trans
    (congrArg (Hsl.clamped · 0 c.lightness c.alpha) hzero)

/-- Red, green and blue lie between the smallest and the largest. -/
theorem between (c : Rgb ℚ) :
    (c.smallest ≤ c.r / 255 ∧ c.r / 255 ≤ c.largest) ∧
      (c.smallest ≤ c.g / 255 ∧ c.g / 255 ≤ c.largest) ∧
      c.smallest ≤ c.b / 255 ∧ c.b / 255 ≤ c.largest :=
  ⟨⟨(min_le_left _ _).trans (min_le_left _ _), (le_max_left _ _).trans (le_max_left _ _)⟩,
    ⟨(min_le_left _ _).trans (min_le_right _ _), (le_max_right _ _).trans (le_max_left _ _)⟩,
    min_le_right _ _, le_max_right _ _⟩

theorem hueOf_computedHsl (hlt : c.smallest < c.largest) :
    HueOf c.smallest c.largest (c.r / 255) (c.g / 255) (c.b / 255) (c.computedHsl.h / 60) := by
  rw [computedHsl, mul_div_cancel_right₀ _ (by norm_num)]
  exact hueOf_sextant rfl rfl hlt

namespace InRange

variable (h : c.InRange)
include h

theorem smallest_nonneg : 0 ≤ c.smallest :=
  le_min (le_min (div_nonneg h.r.1 (by norm_num)) (div_nonneg h.g.1 (by norm_num)))
    (div_nonneg h.b.1 (by norm_num))

theorem largest_le_one : c.largest ≤ 1 :=
  max_le (max_le ((div_le_one (by norm_num)).2 h.r.2) ((div_le_one (by norm_num)).2 h.g.2))
    ((div_le_one (by norm_num)).2 h.b.2)

theorem lightness_mem : 0 ≤ c.lightness ∧ c.lightness ≤ 1 := by
  have hle : c.smallest ≤ c.largest := c.between.1.1.trans c.between.1.2
  have hlo := h.smallest_nonneg
  have hhi := h.largest_le_one
  rw [lightness]
  constructor <;> linarith

/-- Clamping and wrapping leave what was computed. -/
theorem clamped_computedHsl (hlt : c.smallest < c.largest) :
    .clamped c.computedHsl.h c.computedHsl.s c.computedHsl.l c.computedHsl.alpha =
      c.computedHsl := by
  have hhue := hueOf_computedHsl hlt
  refine Hsl.clamped_eq_self ⟨?_, ?_⟩ ?_ h.lightness_mem h.alpha
  · linarith [hhue.nonneg]
  · linarith [hhue.lt_six]
  · exact saturation_mem h.smallest_nonneg hlt h.largest_le_one _

/-- **What was computed is converted back to the colour.** -/
theorem toRgb_computedHsl (hlt : c.smallest < c.largest) : c.computedHsl.toRgb = c := by
  have hhue := hueOf_computedHsl hlt
  have hupper : upper c.computedHsl.l c.computedHsl.s = c.largest :=
    upper_saturation h.smallest_nonneg hlt h.largest_le_one
  have hlower : c.computedHsl.l * 2 - upper c.computedHsl.l c.computedHsl.s = c.smallest := by
    rw [hupper, computedHsl, lightness]
    ring
  have hturn : c.computedHsl.h / 360 = c.computedHsl.h / 60 / 6 := by ring
  have hbyte : (255 : ℚ) ≠ 0 := by norm_num
  calc c.computedHsl.toRgb
      = .clamped (c.r / 255 * 255) (c.g / 255 * 255) (c.b / 255 * 255) c.alpha := by
        rw [Hsl.toRgb_eq, hlower, hupper, hturn, hhue.red, hhue.green, hhue.blue]
        rfl
    _ = .clamped c.r c.g c.b c.alpha := by simp only [div_mul_cancel₀ _ hbyte]
    _ = c := h.clamped_eq_self

/-- A colour with one level becomes the shade of grey of its lightness. -/
theorem toRgb_toHsl_of_near (hnear : gridPoint c.largest = gridPoint c.smallest) :
    c.toHsl.toRgb = ⟨c.lightness * 255, c.lightness * 255, c.lightness * 255, c.alpha⟩ := by
  have hgrey : c.toHsl = ⟨0, 0, c.lightness, c.alpha⟩ := by
    rw [toHsl_of_near hnear]
    exact Hsl.clamped_eq_self (c := ⟨0, 0, c.lightness, c.alpha⟩) (by norm_num) (by norm_num)
      h.lightness_mem h.alpha
  have hupper : upper c.lightness 0 = c.lightness := by
    rw [upper]
    split_ifs <;> ring
  have hlower : c.lightness * 2 - c.lightness = c.lightness := by ring
  have hbyte : 0 ≤ c.lightness * 255 ∧ c.lightness * 255 ≤ 255 := by
    constructor <;> linarith [h.lightness_mem.1, h.lightness_mem.2]
  rw [hgrey, Hsl.toRgb_eq]
  simp only [hupper, hlower, primary_self]
  exact clamped_eq_self (c := ⟨_, _, _, c.alpha⟩) ⟨hbyte, hbyte, hbyte, h.alpha⟩

/-- A channel of a colour with one level is less than a step away from the lightness. -/
theorem abs_lightness_sub_le {x : ℚ} (hnear : gridPoint c.largest = gridPoint c.smallest)
    (hx : c.smallest ≤ x / 255 ∧ x / 255 ≤ c.largest) :
    |c.lightness * 255 - x| ≤ 255 / 10 ^ 11 := by
  have hlevels : c.largest - c.smallest < 1 / 10 ^ 11 := (le_abs_self _).trans_lt
    (abs_sub_lt (h.smallest_nonneg.trans (hx.1.trans hx.2)) h.smallest_nonneg hnear)
  rw [lightness, abs_le]
  constructor <;> linarith [hx.1, hx.2]

end InRange

/-- **The conversion there and back is the identity** on colours that are not grey at output
precision, and loses less than a step of the grid on the others. -/
theorem toRgb_toHsl (h : c.InRange) :
    (gridPoint c.largest ≠ gridPoint c.smallest →
      c.toHsl =
          .clamped c.computedHsl.h c.computedHsl.s c.computedHsl.l c.computedHsl.alpha ∧
        .clamped c.computedHsl.h c.computedHsl.s c.computedHsl.l c.computedHsl.alpha =
          c.computedHsl ∧
        c.toHsl.toRgb = c) ∧
    (gridPoint c.largest = gridPoint c.smallest →
      |c.toHsl.toRgb.r - c.r| ≤ 255 / 10 ^ 11 ∧ |c.toHsl.toRgb.g - c.g| ≤ 255 / 10 ^ 11 ∧
        |c.toHsl.toRgb.b - c.b| ≤ 255 / 10 ^ 11 ∧ c.toHsl.toRgb.alpha = c.alpha) := by
  obtain ⟨hr, hg, hb⟩ := c.between
  refine ⟨fun hapart => ?_, fun hnear => ?_⟩
  · have hlt : c.smallest < c.largest :=
      lt_of_le_of_ne (hr.1.trans hr.2) fun heq => hapart (by rw [heq])
    have hclamped := h.clamped_computedHsl hlt
    refine ⟨toHsl_of_not_near hapart, hclamped, ?_⟩
    rw [toHsl_of_not_near hapart, hclamped, h.toRgb_computedHsl hlt]
  · rw [h.toRgb_toHsl_of_near hnear]
    exact ⟨h.abs_lightness_sub_le hnear hr, h.abs_lightness_sub_le hnear hg,
      h.abs_lightness_sub_le hnear hb, rfl⟩

/-- A hue from cyan to blue, half transparent. -/
def azure : Rgb ℚ := ⟨10, 120, 240, 1 / 2⟩

/-- A grey with a trace of blue. -/
def slate : Rgb ℚ := ⟨128, 128, 128 + 1 / 10 ^ 10, 1⟩

theorem toRgb_toHsl_azureAndSlate :
    azure.InRange ∧ gridPoint azure.largest ≠ gridPoint azure.smallest ∧ azure.toHsl.toRgb = azure ∧
      slate.InRange ∧ gridPoint slate.largest = gridPoint slate.smallest ∧
      |slate.toHsl.toRgb.b - slate.b| ≤ 255 / 10 ^ 11 := by
  have hazure : azure.InRange := by constructor <;> norm_num [azure]
  have hslate : slate.InRange := by constructor <;> norm_num [slate]
  have hapart : gridPoint azure.largest ≠ gridPoint azure.smallest := by decide +kernel
  have hnear : gridPoint slate.largest = gridPoint slate.smallest := by decide +kernel
  exact ⟨hazure, hapart, ((toRgb_toHsl hazure).1 hapart).2.2, hslate, hnear,
    ((toRgb_toHsl hslate).2 hnear).2.2.1⟩

end Rgb

end Stylesheet
