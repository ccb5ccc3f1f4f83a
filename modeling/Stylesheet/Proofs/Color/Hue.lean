import Stylesheet.Proofs.Color.Exact

/-!
# The hue of a colour

Going round the circle, a primary rises from the lower level of a colour to the upper for a sixth of
a turn, stays there for two sixths, falls for one and stays low for two (`level`). Red is two sixths
of a turn ahead of green, and blue is two sixths behind.

**Theorem (`hueOf_sextant`).** The hue that `sextant` computes from red, green and blue is one at
which the primaries are red, green and blue again (`HueOf`).

The edges of the pieces meet, so each piece may be taken with both its ends (`level_rising` to
`level_low`). From red to yellow green rises, and from there to green red falls
(`HueOf.red_yellow`, `HueOf.yellow_green`); the other four sectors are these two after a third of a
turn or two thirds (`HueOf.third_turn`). Conversely the difference of the two primaries that are not
at the upper level is the share of the third, and its sign says in which sector (`share_cases`).
-/

namespace Stylesheet

open Channel

/-! ## The level of a primary -/

/-- The level of a primary between two others, at a position that is counted in sixths of a turn. -/
def level (m M t : ℚ) : ℚ :=
  if t < 1 then m + (M - m) * t
  else if t < 3 then M
  else if t < 4 then m + (M - m) * (4 - t)
  else m

section

variable {m M t : ℚ}

theorem primary_eq_level (m M p : ℚ) : primary m M p = level m M (6 * wrap p 1) := by
  have hrise (h : ℚ) : h * 6 < 1 ↔ 6 * h < 1 := by rw [mul_comm]
  have hhigh (h : ℚ) : h * 2 < 1 ↔ 6 * h < 3 := by constructor <;> intro <;> linarith
  have hfall (h : ℚ) : h * 3 < 2 ↔ 6 * h < 4 := by constructor <;> intro <;> linarith
  have hprimary : primary m M p =
      if wrap p 1 * 6 < 1 then m + (M - m) * wrap p 1 * 6
      else if wrap p 1 * 2 < 1 then M
      else if wrap p 1 * 3 < 2 then m + (M - m) * (2 / 3 - wrap p 1) * 6
      else m := by
    simp only [primary, lt_iff]
    rfl
  rw [hprimary, level]
  simp only [hrise, hhigh, hfall]
  split_ifs <;> ring

theorem level_rising (h : t ≤ 1) : level m M t = m + (M - m) * t := by
  rcases h.lt_or_eq with h | rfl
  · rw [level, if_pos h]
  · rw [level, if_neg (lt_irrefl 1), if_pos (by norm_num)]
    ring

theorem level_high (hlo : 1 ≤ t) (hhi : t ≤ 3) : level m M t = M := by
  rcases hhi.lt_or_eq with h | rfl
  · rw [level, if_neg hlo.not_gt, if_pos h]
  · rw [level, if_neg (by norm_num), if_neg (by norm_num), if_pos (by norm_num)]
    ring

theorem level_falling (hlo : 3 ≤ t) (hhi : t ≤ 4) : level m M t = m + (M - m) * (4 - t) := by
  rcases hhi.lt_or_eq with h | rfl
  · rw [level, if_neg (by linarith), if_neg hlo.not_gt, if_pos h]
  · rw [level, if_neg (by norm_num), if_neg (by norm_num), if_neg (by norm_num)]
    ring

theorem level_low (h : 4 ≤ t) : level m M t = m := by
  rw [level, if_neg (by linarith), if_neg (by linarith), if_neg h.not_gt]

/-- Between two equal levels there is only one. -/
theorem primary_self (m p : ℚ) : primary m m p = m := by
  rw [primary_eq_level, level]
  split_ifs <;> ring

end

/-! ## The hue -/

/-- A hue, in sixths of a turn, at which the primaries between two levels are those of a colour. -/
structure HueOf (m M r g b h : ℚ) : Prop where
  nonneg : 0 ≤ h
  lt_six : h < 6
  red : primary m M (h / 6 + 1 / 3) = r
  green : primary m M (h / 6) = g
  blue : primary m M (h / 6 - 1 / 3) = b

section

variable {h : ℚ}

theorem position_green (hlo : 0 ≤ h) (hhi : h < 6) : 6 * wrap (h / 6) 1 = h := by
  rw [wrap_eq_self (by linarith) (by linarith)]
  ring

/-- In the first two thirds of the circle red has not come round to its start. -/
theorem position_red (hlo : 0 ≤ h) (hhi : h < 4) : 6 * wrap (h / 6 + 1 / 3) 1 = h + 2 := by
  rw [wrap_eq_self (by linarith) (by linarith)]
  ring

/-- In the first third of the circle blue is still before its start. -/
theorem position_blue (hlo : 0 ≤ h) (hhi : h < 2) : 6 * wrap (h / 6 - 1 / 3) 1 = h + 4 := by
  rw [wrap_eq_add (by linarith) (by linarith)]
  ring

end

namespace HueOf

variable {m M r g b h s : ℚ}

/-- From red to yellow green rises. -/
theorem red_yellow (hlo : 0 ≤ s) (hhi : s ≤ 1) : HueOf m M M (m + (M - m) * s) m s where
  nonneg := hlo
  lt_six := by linarith
  red := by
    rw [primary_eq_level, position_red hlo (by linarith)]
    exact level_high (by linarith) (by linarith)
  green := by
    rw [primary_eq_level, position_green hlo (by linarith)]
    exact level_rising hhi
  blue := by
    rw [primary_eq_level, position_blue hlo (by linarith)]
    exact level_low (by linarith)

/-- From yellow to green red falls. -/
theorem yellow_green (hlo : -1 ≤ s) (hhi : s < 0) :
    HueOf m M (m + (M - m) * -s) M m (s + 2) where
  nonneg := by linarith
  lt_six := by linarith
  red := by
    rw [primary_eq_level, position_red (by linarith) (by linarith),
      level_falling (by linarith) (by linarith)]
    ring
  green := by
    rw [primary_eq_level, position_green (by linarith) (by linarith)]
    exact level_high (by linarith) (by linarith)
  blue := by
    rw [primary_eq_level, position_blue (by linarith) (by linarith)]
    exact level_low (by linarith)

/-- **A third of a turn moves the primaries on by one.** -/
theorem third_turn (H : HueOf m M r g b h) (hlt : h < 4) : HueOf m M b r g (h + 2) where
  nonneg := by linarith [H.nonneg]
  lt_six := by linarith
  red := by
    have hlo := H.nonneg
    have hwrap : wrap ((h + 2) / 6 + 1 / 3) 1 = wrap (h / 6 - 1 / 3) 1 := by
      rcases lt_or_ge h 2 with hh | hh
      · rw [wrap_eq_self (by linarith) (by linarith), wrap_eq_add (by linarith) (by linarith)]
        ring
      · rw [wrap_eq_sub (by linarith) (by linarith), wrap_eq_self (by linarith) (by linarith)]
        ring
    rw [← H.blue, primary_eq_level, hwrap, primary_eq_level]
  green := by
    have hturn : (h + 2) / 6 = h / 6 + 1 / 3 := by ring
    rw [← H.red, hturn]
  blue := by
    have hturn : (h + 2) / 6 - 1 / 3 = h / 6 := by ring
    rw [← H.green, hturn]

end HueOf

/-! ## The computed hue -/

section

variable {m M r g b x y : ℚ}

/-- A primary between the levels as its share of the way from the lower to the upper. -/
theorem share_spec (h : m < M) (hm : m ≤ y) (hM : y ≤ M) :
    0 ≤ (y - m) / (M - m) ∧ (y - m) / (M - m) ≤ 1 ∧ m + (M - m) * ((y - m) / (M - m)) = y := by
  have hd : 0 < M - m := sub_pos.2 h
  refine ⟨div_nonneg (sub_nonneg.2 hm) hd.le, (div_le_one hd).2 (by linarith), ?_⟩
  rw [mul_div_cancel₀ _ hd.ne']
  ring

/-- The smaller of two primaries is at the lower level. Their difference, as a share of the distance
between the levels, is the share of the other one, and its sign tells which one that is. -/
theorem share_cases (hm : min x y = m) (h : m < M) (hx : x ≤ M) (hy : y ≤ M) :
    ∃ s, (x - y) / (M - m) = s ∧
      ((¬ x < y ∧ 0 ≤ s ∧ s ≤ 1 ∧ m + (M - m) * s = x ∧ y = m) ∨
        (x < y ∧ -1 ≤ s ∧ s < 0 ∧ m + (M - m) * -s = y ∧ x = m)) := by
  refine ⟨_, rfl, ?_⟩
  rcases le_or_gt y x with hyx | hxy
  · obtain rfl : y = m := (min_eq_right hyx).symm.trans hm
    obtain ⟨h0, h1, hshare⟩ := share_spec h hyx hx
    exact .inl ⟨hyx.not_gt, h0, h1, hshare, rfl⟩
  · obtain rfl : x = m := (min_eq_left hxy.le).symm.trans hm
    obtain ⟨-, h1, hshare⟩ := share_spec h hxy.le hy
    have hneg : (x - y) / (M - x) = -((y - x) / (M - x)) := by rw [← neg_sub y x, neg_div]
    have hpos : 0 < (y - x) / (M - x) := div_pos (sub_pos.2 hxy) (sub_pos.2 h)
    rw [hneg, neg_neg]
    exact .inr ⟨hxy, neg_le_neg h1, neg_neg_of_pos hpos, hshare, rfl⟩

/-- Red is largest: the sectors on either side of it. -/
theorem hueOf_red (hm : min g b = m) (h : m < M) (hg : g ≤ M) (hb : b ≤ M) :
    HueOf m M M g b ((g - b) / (M - m) + if g < b then 6 else 0) := by
  obtain ⟨s, hs, ⟨hle, hlo, hhi, rfl, rfl⟩ | ⟨hlt, hlo, hhi, rfl, rfl⟩⟩ := share_cases hm h hg hb
  · rw [hs, if_neg hle, add_zero]
    exact .red_yellow hlo hhi
  · have hround : s + 6 = s + 2 + 2 + 2 := by ring
    rw [hs, if_pos hlt, hround]
    exact ((HueOf.yellow_green hlo hhi).third_turn (by linarith)).third_turn (by linarith)

theorem hueOf_green (hm : min b r = m) (h : m < M) (hb : b ≤ M) (hr : r ≤ M) :
    HueOf m M r M b ((b - r) / (M - m) + 2) := by
  obtain ⟨s, hs, ⟨-, hlo, hhi, rfl, rfl⟩ | ⟨-, hlo, hhi, rfl, rfl⟩⟩ := share_cases hm h hb hr
  · rw [hs]
    exact (HueOf.red_yellow hlo hhi).third_turn (by linarith)
  · rw [hs]
    exact .yellow_green hlo hhi

theorem hueOf_blue (hm : min r g = m) (h : m < M) (hr : r ≤ M) (hg : g ≤ M) :
    HueOf m M r g M ((r - g) / (M - m) + 4) := by
  have hround (s : ℚ) : s + 4 = s + 2 + 2 := by ring
  obtain ⟨s, hs, ⟨-, hlo, hhi, rfl, rfl⟩ | ⟨-, hlo, hhi, rfl, rfl⟩⟩ := share_cases hm h hr hg
  · rw [hs, hround]
    exact ((HueOf.red_yellow hlo hhi).third_turn (by linarith)).third_turn (by linarith)
  · rw [hs, hround]
    exact (HueOf.yellow_green hlo hhi).third_turn (by linarith)

theorem sextant_eq (r g b max delta : ℚ) : sextant r g b max delta =
    if r = max then (g - b) / delta + (if g < b then 6 else 0)
    else if g = max then (b - r) / delta + 2
    else (r - g) / delta + 4 := by
  simp only [sextant, same_iff, lt_iff]
  rfl

/-- **The computed hue gives the colour its primaries back.** -/
theorem hueOf_sextant (hm : min (min r g) b = m) (hM : max (max r g) b = M) (h : m < M) :
    HueOf m M r g b (sextant r g b M (M - m)) := by
  have hr : r ≤ M := hM ▸ (le_max_left r g).trans (le_max_left _ b)
  have hg : g ≤ M := hM ▸ (le_max_right r g).trans (le_max_left _ b)
  have hb : b ≤ M := hM ▸ le_max_right _ b
  -- The primary at the lower level is one of the two that are not at the upper.
  have hrest (x : ℚ) (hx : min M x = m) : x = m := (min_choice M x).elim
    (fun hmin => absurd (hmin.symm.trans hx) h.ne') (fun hmin => hmin.symm.trans hx)
  rw [sextant_eq]
  by_cases hred : r = M
  · have hgb : min g b = m := hrest _ (by rw [← hred, ← min_assoc, hm])
    rw [if_pos hred, hred]
    exact hueOf_red hgb h hg hb
  by_cases hgreen : g = M
  · have hbr : min b r = m := hrest _ (by rw [← hgreen, min_comm b, ← min_assoc, min_comm g, hm])
    rw [if_neg hred, if_pos hgreen, hgreen]
    exact hueOf_green hbr h hb hr
  · have hblue : b = M := by
      rcases max_choice (max r g) b with hmax | hmax
      · rcases max_choice r g with hmax' | hmax'
        · exact absurd ((hmax'.symm.trans hmax.symm).trans hM) hred
        · exact absurd ((hmax'.symm.trans hmax.symm).trans hM) hgreen
      · exact hmax.symm.trans hM
    have hrg : min r g = m := hrest _ (by rw [← hblue, min_comm b, hm])
    rw [if_neg hred, if_neg hgreen, hblue]
    exact hueOf_blue hrg h hr hg

end

end Stylesheet
