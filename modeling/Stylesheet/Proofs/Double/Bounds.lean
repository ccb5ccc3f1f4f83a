import Stylesheet.Proofs.Double.Arithmetic

/-!
# Results between whole numbers

A number between two whole numbers is rounded to one between them, because these are words
themselves (`Double.exists_word_int`). So the bounds of a result follow from those of its operands
as they do in exact arithmetic (`Double.Between.add`, `Double.Between.mul`, `Double.between_sub`,
`Double.between_div`).
-/

namespace Stylesheet.Double

variable {x y : Double} {q : ℚ} {a b c d : ℤ}

/-- A finite number from `lo` to `hi`. -/
structure Between (x : Double) (lo hi : ℤ) : Prop where
  finite : x.isFinite = true
  low : lo ≤ x.toRat
  high : x.toRat ≤ hi

theorem Between.isNaN (h : x.Between a b) : x.isNaN = false := isNaN_of_isFinite h.finite

theorem Between.mono (h : x.Between a b) (hlow : c ≤ a) (hhigh : b ≤ d) : x.Between c d where
  finite := h.finite
  low := le_trans (by exact_mod_cast hlow) h.low
  high := h.high.trans (by exact_mod_cast hhigh)

theorem exists_word_int (k : ℤ) (h : k.natAbs < 2 ^ 53) :
    ∃ z : Double, z.isFinite = true ∧ z.toRat = k := by
  obtain ⟨hfinite, hrat⟩ := toRat_ofDyadic (d := ⟨k.natAbs, 0⟩) (decide (k < 0)) h
    (show minExponent ≤ 0 by decide) (show 0 ≤ maxExponent by decide)
  refine ⟨_, hfinite, hrat.trans ?_⟩
  have habs : (k.natAbs : ℚ) = |(k : ℚ)| := by rw [Nat.cast_natAbs, Int.cast_abs]
  rw [Dyadic.value, zpow_zero, mul_one, habs, unit]
  split
  · next hneg =>
    have hk : (k : ℚ) < 0 := by exact_mod_cast of_decide_eq_true hneg
    rw [abs_of_neg hk, neg_one_mul, neg_neg]
  · next hneg =>
    have hk : (0 : ℚ) ≤ k := by
      exact_mod_cast not_lt.1 fun hlt => hneg (decide_eq_true hlt)
    rw [abs_of_nonneg hk, one_mul]

/-- Whole numbers up to this, of either sign, are words. -/
def limit : ℤ := 2 ^ 52

/-- **What is rounded stays between whole numbers**, and so it is not beyond the finite numbers. -/
theorem between_of_isRounding (hlow : a ≤ q) (hhigh : q ≤ b) (ha : -limit ≤ a) (hb : b ≤ limit)
    (h : ∀ z : Double, z.isFinite = true → |q| ≤ z.dyadic.value → x.IsRounding q) :
    x.Between a b := by
  unfold limit at ha hb
  have hab : a ≤ b := by exact_mod_cast hlow.trans hhigh
  obtain ⟨z, hz, hzq⟩ := exists_word_int (2 ^ 52) (by decide)
  obtain ⟨za, hza, hzaq⟩ := exists_word_int a (by omega)
  obtain ⟨zb, hzb, hzbq⟩ := exists_word_int b (by omega)
  have hround : x.IsRounding q := by
    have ha' : (-2 ^ 52 : ℚ) ≤ a := by exact_mod_cast ha
    have hb' : (b : ℚ) ≤ 2 ^ 52 := by exact_mod_cast hb
    refine h z hz ?_
    rw [value_eq_toRat (hzq ▸ by positivity), hzq, abs_le]
    push_cast
    exact ⟨by linarith, by linarith⟩
  refine ⟨hround.finite, ?_, ?_⟩
  · rw [← hzaq] at hlow ⊢
    exact hround.ge hza hlow
  · rw [← hzbq] at hhigh ⊢
    exact hround.le hzb hhigh

theorem Between.add (hx : x.Between a b) (hy : y.Between c d) (hlow : -limit ≤ a + c)
    (hhigh : b + d ≤ limit) : (x + y).Between (a + c) (b + d) := by
  refine between_of_isRounding ?_ ?_ hlow hhigh fun z hz hle =>
    isRounding_add hx.finite hy.finite hz hle
  · push_cast
    exact add_le_add hx.low hy.low
  · push_cast
    exact add_le_add hx.high hy.high

theorem Between.mul (hx : x.Between 0 b) (hy : y.Between 0 d) (hhigh : b * d ≤ limit) :
    (x * y).Between 0 (b * d) := by
  have hx0 : 0 ≤ x.toRat := by exact_mod_cast hx.low
  have hy0 : 0 ≤ y.toRat := by exact_mod_cast hy.low
  refine between_of_isRounding ?_ ?_ (by decide) hhigh fun z hz hle =>
    isRounding_mul hx.finite hy.finite hz hle
  · exact_mod_cast mul_nonneg hx0 hy0
  · push_cast
    exact mul_le_mul hx.high hy.high hy0 (hx0.trans hx.high)

/-- The difference of two numbers from zero on is not beyond the larger one. -/
theorem isRounding_sub_of_nonneg (hx : x.isFinite = true) (hy : y.isFinite = true)
    (hx0 : 0 ≤ x.toRat) (hy0 : 0 ≤ y.toRat) : (x - y).IsRounding (x.toRat - y.toRat) := by
  rcases le_total x.toRat y.toRat with h | h
  · refine isRounding_sub hx hy hy ?_
    rw [value_eq_toRat hy0, abs_of_nonpos (sub_nonpos.2 h)]
    linarith
  · refine isRounding_sub hx hy hx ?_
    rw [value_eq_toRat hx0, abs_of_nonneg (sub_nonneg.2 h)]
    linarith

/-- Every number is a whole number of the least ones. -/
theorem exists_units (x : Double) : ∃ k : ℤ, x.toRat = k * 2 ^ minExponent := by
  obtain ⟨k, hk⟩ := (Binary64.value_div_cases x minExponent).resolve_right fun h => h.1 rfl
  rw [div_eq_iff (by positivity)] at hk
  rw [toRat_eq, hk, unit]
  split
  · exact ⟨-k, by push_cast; ring⟩
  · exact ⟨k, one_mul _⟩

/-- **The difference of two different numbers is not rounded to zero.** -/
theorem pos_of_isRounding_sub {z : Double} (h : z.IsRounding (x.toRat - y.toRat))
    (hlt : y.toRat < x.toRat) : 0 < z.toRat := by
  have hunit : (0 : ℚ) < 2 ^ minExponent := by positivity
  obtain ⟨k, hk⟩ := x.exists_units
  obtain ⟨l, hl⟩ := y.exists_units
  obtain ⟨hfinite, hleast⟩ := toRat_ofDyadic (d := ⟨1, minExponent⟩) false
    (show 1 < 2 ^ 53 by decide) le_rfl (show minExponent ≤ maxExponent by decide)
  rw [unit, if_neg Bool.false_ne_true, one_mul, Dyadic.value, Nat.cast_one, one_mul] at hleast
  have hone : (1 : ℚ) ≤ k - l := by
    rw [hk, hl, mul_lt_mul_iff_left₀ hunit] at hlt
    have hkl : l + 1 ≤ k := by exact_mod_cast hlt
    have hcast : (l : ℚ) + 1 ≤ k := by exact_mod_cast hkl
    linarith
  have hge := h.ge hfinite (by
    rw [hleast, hk, hl, ← sub_mul]
    exact le_mul_of_one_le_left hunit.le hone)
  rw [hleast] at hge
  exact hunit.trans_le hge

/-- A quotient of a number by one that is not nearer to zero. -/
theorem between_div (hx : x.isFinite = true) (hy : y.isFinite = true) (hpos : 0 < y.toRat)
    (hlow : a * y.toRat ≤ x.toRat) (hhigh : x.toRat ≤ y.toRat) (ha : -limit ≤ a) :
    (x / y).Between a 1 := by
  refine between_of_isRounding ?_ ?_ ha (by decide) fun z hz hle =>
    isRounding_div hx hy hz hpos.ne' hle
  · exact (le_div_iff₀ hpos).2 hlow
  · exact_mod_cast (div_le_one hpos).2 hhigh

end Stylesheet.Double
