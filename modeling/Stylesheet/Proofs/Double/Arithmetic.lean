import Stylesheet.Proofs.Double.Rounding

/-!
# Sums, differences, products and quotients are correctly rounded

**Theorems (`Double.isRounding_add`, `Double.isRounding_sub`, `Double.isRounding_mul`,
`Double.isRounding_div`).** Each of the four operations on finite numbers gives the number nearest
to the exact result, if that is not beyond a finite number.

The operations differ only in what they hand to the rounding. A sum is an integer on the finer of
two grids (`decreaseExponent_eq`), and a difference is the sum with the opposite. A product is an
integer as it stands. A quotient is carried on to as many digits as a word can have, and the rest of
the division says where it lies behind them (`exists_divCore`).
-/

namespace Stylesheet.Double

open Float.Model Float.Model.UnpackedFloat Binary64

variable {x y b : Double} {q : ℚ}

/-! ## Results as words -/

theorem exists_zero (s : Sign) : ∃ z : Double, z.unpacked = .zero s ∧ z.IsRounding 0 := by
  have hcanonical : Dyadic.IsCanonical ⟨0, minExponent⟩ := ⟨le_rfl, by decide, .inr rfl⟩
  have hword : Dyadic.word ⟨0, minExponent⟩ = 0 := by rw [Dyadic.word, Int.sub_self]; rfl
  have hunpacked := unpacked_ofMagnitude s hcanonical (by decide)
  rw [hword] at hunpacked
  refine ⟨_, hunpacked, ?_⟩
  have hself := isRounding_self (isFinite_ofMagnitude (minus s) (show 0 < infMagnitude by decide))
  rwa [toRat_eq, value_zero, mul_zero] at hself

/-- **A result that is not beyond a finite number has a word**, that of the rounded number. -/
theorem exists_word {m : Nat} {e : Int} {a : Accuracy} {r : ℚ} (s : Sign) (hr : 0 ≤ r)
    (hdescribes : Describes a (r - m))
    (he : e ≤ Format.binary64.targetExponent (totalExponent m e))
    (hb : b.isFinite = true) (hle : r * 2 ^ e ≤ b.dyadic.value) :
    ∃ z : Double, z.unpacked = roundWithAccuracy Format.binary64 s m e a ∧
      z.IsRounding (unit (minus s) * (r * 2 ^ e)) := by
  obtain ⟨t, n, hgrid, hround⟩ := exists_onGrid s hdescribes he
  have hmax := hgrid.exponent_le hb hle
  exact ⟨_, (unpacked_ofMagnitude s hgrid.isCanonical hmax).trans hround.symm,
    isRounding_ofMagnitude _ (by positivity) hgrid hmax⟩

/-! ## Sums and differences -/

/-- A mantissa of any length is first given as many zeros as its grid asks for. -/
theorem exists_word_round {m : Nat} {e : Int} (s : Sign) (hm : 0 < m) (hb : b.isFinite = true)
    (hle : m * 2 ^ e ≤ b.dyadic.value) : ∃ z : Double,
      z.unpacked = UnpackedFloat.round Format.binary64 s m e ∧
        z.IsRounding (unit (minus s) * (m * 2 ^ e)) := by
  obtain ⟨k, hk⟩ : ∃ k : Nat, (e - Format.binary64.targetExponent (totalExponent m e)).toNat = k :=
    ⟨_, rfl⟩
  have htotal : totalExponent (m * 2 ^ k) (e - k) = totalExponent m e := by
    unfold totalExponent
    rw [log2_mul_two_pow hm]
    push_cast
    ring
  have hexponent : e - k ≤ Format.binary64.targetExponent (totalExponent (m * 2 ^ k) (e - k)) := by
    rw [htotal]
    omega
  have hvalue : ((m * 2 ^ k : Nat) : ℚ) * 2 ^ (e - k : Int) = m * 2 ^ e := by
    rw [zpow_sub₀ two_ne_zero, zpow_natCast]
    push_cast
    field_simp
  have hround : UnpackedFloat.round Format.binary64 s m e =
      roundWithAccuracy Format.binary64 s (m * 2 ^ k) (e - k) .exact := by
    simp only [UnpackedFloat.round, decreaseExponent, hk, Nat.shiftLeft_eq]
  rw [hround, ← hvalue]
  exact exists_word s (by positivity) (sub_self _) hexponent hb (hvalue.trans_le hle)

theorem exists_word_normalize {M : Int} {e : Int} (hb : b.isFinite = true)
    (hle : |(M : ℚ) * 2 ^ e| ≤ b.dyadic.value) : ∃ z : Double,
      z.unpacked = UnpackedFloat.normalize Format.binary64 M e .positive ∧
        z.IsRounding (M * 2 ^ e) := by
  rw [abs_mul, abs_of_pos (show (0 : ℚ) < 2 ^ e by positivity)] at hle
  unfold UnpackedFloat.normalize
  rcases lt_trichotomy M 0 with hneg | rfl | hpos
  · obtain ⟨k, hk⟩ : ∃ k : Nat, -M = k := ⟨_, (Int.toNat_of_nonneg (by omega)).symm⟩
    have hcast : (M : ℚ) = -1 * k := by
      rw [neg_one_mul, ← Int.cast_natCast, ← hk, Int.cast_neg, neg_neg]
    rw [compare_lt_iff_lt.2 hneg, hk, hcast, mul_assoc]
    rw [hcast, neg_one_mul, abs_neg, Nat.abs_cast] at hle
    exact exists_word_round .negative (by omega) hb hle
  · rw [Int.cast_zero, zero_mul]
    exact exists_zero .positive
  · obtain ⟨k, rfl⟩ := Int.eq_ofNat_of_zero_le hpos.le
    rw [Int.cast_natCast, Nat.abs_cast] at hle
    rw [compare_gt_iff_gt.2 hpos, Int.cast_natCast, ← one_mul ((k : ℚ) * 2 ^ e)]
    exact exists_word_round .positive (by omega) hb hle

/-- An integer on a finer grid. -/
theorem decreaseExponent_eq (m : Nat) {e t : Int} (h : t ≤ e) :
    ∃ k, decreaseExponent m e t = (k, t) ∧ (k : ℚ) * 2 ^ t = m * 2 ^ e := by
  obtain ⟨k, hk⟩ := Int.le.dest h
  have hamount : (e - t).toNat = k := by omega
  refine ⟨m * 2 ^ k, ?_, ?_⟩
  · rw [decreaseExponent, hamount, Nat.shiftLeft_eq]
    exact congrArg (Prod.mk _) (by omega)
  · rw [← hk, zpow_add₀ two_ne_zero, zpow_natCast]
    push_cast
    ring

theorem cast_apply (s : Sign) (m : Nat) : ((s.apply m : Int) : ℚ) = unit (minus s) * m := by
  cases s
  · exact (Int.cast_neg _).trans (neg_one_mul _).symm
  · exact (one_mul _).symm

theorem exists_word_add (hx : x.isFinite = true) (hy : y.isFinite = true) (hb : b.isFinite = true)
    (hle : |x.toRat + y.toRat| ≤ b.dyadic.value) : ∃ z : Double,
      z.unpacked = UnpackedFloat.add Format.binary64 x.unpacked y.unpacked ∧
        z.IsRounding (x.toRat + y.toRat) := by
  rcases unpacked_cases hx with ⟨s, hxu, hxq⟩ | ⟨s, m, e, hm, hxu, hxq, -⟩ <;>
    rcases unpacked_cases hy with ⟨s', hyu, hyq⟩ | ⟨s', m', e', hm', hyu, hyq, -⟩
  · rw [hxu, hyu, hxq, hyq, add_zero, UnpackedFloat.add]
    split <;> exact exists_zero _
  · rw [hxq, zero_add]
    exact ⟨y, by rw [hxu, hyu]; rfl, isRounding_self hy⟩
  · rw [hyq, add_zero]
    exact ⟨x, by rw [hxu, hyu]; rfl, isRounding_self hx⟩
  · obtain ⟨k, hk, hkq⟩ := decreaseExponent_eq m (min_le_left e e')
    obtain ⟨k', hk', hkq'⟩ := decreaseExponent_eq m' (min_le_right e e')
    have hsum : x.toRat + y.toRat = ((s.apply k + s'.apply k' : Int) : ℚ) * 2 ^ min e e' := by
      rw [hxq, hyq, ← hkq, ← hkq', Int.cast_add, cast_apply, cast_apply]
      ring
    rw [hsum] at hle ⊢
    rw [hxu, hyu]
    simp only [UnpackedFloat.add, hk, hk']
    exact exists_word_normalize hb hle

/-- A difference is the sum with the opposite. -/
theorem sub_eq_add_unpackedNeg (u v : UnpackedFloat) : UnpackedFloat.sub Format.binary64 u v =
    UnpackedFloat.add Format.binary64 u v.neg := by
  have happly : ∀ (s s' : Sign) (m m' : Nat),
      s.apply m - s'.apply m' = s.apply m + (-s').apply m' := fun s s' m m' => by
    cases s'
    · exact sub_neg_eq_add _ _
    · exact Int.sub_eq_add_neg
  cases u <;> cases v <;> try rfl
  simp only [UnpackedFloat.sub, UnpackedFloat.neg, UnpackedFloat.add, happly]

/-! ## Products and quotients -/

theorem unit_mul (s s' : Sign) : unit (minus (s * s')) = unit (minus s) * unit (minus s') := by
  cases s <;> cases s' <;> decide +kernel

theorem unit_div (s s' : Sign) : unit (minus (s / s')) = unit (minus s) / unit (minus s') := by
  cases s <;> cases s' <;> decide +kernel

theorem exists_word_mul (hx : x.isFinite = true) (hy : y.isFinite = true) (hb : b.isFinite = true)
    (hle : |x.toRat * y.toRat| ≤ b.dyadic.value) : ∃ z : Double,
      z.unpacked = UnpackedFloat.mul Format.binary64 x.unpacked y.unpacked ∧
        z.IsRounding (x.toRat * y.toRat) := by
  rcases unpacked_cases hx with ⟨s, hxu, hxq⟩ | ⟨s, m, e, hm, hxu, hxq, hfull⟩ <;>
    rcases unpacked_cases hy with ⟨s', hyu, hyq⟩ | ⟨s', m', e', hm', hyu, hyq, hfull'⟩
  · rw [hxu, hyu, hxq, zero_mul]
    exact exists_zero _
  · rw [hxu, hyu, hxq, zero_mul]
    exact exists_zero _
  · rw [hxu, hyu, hyq, mul_zero]
    exact exists_zero _
  · have hproduct : x.toRat * y.toRat =
        unit (minus (s * s')) * (((m * m' : Nat) : ℚ) * 2 ^ (e + e')) := by
      rw [hxq, hyq, unit_mul, zpow_add₀ two_ne_zero, Nat.cast_mul]
      ring
    have hexponent : 52 ≤ (m * m').log2 ∨ e + e' ≤ minExponent := by
      have hlong : ∀ {k l : Nat}, 2 ^ 52 ≤ k → 0 < l → 52 ≤ (k * l).log2 := fun hk hl =>
        (Nat.le_log2 (by positivity)).2 (hk.trans (Nat.le_mul_of_pos_right _ hl))
      rcases hfull with hfull | rfl
      · exact .inl (hlong hfull hm')
      · rcases hfull' with hfull' | rfl
        · exact .inl (Nat.mul_comm m m' ▸ hlong hfull' hm)
        · exact .inr (by decide)
    rw [hproduct, abs_unit_mul _ (by positivity)] at hle
    rw [hproduct, hxu, hyu]
    exact exists_word (s * s') (by positivity) (sub_self _) (le_targetExponent hexponent) hb hle

theorem describes_accuracyOfFraction {n d : Nat} (h : n < d) :
    Describes (accuracyOfFraction n d) ((n : ℚ) / d) := by
  have hd : (0 : ℚ) < d := by exact_mod_cast Nat.zero_lt_of_lt h
  unfold accuracyOfFraction
  split
  · next hzero =>
    show _ = _
    rw [hzero, Nat.cast_zero, zero_div]
  · next hzero =>
    have hn : (0 : ℚ) < n := by exact_mod_cast Nat.pos_of_ne_zero hzero
    have hlt : (n : ℚ) < d := by exact_mod_cast h
    cases hcompare : compare (2 * n) d with
    | lt =>
      have htwice : (2 * n : ℚ) < d := by exact_mod_cast compare_lt_iff_lt.1 hcompare
      exact ⟨div_pos hn hd, by rw [div_lt_div_iff₀ hd two_pos]; linarith⟩
    | eq =>
      have htwice : (2 * n : ℚ) = d := by exact_mod_cast compare_eq_iff_eq.1 hcompare
      show _ = _
      rw [div_eq_div_iff hd.ne' two_ne_zero]
      linarith
    | gt =>
      have htwice : (d : ℚ) < 2 * n := by exact_mod_cast compare_gt_iff_gt.1 hcompare
      exact ⟨by rw [div_lt_div_iff₀ two_pos hd]; linarith, (div_lt_one hd).2 hlt⟩

/-- **Division goes so far that the quotient has the digits it needs**, and says what is left. -/
theorem exists_divCore {m m' : Nat} (e e' : Int) (hm : 0 < m) (hm' : 0 < m') :
    ∃ (n : Nat) (t : Int) (a : Accuracy) (r : ℚ),
      divCore Format.binary64 m e m' e' = (n, t, a) ∧ 0 ≤ r ∧ Describes a (r - n) ∧
      t ≤ Format.binary64.targetExponent (totalExponent n t) ∧
      r * 2 ^ t = m * 2 ^ e / (m' * 2 ^ e') := by
  obtain ⟨t, ht⟩ : ∃ t, min (e - e') (Format.binary64.targetExponent
      (totalExponent m e - totalExponent m' e')) = t := ⟨_, rfl⟩
  obtain ⟨k, hk⟩ : ∃ k : Nat, e - e' - t = k := ⟨_, (Int.toNat_of_nonneg (by omega)).symm⟩
  have hamount : (e - e' - t).toNat = k := by omega
  refine ⟨m * 2 ^ k / m', t, accuracyOfFraction (m * 2 ^ k % m') m', (m * 2 ^ k : ℚ) / m',
    ?core, by positivity, ?describes, ?target, ?value⟩
  case core => simp only [divCore, ht, hamount, Nat.shiftLeft_eq]
  case describes =>
    have hdiv : (m * 2 ^ k : ℚ) = m' * (m * 2 ^ k / m' : Nat) + (m * 2 ^ k % m' : Nat) := by
      exact_mod_cast (Nat.div_add_mod (m * 2 ^ k) m').symm
    have hrest : (m * 2 ^ k : ℚ) / m' - (m * 2 ^ k / m' : Nat) = (m * 2 ^ k % m' : Nat) / m' := by
      have hne : (m' : ℚ) ≠ 0 := by exact_mod_cast hm'.ne'
      rw [hdiv, add_div, mul_div_cancel_left₀ _ hne, add_sub_cancel_left]
    rw [hrest]
    exact describes_accuracyOfFraction (Nat.mod_lt _ hm')
  case target =>
    refine le_targetExponent ?_
    by_cases hleast : t ≤ minExponent
    · exact .inr hleast
    · left
      rw [targetExponent_eq, totalExponent, totalExponent] at ht
      unfold minExponent at hleast
      have hlong : m'.log2 + 53 ≤ m.log2 + k := by omega
      have hquotient : 2 ^ 52 ≤ m * 2 ^ k / m' := by
        rw [Nat.le_div_iff_mul_le hm']
        calc 2 ^ 52 * m' ≤ 2 ^ 52 * 2 ^ (m'.log2 + 1) :=
              Nat.mul_le_mul_left _ Nat.lt_log2_self.le
          _ = 2 ^ (m'.log2 + 53) := by rw [← pow_add]; congr 1; omega
          _ ≤ 2 ^ (m.log2 + k) := Nat.pow_le_pow_right (by decide) hlong
          _ = 2 ^ m.log2 * 2 ^ k := pow_add ..
          _ ≤ m * 2 ^ k := Nat.mul_le_mul_right _ (Nat.log2_self_le hm.ne')
      exact (Nat.le_log2 (by omega)).2 hquotient
  case value =>
    have hexponent : e = e' + t + k := by omega
    rw [hexponent, zpow_add₀ two_ne_zero, zpow_add₀ two_ne_zero, zpow_natCast]
    field_simp

theorem exists_word_div (hx : x.isFinite = true) (hy : y.isFinite = true) (hzero : y.toRat ≠ 0)
    (hb : b.isFinite = true) (hle : |x.toRat / y.toRat| ≤ b.dyadic.value) : ∃ z : Double,
      z.unpacked = UnpackedFloat.div Format.binary64 x.unpacked y.unpacked ∧
        z.IsRounding (x.toRat / y.toRat) := by
  obtain ⟨s', m', e', hm', hyu, hyq, -⟩ := (unpacked_cases hy).resolve_left
    fun ⟨_, _, h⟩ => hzero h
  rcases unpacked_cases hx with ⟨s, hxu, hxq⟩ | ⟨s, m, e, hm, hxu, hxq, -⟩
  · rw [hxu, hyu, hxq, zero_div]
    exact exists_zero _
  · have hquotient : x.toRat / y.toRat =
        unit (minus (s / s')) * ((m * 2 ^ e) / (m' * 2 ^ e')) := by
      rw [hxq, hyq, unit_div, mul_div_mul_comm]
    obtain ⟨n, t, a, r, hcore, hr, hdescribes, htarget, hvalue⟩ := exists_divCore e e' hm hm'
    rw [hquotient, abs_unit_mul _ (by positivity)] at hle
    rw [hquotient, ← hvalue, hxu, hyu]
    simp only [UnpackedFloat.div, hcore]
    exact exists_word (s / s') hr hdescribes htarget hb (hvalue.trans_le hle)

/-! ## The operations -/

theorem isNaN_of_isFinite (h : x.isFinite = true) : x.isNaN = false := by
  have hlt : x.magnitude < infMagnitude := of_decide_eq_true h
  exact decide_eq_false (by omega)

theorem IsRounding.of_operate {f : Float → Float → Float}
    {g : UnpackedFloat → UnpackedFloat → UnpackedFloat}
    (hf : ∀ a b : Float, f a b = .ofModel (.pack (g a.toModel.unpack b.toModel.unpack)))
    (hx : x.isFinite = true) (hy : y.isFinite = true)
    (h : ∃ z : Double, z.unpacked = g x.unpacked y.unpacked ∧ z.IsRounding q) :
    (operate f x y).IsRounding q := by
  obtain ⟨z, hz, hround⟩ := h
  rw [operate_eq hf (isNaN_of_isFinite hx) (isNaN_of_isFinite hy)
    (isNaN_of_isFinite hround.finite) hz.symm]
  exact hround

section

variable (hx : x.isFinite = true) (hy : y.isFinite = true) (hb : b.isFinite = true)
include hx hy hb

/-- **A sum is rounded to nearest**, where it is not beyond a finite number. -/
theorem isRounding_add (hle : |x.toRat + y.toRat| ≤ b.dyadic.value) :
    (x + y).IsRounding (x.toRat + y.toRat) :=
  .of_operate (fun _ _ => rfl) hx hy (exists_word_add hx hy hb hle)

/-- **A difference is rounded to nearest.** -/
theorem isRounding_sub (hle : |x.toRat - y.toRat| ≤ b.dyadic.value) :
    (x - y).IsRounding (x.toRat - y.toRat) := by
  have hopposite := exists_word_add hx (y.isFinite_opposite.trans hy) hb
  rw [toRat_opposite, unpacked_opposite hy, ← sub_eq_add_unpackedNeg, ← sub_eq_add_neg] at hopposite
  exact .of_operate (fun _ _ => rfl) hx hy (hopposite hle)

/-- **A product is rounded to nearest.** -/
theorem isRounding_mul (hle : |x.toRat * y.toRat| ≤ b.dyadic.value) :
    (x * y).IsRounding (x.toRat * y.toRat) :=
  .of_operate (fun _ _ => rfl) hx hy (exists_word_mul hx hy hb hle)

/-- **A quotient is rounded to nearest.** -/
theorem isRounding_div (hzero : y.toRat ≠ 0) (hle : |x.toRat / y.toRat| ≤ b.dyadic.value) :
    (x / y).IsRounding (x.toRat / y.toRat) :=
  .of_operate (fun _ _ => rfl) hx hy (exists_word_div hx hy hzero hb hle)

end

end Stylesheet.Double
