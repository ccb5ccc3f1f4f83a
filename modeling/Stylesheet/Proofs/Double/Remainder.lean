import Mathlib.Algebra.Order.Group.Nat
import Stylesheet.Channel

/-!
# Remainders of small numbers

**Theorem (`Double.rem_eq_self`).** A number is its own remainder by a number of larger magnitude,
bit for bit. So a number from zero to below a modulus stays as it is when it is wrapped by the
modulus (`Double.wrap_eq_self`).

A word is read as an integer times a power of two, and written back from it unchanged
(`Double.ofDyadic_dyadic`). Magnitudes are ordered as what they stand for, so on the grid of the
smaller number the larger one has the larger integer (`Double.dyadic_lt`), and the remainder of the
integers is the smaller one.
-/

namespace Stylesheet.Double

variable {x y : Double}

/-! ## Words and their fields -/

theorem ofMagnitude_magnitude (x : Double) : ofMagnitude x.isNegative x.magnitude = x := by
  have hlt := x.bits.toNat_lt
  have hbits : (if x.isNegative then x.magnitude + signWeight else x.magnitude) = x.bits.toNat := by
    unfold isNegative magnitude signWeight
    split
    · next h =>
      have hle := of_decide_eq_true h
      omega
    · next h =>
      have hle : ¬ 0x8000000000000000 ≤ x.bits.toNat := fun hle => h (decide_eq_true hle)
      omega
  rw [ofMagnitude, hbits, UInt64.ofNat_toNat]

theorem natAbs_key (x : Double) : x.key.natAbs = x.magnitude := by
  unfold key
  split <;> omega

/-- A number below the normal ones has the fraction as its integer. -/
theorem dyadic_of_field_eq_zero (h : x.magnitude / 2 ^ 52 = 0) :
    x.dyadic = ⟨x.magnitude, minExponent⟩ := by
  have hlt : x.magnitude < 2 ^ 52 := by omega
  show (if x.magnitude / 2 ^ 52 = 0 then Dyadic.mk (x.magnitude % 2 ^ 52) minExponent else _) = _
  rw [if_pos h, Nat.mod_eq_of_lt hlt]

theorem dyadic_of_field_ne_zero (h : x.magnitude / 2 ^ 52 ≠ 0) :
    x.dyadic = ⟨x.magnitude % 2 ^ 52 + 2 ^ 52, minExponent + (x.magnitude / 2 ^ 52 - 1 : Nat)⟩ := by
  show (if x.magnitude / 2 ^ 52 = 0 then _ else _) = _
  rw [if_neg h]
  rfl

theorem shift_zero (n : Nat) : shift n 0 = n := Nat.mul_one n

theorem shift_natCast (n k : Nat) : shift n (k : Int) = n * 2 ^ k := by
  rw [shift, if_pos (Int.natCast_nonneg k), Int.toNat_natCast]
  rfl

/-- Writing a word from what it was read as. -/
theorem ofDyadic_dyadic (x : Double) : ofDyadic x.isNegative x.dyadic = x := by
  by_cases hfield : x.magnitude / 2 ^ 52 = 0
  · rw [dyadic_of_field_eq_zero hfield, ofDyadic]
    dsimp only
    split
    · next hzero => rw [← hzero, ofMagnitude_magnitude]
    · next hzero =>
      have hlog : x.magnitude.log2 < 52 := (Nat.log2_lt hzero).2 (by omega)
      have hexponent : max minExponent (minExponent + x.magnitude.log2 - 52) = minExponent := by
        unfold minExponent
        omega
      rw [hexponent, Int.sub_self, shift_zero]
      exact ofMagnitude_magnitude x
  · rw [dyadic_of_field_ne_zero hfield, ofDyadic]
    dsimp only
    generalize hfraction : x.magnitude % 2 ^ 52 = fraction
    generalize hf : x.magnitude / 2 ^ 52 = field at *
    have hlog : (fraction + 2 ^ 52).log2 = 52 := by
      rw [Nat.log2_eq_iff (by omega)]
      omega
    have hexponent : max minExponent (minExponent + (field - 1 : Nat) + (52 : Nat) - 52) =
        minExponent + (field - 1 : Nat) := by
      unfold minExponent
      omega
    have hcount : (minExponent + (field - 1 : Nat) - minExponent).toNat = field - 1 := by omega
    have hmagnitude : fraction + 2 ^ 52 + (field - 1) * 2 ^ 52 = x.magnitude := by omega
    rw [if_neg (by omega), hlog, hexponent, Int.sub_self, shift_zero, hcount]
    show ofMagnitude _ (fraction + 2 ^ 52 + (field - 1) * 2 ^ 52) = x
    rw [hmagnitude, ofMagnitude_magnitude]

/-! ## Order -/

/-- A smaller magnitude has no larger exponent, and on its grid the smaller integer. -/
theorem dyadic_lt (h : x.magnitude < y.magnitude) :
    x.dyadic.exponent ≤ y.dyadic.exponent ∧
      x.dyadic.significand <
        shift y.dyadic.significand (y.dyadic.exponent - x.dyadic.exponent) := by
  have hfields : x.magnitude / 2 ^ 52 ≤ y.magnitude / 2 ^ 52 := Nat.div_le_div_right h.le
  by_cases hy : y.magnitude / 2 ^ 52 = 0
  · have hx : x.magnitude / 2 ^ 52 = 0 := Nat.le_zero.1 (hy ▸ hfields)
    rw [dyadic_of_field_eq_zero hx, dyadic_of_field_eq_zero hy]
    rw [Int.sub_self, shift_zero]
    exact ⟨le_rfl, h⟩
  · rw [dyadic_of_field_ne_zero hy]
    obtain ⟨k, hk⟩ := Nat.exists_eq_add_of_le hfields
    by_cases hx : x.magnitude / 2 ^ 52 = 0
    · rw [dyadic_of_field_eq_zero hx]
      have hdiff : minExponent + (y.magnitude / 2 ^ 52 - 1 : Nat) - minExponent =
          (y.magnitude / 2 ^ 52 - 1 : Nat) := by omega
      dsimp only
      rw [hdiff, shift_natCast]
      refine ⟨by omega, ?_⟩
      calc x.magnitude < 2 ^ 52 := by omega
        _ ≤ (y.magnitude % 2 ^ 52 + 2 ^ 52) * 2 ^ (y.magnitude / 2 ^ 52 - 1) :=
          (Nat.le_add_left _ _).trans (Nat.le_mul_of_pos_right _ (Nat.two_pow_pos _))
    · rw [dyadic_of_field_ne_zero hx]
      have hdiff : minExponent + (y.magnitude / 2 ^ 52 - 1 : Nat) -
          (minExponent + (x.magnitude / 2 ^ 52 - 1 : Nat)) = (k : Int) := by omega
      dsimp only
      rw [hdiff, shift_natCast]
      refine ⟨by omega, ?_⟩
      cases k with
      | zero => omega
      | succ k =>
        have htwo : 2 ≤ 2 ^ (k + 1) := Nat.le_self_pow k.succ_ne_zero 2
        calc x.magnitude % 2 ^ 52 + 2 ^ 52 < 2 ^ 52 * 2 := by omega
          _ ≤ (y.magnitude % 2 ^ 52 + 2 ^ 52) * 2 ^ (k + 1) :=
            Nat.mul_le_mul (Nat.le_add_left _ _) htwo

/-! ## Remainders -/

/-- **A number is its own remainder by a number of larger magnitude.** -/
theorem rem_eq_self (hy : y.isNaN = false) (h : x.magnitude < y.magnitude) : rem x y = x := by
  have hle : ¬ infMagnitude < y.magnitude := of_decide_eq_false hy
  have hx : x.isNaN = false := decide_eq_false (by omega)
  have hinfinite : x.isInfinite = false := beq_eq_false_iff_ne.2 (by omega)
  have hzero : y.isZero = false := beq_eq_false_iff_ne.2 (by omega)
  obtain ⟨hexponent, hsignificand⟩ := dyadic_lt h
  have hrem : remDyadic x.dyadic y.dyadic = x.dyadic := by
    unfold remDyadic
    dsimp only
    rw [Int.min_eq_left hexponent, Int.sub_self, shift_zero, Nat.mod_eq_of_lt hsignificand]
  unfold rem
  rw [hx, hy, hinfinite, hzero, hrem]
  simp only [Bool.false_eq_true, if_false, Bool.or_self]
  split
  · rfl
  · exact ofDyadic_dyadic x

/-- A number from zero to below the modulus is not changed by wrapping. -/
theorem wrap_eq_self (hle : le 0 x = true) (hlt : lt x y = true) : Channel.wrap x y = x := by
  have hzero : (0 : Double).key = 0 := by decide
  obtain ⟨hordered, hkey⟩ := Bool.and_eq_true_iff.1 hlt
  obtain ⟨-, hynan⟩ := Bool.and_eq_true_iff.1 hordered
  have hkey := of_decide_eq_true hkey
  have hnonneg := of_decide_eq_true (Bool.and_eq_true_iff.1 hle).2
  rw [hzero] at hnonneg
  have hsign : lt x 0 = false :=
    Bool.and_eq_false_iff.2 (.inr (decide_eq_false (hzero ▸ not_lt.2 hnonneg)))
  have hmagnitude : x.magnitude < y.magnitude := by
    rw [← natAbs_key, ← natAbs_key]
    omega
  have hrem : rem x y = x := rem_eq_self (Bool.not_eq_true' _ ▸ hynan) hmagnitude
  show (if lt (rem x y) 0 then _ else rem x y) = x
  rw [hrem, hsign]
  rfl

end Stylesheet.Double
