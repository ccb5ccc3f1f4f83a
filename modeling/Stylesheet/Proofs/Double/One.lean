import Mathlib
import Stylesheet.Grid

/-!
# One is neutral in binary64

Products and quotients of the program are rounded. Those by one are not changed by it
(`Double.mul_one_of_not_isNaN`, `Double.div_one_of_not_isNaN`), and a number other than zero over
itself is one (`Double.div_self`).

An operation unpacks its operands into mantissa and exponent, computes, rounds and packs the result.
Three facts carry the three laws. What is unpacked has the exponent that its format asks for
(`Binary64.canonical_unpack`). Rounding gives such a number back when it is computed with any number
of zeros behind its mantissa (`Binary64.roundWithAccuracy_exact`), which is all that a product or a
quotient by one adds to it. And packing what was unpacked gives the word again
(`Double.pack_unpacked`), save for a NaN, which has more than one word.
-/

namespace Stylesheet

open Float.Model Float.Model.UnpackedFloat

namespace Binary64

/-! ## Rounding what is exact -/

theorem log2_mul_two_pow {m : Nat} (hm : 0 < m) (k : Nat) : (m * 2 ^ k).log2 = m.log2 + k := by
  have hne : m ≠ 0 := by omega
  obtain ⟨hlow, hhigh⟩ := (Nat.log2_eq_iff hne).1 rfl
  rw [Nat.log2_eq_iff (by positivity)]
  constructor
  · rw [pow_add]
    exact Nat.mul_le_mul_right _ hlow
  · rw [show m.log2 + k + 1 = m.log2 + 1 + k by omega, pow_add]
    exact Nat.mul_lt_mul_of_pos_right hhigh (by positivity)

/-- Shifting out zeros loses nothing. -/
theorem shiftRight_mul_two_pow (m k : Nat) :
    ExtendedMantissa.mk (m * 2 ^ k) false false >>> k = ⟨m, false, false⟩ := by
  show k.repeat ExtendedMantissa.shiftRightOne _ = _
  induction k generalizing m with
  | zero => simp [Nat.repeat]
  | succ k ih =>
    have hscale : m * 2 ^ (k + 1) = m * 2 * 2 ^ k := by ring
    rw [Nat.repeat, hscale, ih]
    simp [ExtendedMantissa.shiftRightOne]

/-- A number that already has the exponent of its format is shifted back to it. -/
theorem shiftToTargetExponent_exact {spec : Format} {m : Nat} {e : Int} (hm : 0 < m)
    (he : spec.targetExponent (totalExponent m e) = e) (k : Nat) :
    shiftToTargetExponent spec (m * 2 ^ k) (e - k) .exact = (⟨m, false, false⟩, e) := by
  have htotal : totalExponent (m * 2 ^ k) (e - k) = totalExponent m e := by
    unfold totalExponent
    rw [log2_mul_two_pow hm]
    push_cast
    ring
  have hshift : (e - (e - (k : Int))).toNat = k := by omega
  simp only [shiftToTargetExponent, shiftToExponent, htotal, he, hshift,
    ExtendedMantissa.ofMantissaAndAccuracy, shiftRight_mul_two_pow, sub_add_cancel]

/-- **Rounding gives back a number that has the exponent of its format**, with zeros behind its
mantissa or without. -/
theorem roundWithAccuracy_exact (spec : Format) (s : Sign) {m : Nat} {e : Int} (hm : 0 < m)
    (he : spec.targetExponent (totalExponent m e) = e) (k : Nat) :
    roundWithAccuracy spec s (m * 2 ^ k) (e - k) .exact = .finite s m e hm := by
  have hround : (ExtendedMantissa.mk m false false).roundedMantissa = m := rfl
  -- Nothing is lost in rounding, so the second shift has nothing to do.
  have hagain : shiftToTargetExponent spec m e .exact = (⟨m, false, false⟩, e) := by
    simpa using shiftToTargetExponent_exact hm he 0
  simp only [roundWithAccuracy, shiftToTargetExponent_exact hm he k, hround, hagain, hm.ne',
    dite_false]

/-! ## The fields of a word -/

/-- The sign of a word. -/
def signOf (b : BitVec 64) : Sign := Sign.ofBitVec (@unpackSign Format.binary64 b)

/-- The exponent field of a word. -/
def exponentOf (b : BitVec 64) : BitVec 11 := @unpackExponent Format.binary64 b

/-- The fraction field of a word. -/
def fractionOf (b : BitVec 64) : BitVec 52 := @unpackMantissa Format.binary64 b

theorem toNat_exponentOf (b : BitVec 64) : (exponentOf b).toNat = b.toNat / 2 ^ 52 % 2 ^ 11 := by
  simp [exponentOf, unpackExponent, Nat.shiftRight_eq_div_pow]

theorem toNat_fractionOf (b : BitVec 64) : (fractionOf b).toNat = b.toNat % 2 ^ 52 := by
  simp [fractionOf, unpackMantissa]

/-- What a word is read as, by its fields. -/
inductive ReadAs (b : BitVec 64) : UnpackedFloat → Prop
  | infinity (he : exponentOf b = -1) (hf : fractionOf b = 0) : ReadAs b (.infinity (signOf b))
  | nan (he : exponentOf b = -1) (hf : fractionOf b ≠ 0) : ReadAs b .notANumber
  | zero (he : exponentOf b = 0) (hf : fractionOf b = 0) : ReadAs b (.zero (signOf b))
  | subnormal (he : exponentOf b = 0) (hf : 0 < (fractionOf b).toNat) :
      ReadAs b (.finite (signOf b) (fractionOf b).toNat (-1074) hf)
  | normal (he : exponentOf b ≠ -1) (he' : exponentOf b ≠ 0) :
      ReadAs b (.finite (signOf b) (2 ^ 52 + (fractionOf b).toNat)
        ((exponentOf b).toNat - 1075) (Nat.add_pos_left (Nat.two_pow_pos 52) _))

theorem readAs_unpack (b : BitVec 64) : ReadAs b (UnpackedFloat.unpack Format.binary64 b) := by
  rw [UnpackedFloat.unpack]
  split_ifs with he hf he' hf'
  · exact .infinity he hf
  · exact .nan he hf
  · exact .zero he' hf'
  · have hpos : 0 < (fractionOf b).toNat :=
      Nat.pos_of_ne_zero fun h => hf' (BitVec.eq_of_toNat_eq h)
    have hexponent : ((@unpackExponent Format.binary64 b).toNat : Int) -
        (Format.binary64.exponentBias + Format.binary64.mantissaBitsWithoutImplicit) + 1 =
          -1074 := by
      rw [he']
      rfl
    rw [hexponent]
    exact .subnormal he' hpos
  · have himplicit : (1#1 ++ fractionOf b).toNat = 2 ^ 52 + (fractionOf b).toNat := by
      rw [BitVec.toNat_append, ← Nat.shiftLeft_add_eq_or_of_lt (fractionOf b).isLt]
      rfl
    have hread : ReadAs b (.finite (signOf b) (1#1 ++ fractionOf b).toNat
        ((exponentOf b).toNat - 1075) (by omega)) := by
      simp only [himplicit]
      exact .normal he he'
    exact hread

/-! ## Exponents of what was read -/

/-- A finite number has the exponent that its format asks for. -/
def Canonical : UnpackedFloat → Prop
  | .finite _ m e _ => Format.binary64.targetExponent (totalExponent m e) = e
  | _ => True

theorem targetExponent_eq (t : Int) :
    Format.binary64.targetExponent t = max (t - 53) (-1074) := by
  simp only [Format.targetExponent]
  rfl

theorem log2_normal {m : Nat} (h : m < 2 ^ 52) : (2 ^ 52 + m).log2 = 52 := by
  rw [Nat.log2_eq_iff (by omega)]
  omega

theorem canonical_unpack (b : BitVec 64) :
    Canonical (UnpackedFloat.unpack Format.binary64 b) := by
  have hlt : (fractionOf b).toNat < 2 ^ 52 := BitVec.isLt _
  have hread := readAs_unpack b
  generalize UnpackedFloat.unpack Format.binary64 b = u at hread
  cases hread with
  | infinity | nan | zero => trivial
  | subnormal he hf =>
    have hlog := (Nat.log2_lt hf.ne').2 hlt
    show _ = _
    rw [targetExponent_eq, totalExponent]
    omega
  | normal he he' =>
    have hpos : 0 < (exponentOf b).toNat :=
      Nat.pos_of_ne_zero fun h => he' (BitVec.eq_of_toNat_eq h)
    show _ = _
    rw [targetExponent_eq, totalExponent, log2_normal hlt]
    omega

/-! ## One -/

/-- One, unpacked. -/
def one : UnpackedFloat := .finite .positive (2 ^ 52) (-52) (by decide)

theorem canonical_one : Canonical one := by
  show Format.binary64.targetExponent (totalExponent (2 ^ 52) (-52)) = -52
  rw [targetExponent_eq]
  decide

theorem mul_one {u : UnpackedFloat} (h : Canonical u) :
    UnpackedFloat.mul Format.binary64 u one = u := by
  have hsign : ∀ s : Sign, s * .positive = s := fun s => by cases s <;> rfl
  cases u with
  | notANumber => rfl
  | infinity s => rw [one, UnpackedFloat.mul, hsign]
  | zero s => rw [one, UnpackedFloat.mul, hsign]
  | finite s m e hm =>
    rw [one, UnpackedFloat.mul, hsign]
    exact roundWithAccuracy_exact Format.binary64 s hm h 52

/-- Dividing by one puts zeros behind the mantissa. -/
theorem divCore_one {m : Nat} {e : Int}
    (h : Format.binary64.targetExponent (totalExponent m e) = e) :
    ∃ k : Nat, divCore Format.binary64 m e (2 ^ 52) (-52) = (m * 2 ^ k, e - k, .exact) := by
  have hone : totalExponent (2 ^ 52) (-52) = 1 := rfl
  rw [targetExponent_eq] at h
  -- The quotient is asked for at the exponent of `m`, or one below.
  obtain ⟨k, hk⟩ : ∃ k : Nat, min (e - -52) (Format.binary64.targetExponent
      (totalExponent m e - totalExponent (2 ^ 52) (-52))) = e - k := by
    refine ⟨(e - max (totalExponent m e - 1 - 53) (-1074)).toNat, ?_⟩
    rw [hone, targetExponent_eq]
    omega
  have hshift : (e - -52 - (e - (k : Int))).toNat = k + 52 := by omega
  have hscale : m <<< (k + 52) = m * 2 ^ k * 2 ^ 52 := by
    rw [Nat.shiftLeft_eq, pow_add, ← Nat.mul_assoc]
  refine ⟨k, ?_⟩
  simp only [divCore, hk, hshift, hscale, accuracyOfFraction]
  rw [Nat.mul_div_cancel _ (by decide), Nat.mul_mod_left, if_pos rfl]

theorem div_one {u : UnpackedFloat} (h : Canonical u) :
    UnpackedFloat.div Format.binary64 u one = u := by
  have hsign : ∀ s : Sign, s / .positive = s := fun s => by cases s <;> rfl
  cases u with
  | notANumber => rfl
  | infinity s => rw [one, UnpackedFloat.div, hsign]
  | zero s => rw [one, UnpackedFloat.div, hsign]
  | finite s m e hm =>
    obtain ⟨k, hk⟩ := divCore_one h
    rw [one, UnpackedFloat.div, hsign]
    simp only [hk]
    exact roundWithAccuracy_exact Format.binary64 s hm h k

theorem div_self (s : Sign) {m : Nat} (e : Int) (hm : 0 < m) :
    UnpackedFloat.div Format.binary64 (.finite s m e hm) (.finite s m e hm) = one := by
  have hsign : s / s = .positive := by cases s <;> rfl
  have hexponent : min (e - e) (Format.binary64.targetExponent
      (totalExponent m e - totalExponent m e)) = -52 - (1 : Nat) := by
    rw [targetExponent_eq]
    omega
  have hshift : (e - e - (-52 - ((1 : Nat) : Int))).toNat = 53 := by omega
  have hscale : m <<< 53 = 2 ^ 52 * 2 ^ 1 * m := by
    rw [Nat.shiftLeft_eq, Nat.mul_comm, ← pow_add]
  have hcore : divCore Format.binary64 m e m e =
      (2 ^ 52 * 2 ^ 1, (-52 : Int) - (1 : Nat), .exact) := by
    simp only [divCore, hexponent, hshift, hscale, accuracyOfFraction]
    rw [Nat.mul_div_cancel _ hm, Nat.mul_mod_left, if_pos rfl]
  rw [UnpackedFloat.div, hsign]
  simp only [hcore]
  exact roundWithAccuracy_exact Format.binary64 .positive (by decide) canonical_one 1

end Binary64

/-! ## Words of the program -/

namespace Double

open Binary64

variable {x y : Double}

/-- What a number is read as. -/
def unpacked (x : Double) : UnpackedFloat :=
  UnpackedFloat.unpack Format.binary64 x.bits.toBitVec

/-- The magnitude is the exponent field before the fraction field. -/
theorem magnitude_eq (x : Double) : x.magnitude =
    (exponentOf x.bits.toBitVec).toNat * 2 ^ 52 + (fractionOf x.bits.toBitVec).toNat := by
  have hlt := x.bits.toNat_lt
  rw [toNat_exponentOf, toNat_fractionOf, UInt64.toNat_toBitVec, magnitude, signWeight]
  omega

/-- Packing what was unpacked gives the word again, if it is a number. -/
theorem pack_unpacked (h : x.isNaN = false) :
    UnpackedFloat.pack Format.binary64 x.unpacked = x.bits.toBitVec := by
  have hle : ¬ infMagnitude < x.magnitude := of_decide_eq_false h
  have hbits : @isNaNBits Format.binary64 x.bits.toBitVec = false := by
    refine decide_eq_false fun ⟨he, hf⟩ => hle ?_
    have hpos : (fractionOf x.bits.toBitVec).toNat ≠ 0 := fun h => hf (BitVec.eq_of_toNat_eq h)
    have hmax : (exponentOf x.bits.toBitVec).toNat = 2047 := congrArg BitVec.toNat he
    rw [magnitude_eq, hmax, infMagnitude]
    omega
  rw [unpacked, pack_unpack, hbits, if_neg Bool.false_ne_true]

/-- A number other than zero and infinity has a mantissa. -/
theorem exists_unpacked_eq_finite (hfinite : x.isFinite = true) (hzero : x.isZero = false) :
    ∃ s m e hm, x.unpacked = .finite s m e hm := by
  have hlt : x.magnitude < infMagnitude := of_decide_eq_true hfinite
  have hne : x.magnitude ≠ 0 := by simpa [isZero] using hzero
  have hmax : ∀ b : BitVec 64, exponentOf b = -1 → (exponentOf b).toNat = 2047 := fun b hb => by
    rw [hb]
    rfl
  rw [magnitude_eq] at hlt hne
  rw [infMagnitude] at hlt
  unfold unpacked
  have hread := readAs_unpack x.bits.toBitVec
  generalize UnpackedFloat.unpack Format.binary64 x.bits.toBitVec = u at hread
  cases hread with
  | infinity he hf | nan he hf =>
    have := hmax _ he
    omega
  | zero he hf =>
    rw [he, hf] at hne
    exact absurd rfl hne
  | subnormal he hf => exact ⟨_, _, _, _, rfl⟩
  | normal he he' => exact ⟨_, _, _, _, rfl⟩

theorem unpack_toFloat (h : x.isNaN = false) : x.toFloat.toModel.unpack = x.unpacked := by
  show UnpackedFloat.unpack Format.binary64 (UnpackedFloat.pack Format.binary64 x.unpacked) = _
  rw [pack_unpacked h, unpacked]

/-- An operation on numbers whose unpacked result is that of a number. -/
theorem operate_eq {f : Float → Float → Float} {g : UnpackedFloat → UnpackedFloat → UnpackedFloat}
    {z : Double}
    (hf : ∀ a b : Float, f a b = .ofModel (.pack (g a.toModel.unpack b.toModel.unpack)))
    (hx : x.isNaN = false) (hy : y.isNaN = false) (hz : z.isNaN = false)
    (h : g x.unpacked y.unpacked = z.unpacked) : operate f x y = z := by
  have hbits : (f x.toFloat y.toFloat).toBits = z.bits := by
    rw [hf, unpack_toFloat hx, unpack_toFloat hy, h]
    show UInt64.ofBitVec (UnpackedFloat.pack Format.binary64 z.unpacked) = z.bits
    rw [pack_unpacked hz]
  rw [operate, hx, hy]
  simp only [Bool.false_eq_true, if_false]
  rw [ofResult, hbits]
  simp [hz]

theorem isNaN_one : (1 : Double).isNaN = false := by decide +kernel

theorem mul_one_of_not_isNaN (h : x.isNaN = false) : x * 1 = x :=
  operate_eq (fun _ _ => rfl) h isNaN_one h (Binary64.mul_one (canonical_unpack _))

theorem div_one_of_not_isNaN (h : x.isNaN = false) : x / 1 = x :=
  operate_eq (fun _ _ => rfl) h isNaN_one h (Binary64.div_one (canonical_unpack _))

/-- **A number other than zero and infinity over itself is one.** -/
theorem div_self (hfinite : x.isFinite = true) (hzero : x.isZero = false) : x / x = 1 := by
  have hx : x.isNaN = false := by
    have hlt : x.magnitude < infMagnitude := of_decide_eq_true hfinite
    exact decide_eq_false (by omega)
  obtain ⟨s, m, e, hm, hunpacked⟩ := exists_unpacked_eq_finite hfinite hzero
  refine operate_eq (fun _ _ => rfl) hx hx isNaN_one ?_
  rw [hunpacked]
  exact Binary64.div_self s e hm

/-! ## NaN -/

/-- Setting a bit makes no magnitude smaller. -/
theorem isNaN_quiet (h : x.isNaN = true) : x.quiet.isNaN = true := by
  have hlt : infMagnitude < x.magnitude := of_decide_eq_true h
  have hle : x.magnitude ≤ x.quiet.magnitude := by
    show x.bits.toNat % 2 ^ 63 ≤ (x.bits ||| 0x0008000000000000).toNat % 2 ^ 63
    rw [UInt64.toNat_or, Nat.or_mod_two_pow]
    exact Nat.left_le_or
  exact decide_eq_true (by omega)

theorem quiet_quiet (x : Double) : x.quiet.quiet = x.quiet := by
  unfold quiet
  rw [UInt64.or_assoc, UInt64.or_self]

/-- Multiplying by one moves no number on the grid. -/
theorem snap_mul_one (x : Double) : (x * 1).snap = x.snap := by
  cases h : x.isNaN with
  | false => rw [mul_one_of_not_isNaN h]
  | true =>
    have hquiet : x * 1 = x.quiet := if_pos h
    rw [hquiet, snap, snap, if_pos h, if_pos (isNaN_quiet h)]

/-- A divisor of one makes no difference to a product. -/
theorem mul_div_one (y x : Double) : y * (x / 1) = y * x := by
  cases h : x.isNaN with
  | false => rw [div_one_of_not_isNaN h]
  | true =>
    have hquiet : x / 1 = x.quiet := if_pos h
    have hright : ∀ z : Double, z.isNaN = true → y * z = if y.isNaN then y.quiet else z.quiet :=
      fun z hz => by
        show operate _ y z = _
        rw [operate, if_pos hz]
    rw [hquiet, hright _ (isNaN_quiet h), hright _ h, quiet_quiet]

end Double

end Stylesheet
