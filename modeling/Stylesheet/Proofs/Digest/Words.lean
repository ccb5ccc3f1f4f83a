import Mathlib.Logic.OpClass
import Stylesheet.Digest

/-!
# Sums of digests, and a hash that notices every change

The sum of digests does not show their order (`Digest.sum`, `Digest.leftCommutative_add`).

There are hashes that notice a changed word, so what is said under that hypothesis is not empty.
Taking bits into a digest by `Hasher.step` loses neither of the two: the digest is rotated, the bits
are added one by one, and the result is multiplied by an odd number, and each of these can be
undone. Sequences that differ in exactly one word are therefore digested alike only if the two
words have one code (**`Hasher.discerning_folding`**).
-/

namespace Stylesheet

namespace Digest

/-- The sum of digests. -/
def sum (digests : List UInt64) : UInt64 := digests.foldr (fun x y => x + y) 0

instance leftCommutative_add : LeftCommutative fun x y : UInt64 => x + y where
  left_comm x y z := by
    show x + (y + z) = y + (x + z)
    rw [← UInt64.add_assoc, UInt64.add_comm x, UInt64.add_assoc]

end Digest

namespace Hasher

/-! ## One word changes a digest -/

/-- What undoes a multiplication by `multiplier`. -/
def inverse : UInt64 := 0x2040003d780970bd

theorem multiplier_mul_inverse : multiplier * inverse = 1 := by decide

theorem mul_multiplier_inj {x y : UInt64} (h : x * multiplier = y * multiplier) : x = y := by
  have hundo : ∀ z : UInt64, z * multiplier * inverse = z := fun z => by
    rw [UInt64.mul_assoc, multiplier_mul_inverse, UInt64.mul_one]
  rw [← hundo x, h, hundo y]

theorem getLsbD_rotate (x : UInt64) (i : Nat) (hi : i < 64) :
    ((x <<< 5) ||| (x >>> 59)).toBitVec.getLsbD i =
      if i < 5 then x.toBitVec.getLsbD (59 + i) else x.toBitVec.getLsbD (i - 5) := by
  have hshifts : ((x <<< 5) ||| (x >>> 59)).toBitVec = x.toBitVec <<< 5 ||| x.toBitVec >>> 59 :=
    rfl
  rw [hshifts, BitVec.getLsbD_or, BitVec.getLsbD_shiftLeft, BitVec.getLsbD_ushiftRight]
  split
  · simp [*]
  · have hhigh : x.toBitVec.getLsbD (59 + i) = false := BitVec.getLsbD_of_ge _ _ (by omega)
    simp [*]

theorem rotate_inj {x y : UInt64}
    (h : (x <<< 5) ||| (x >>> 59) = (y <<< 5) ||| (y >>> 59)) : x = y := by
  refine UInt64.toBitVec_inj.1 (BitVec.eq_of_getLsbD_eq fun i hi => ?_)
  -- Bit `i` has moved to `i + 5`, or round the end of the word to `i - 59`.
  by_cases hlow : i < 59
  · have hbit := getLsbD_rotate x (i + 5) (by omega)
    rw [h, getLsbD_rotate y (i + 5) (by omega), if_neg (by omega), if_neg (by omega)] at hbit
    exact hbit.symm
  · have hbit := getLsbD_rotate x (i - 59) (by omega)
    rw [h, getLsbD_rotate y (i - 59) (by omega), if_pos (by omega), if_pos (by omega),
      Nat.add_sub_cancel' (by omega)] at hbit
    exact hbit.symm

theorem step_inj_bits {digest b b' : UInt64} (h : step digest b = step digest b') : b = b' :=
  (UInt64.xor_right_inj _).1 (mul_multiplier_inj h)

theorem step_inj_digest {digest digest' b : UInt64} (h : step digest b = step digest' b) :
    digest = digest' :=
  rotate_inj ((UInt64.xor_left_inj b).1 (mul_multiplier_inj h))

theorem foldl_step_inj {digest digest' : UInt64} (words : List Word)
    (h : words.foldl (fun d w => step d (code w)) digest =
      words.foldl (fun d w => step d (code w)) digest') : digest = digest' := by
  induction words generalizing digest digest' with
  | nil => exact h
  | cons w words ih => exact step_inj_digest (ih h)

/-- Sequences that agree but in one place are digested alike only if the words there have one
code. -/
theorem code_eq_of_folding (before after : List Word) {w w' : Word}
    (h : folding.digest (before ++ w :: after) = folding.digest (before ++ w' :: after)) :
    code w = code w' := by
  have hfold : (before ++ w :: after).foldl (fun d w => step d (code w)) 0 =
      (before ++ w' :: after).foldl (fun d w => step d (code w)) 0 := h
  rw [List.foldl_append, List.foldl_append] at hfold
  exact step_inj_bits (foldl_step_inj after hfold)

/-- **The hash that takes in words one by one notices a changed word.** -/
theorem discerning_folding : @Discerning folding where
  bits before after _ _ h := code_eq_of_folding before after h
  flag before after b b' h := by
    have hcode : b.toUInt64 = b'.toUInt64 := code_eq_of_folding before after h
    revert hcode
    cases b <;> cases b' <;> decide

end Hasher

end Stylesheet
