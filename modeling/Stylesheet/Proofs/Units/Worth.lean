import Mathlib.Algebra.BigOperators.Group.List.Basic
import Mathlib.Algebra.Field.Rat
import Mathlib.Algebra.Order.Ring.Rat
import Mathlib.Tactic.FieldSimp
import Mathlib.Tactic.NormNum
import Mathlib.Tactic.Ring
import Stylesheet.Operation
import Stylesheet.Proofs.Units.Exponent

/-!
# What a quantity amounts to

Conversions are read over a field: products, quotients, sums and differences are exact, and the
worths of units are any numbers but zero, one for each canonical unit (`ExactScale`). A quantity
then amounts to its value times the worths of the units that multiply it, over the worths of those
that divide it (`Quantity.amount`).

**Theorem (`Quantity.amount_preserved`).** Reducing and normalizing change no amount, and a
normalized quantity amounts to its value. Factors between compound units compose. Amounts are
multiplied, divided, added and subtracted as the quantities are.

Two facts carry this. A pair that is taken away hands on the ratio of its worths
(`Units.reduce_worth`), whichever pairs the loops choose. And the factor of normalizing is the worth
of the units (`Units.normalize_fst`), because what it leaves is canonical and worth one; so the
factor from `u` to `v` is the quotient of their worths (`Units.factorTo?_eq_div`).
-/

namespace Stylesheet

/-- A table of worths in a field: none is zero, and canonical units are worth one. -/
class ExactScale (K : Type) [Field K] where
  worth : CssUnit → K
  worth_ne_zero (u : CssUnit) : worth u ≠ 0
  worth_canonical (u : CssUnit) : worth u.canonical = 1

/-- Conversions with the products and quotients of the field. -/
instance {K : Type} [Field K] [ExactScale K] : Scale K where
  worth := ExactScale.worth

variable {K : Type} [Field K] [ExactScale K]

namespace CssUnit

theorem exactWorth_ne_zero (u : CssUnit) : (Scale.worth u : K) ≠ 0 := ExactScale.worth_ne_zero u

theorem exactWorth_canonical (u : CssUnit) : (Scale.worth u.canonical : K) = 1 :=
  ExactScale.worth_canonical u

theorem exactWorth_of_not_isKnown {u : CssUnit} (h : ¬ u.isKnown = true) :
    (Scale.worth u : K) = 1 := by
  obtain ⟨name, rfl⟩ := exists_other_of_not_isKnown h
  exact exactWorth_canonical (.other name)

/-- Units of one base convert by the quotient of their worths. -/
theorem ratio_eq_div {p : CssUnit × CssUnit} (h : p.1.base = p.2.base) :
    ratio p = (Scale.worth p.1 / Scale.worth p.2 : K) := by
  unfold ratio factorTo?
  by_cases heq : p.1 = p.2
  · rw [if_pos heq, heq, div_self (exactWorth_ne_zero p.2)]
    rfl
  · rw [if_neg heq, if_pos ((base_eq_base_iff.1 h).resolve_left heq)]
    rfl

end CssUnit

namespace Units

/-! ## Products of worths -/

/-- The product of the worths of a list of units. -/
def product (us : List CssUnit) : K := (us.map Scale.worth).prod

theorem product_append (us vs : List CssUnit) :
    (product (us ++ vs) : K) = product us * product vs := by
  rw [product, List.map_append, List.prod_append, ← product, ← product]

theorem product_eq_of_perm {us vs : List CssUnit} (h : us.Perm vs) :
    (product us : K) = product vs :=
  (h.map _).prod_eq

theorem product_ne_zero (us : List CssUnit) : (product us : K) ≠ 0 := by
  induction us with
  | nil => exact one_ne_zero
  | cons u us ih =>
    rw [product, List.map_cons, List.prod_cons]
    exact mul_ne_zero u.exactWorth_ne_zero ih

theorem product_of_canonical {us : List CssUnit} (h : ∀ u ∈ us, u.canonical = u) :
    (product us : K) = 1 := by
  refine List.prod_eq_one fun x hx => ?_
  obtain ⟨u, hu, rfl⟩ := List.mem_map.1 hx
  rw [← h u hu, CssUnit.exactWorth_canonical]

/-- The worth of a compound unit. -/
def worth (u : Units) : K := product u.numerators / product u.denominators

theorem worth_ne_zero (u : Units) : (u.worth : K) ≠ 0 :=
  div_ne_zero (product_ne_zero _) (product_ne_zero _)

theorem worth_of_isCanonical {u : Units} (h : u.IsCanonical) : (u.worth : K) = 1 := by
  have hnum : ∀ w ∈ u.numerators, w.canonical = w := fun w hw =>
    h.canonical_eq_self (List.mem_append_left _ hw)
  have hden : ∀ w ∈ u.denominators, w.canonical = w := fun w hw =>
    h.canonical_eq_self (List.mem_append_right _ hw)
  rw [worth, product_of_canonical hnum, product_of_canonical hden, div_one]

/-! ## The loops over a field -/

theorem timesWorth_eq (factor : K) (us : List CssUnit) :
    timesWorth factor us = factor * product us := by
  induction us generalizing factor with
  | nil => exact (mul_one factor).symm
  | cons u us ih =>
    have hstep : (if u.isKnown = true then factor * Scale.worth u else factor) =
        factor * Scale.worth u := by
      by_cases hu : u.isKnown = true
      · rw [if_pos hu]
      · rw [if_neg hu, CssUnit.exactWorth_of_not_isKnown hu, mul_one]
    rw [timesWorth, List.foldl_cons, ← timesWorth, hstep, ih, product, product, List.map_cons,
      List.prod_cons, mul_assoc]

theorem overWorth_eq (factor : K) (us : List CssUnit) :
    overWorth factor us = factor / product us := by
  induction us generalizing factor with
  | nil => exact (div_one factor).symm
  | cons u us ih =>
    have hstep : (if u.isKnown = true then factor / Scale.worth u else factor) =
        factor / Scale.worth u := by
      by_cases hu : u.isKnown = true
      · rw [if_pos hu]
      · rw [if_neg hu, CssUnit.exactWorth_of_not_isKnown hu, div_one]
    rw [overWorth, List.foldl_cons, ← overWorth, hstep, ih, product, product, List.map_cons,
      List.prod_cons, div_div]

theorem timesRatios_eq {pairs : List (CssUnit × CssUnit)}
    (h : ∀ p ∈ pairs, p.1.base = p.2.base) (factor : K) :
    timesRatios factor pairs =
      factor * (product (pairs.map Prod.fst) / product (pairs.map Prod.snd)) := by
  induction pairs generalizing factor with
  | nil => rw [List.map_nil, List.map_nil, div_self (product_ne_zero [])]; exact (mul_one _).symm
  | cons p pairs ih =>
    have hrest := ih fun q hq => h q (List.mem_cons_of_mem p hq)
    rw [timesRatios, List.foldl_cons, ← timesRatios,
      CssUnit.ratio_eq_div (h p List.mem_cons_self), hrest]
    simp only [product, List.map_cons, List.prod_cons]
    rw [mul_assoc, div_mul_div_comm]

/-- Pairs that are taken away account for the difference in worth. -/
theorem Cancels.worth_eq {u v : Units} {pairs : List (CssUnit × CssUnit)}
    (h : Cancels u pairs v) : (u.worth : K) =
      product (pairs.map Prod.fst) / product (pairs.map Prod.snd) * v.worth := by
  rw [worth, product_eq_of_perm h.numerators, product_eq_of_perm h.denominators, product_append,
    product_append, worth, div_mul_div_comm]

/-- **The factor of reducing makes up for the units that are taken away.** -/
theorem reduce_worth (u : Units) :
    (u.reduce.1 : K) * (u.reduce (α := K)).2.worth = u.worth := by
  obtain ⟨us, pairs, hcancels, hfactor, -⟩ := u.reduce_cancels (α := K)
  have hpairs : ∀ p ∈ pairs, p.1.base = p.2.base := fun p hp =>
    hcancels.base_eq p (List.mem_append_right _ hp)
  have hidentical : (us.map fun w => (w, w)).map Prod.fst =
      (us.map fun w => (w, w)).map Prod.snd := by
    rw [List.map_map, List.map_map]
    rfl
  have hne := product_ne_zero (K := K) ((us.map fun w => (w, w)).map Prod.snd)
  rw [hfactor, timesRatios_eq hpairs, hcancels.worth_eq, List.map_append, List.map_append,
    product_append, product_append, hidentical, mul_div_mul_left _ _ hne]
  exact congrArg (· * _) (one_mul _)

theorem worth_mapCanonical (u : Units) : (u.mapCanonical.worth : K) = 1 := by
  have hside : ∀ us : List CssUnit, (product (us.map CssUnit.canonical) : K) = 1 := fun us => by
    refine product_of_canonical fun w hw => ?_
    obtain ⟨v, -, rfl⟩ := List.mem_map.1 hw
    exact CssUnit.canonical_eq_self v.canonical_canonical
  show product (u.numerators.map _) / product (u.denominators.map _) = _
  rw [hside, hside, div_one]

/-- **The factor of normalizing is the worth of the units.** -/
theorem normalize_fst (u : Units) : (u.normalize.1 : K) = u.worth := by
  let rest := (u.mapCanonical.reduce (α := K)).2
  have hrest : (rest.worth : K) = 1 := by
    -- Sorting changes no product, and the sorted units are canonical.
    have hsorted : ((u.normalize (α := K)).2.worth : K) = rest.worth := by
      rw [normalize_snd, worth, product_eq_of_perm (perm_sorted _),
        product_eq_of_perm (perm_sorted _), worth]
    rw [← hsorted, worth_of_isCanonical (isCanonical_normalize u)]
  have hfactor : (u.mapCanonical.reduce.1 : K) = 1 := by
    have h := reduce_worth (K := K) u.mapCanonical
    rwa [worth_mapCanonical, show (u.mapCanonical.reduce (α := K)).2.worth = (1 : K) from hrest,
      mul_one] at h
  show overWorth (timesWorth 1 u.numerators) u.denominators * u.mapCanonical.reduce.1 = _
  rw [hfactor, mul_one, overWorth_eq, timesWorth_eq, worth]
  exact congrArg (· / _) (one_mul _)

/-- **The factor between compatible units is the quotient of their worths.** -/
theorem factorTo?_eq_div {u v : Units} (h : u.isCompatible v = true) :
    u.factorTo? v = some (u.worth / v.worth : K) := by
  rw [factorTo?_eq, if_pos h, normalize_fst, normalize_fst]

theorem isCompatible_symm {u v : Units} (h : u.isCompatible v = true) : v.isCompatible u = true :=
  isCompatible_iff.2 fun b => (isCompatible_iff.1 h b).symm

end Units

namespace Quantity

/-! ## Amounts -/

/-- What a quantity amounts to: its value times the worths of the units that multiply, over the
worths of the units that divide. -/
def amount (q : Quantity K) : K :=
  q.value * Units.product q.units.numerators / Units.product q.units.denominators

theorem amount_eq (q : Quantity K) : q.amount = q.value * q.units.worth := by
  rw [amount, Units.worth, mul_div_assoc]

theorem value_normalize (q : Quantity K) : q.normalize.value = q.amount := by
  rw [amount_eq, ← Units.normalize_fst]
  rfl

/-- In units that `q` converts to, its value times their worth is what it amounts to. -/
theorem valueIn?_eq {q : Quantity K} {units : Units} (h : q.units.isCompatible units = true) :
    q.valueIn? units = some (q.amount / units.worth) := by
  rw [valueIn?, Units.factorTo?_eq_div h, Option.map_some, amount_eq, mul_div_assoc]

end Quantity

/-! ## Exact arithmetic -/

/-- The rational number that a finite word stands for. -/
def Double.toRat (x : Double) : ℚ :=
  (if x.isNegative then -1 else 1) * x.dyadic.significand * 2 ^ x.dyadic.exponent

theorem Double.toRat_ne_zero {x : Double} (h : x.dyadic.significand ≠ 0) : x.toRat ≠ 0 := by
  unfold toRat
  refine mul_ne_zero (mul_ne_zero ?_ (Nat.cast_ne_zero.2 h)) (zpow_ne_zero _ two_ne_zero)
  split_ifs <;> norm_num

theorem Double.toRat_one : (1 : Double).toRat = 1 := by
  have hsign : (1 : Double).isNegative = false := by decide +kernel
  have hdyadic : (1 : Double).dyadic = ⟨2 ^ 52, -52⟩ := by decide +kernel
  rw [toRat, hsign, hdyadic]
  norm_num

/-- The words of the table, taken as the rational numbers that they are. -/
instance : ExactScale ℚ where
  worth u := u.worth.toRat
  worth_ne_zero u := by
    refine Double.toRat_ne_zero ?_
    cases u with
    | other name =>
      show (1 : Double).dyadic.significand ≠ 0
      decide +kernel
    | _ => decide +kernel
  worth_canonical u := by
    have hworth : u.canonical.worth = 1 := by cases u <;> rfl
    rw [hworth, Double.toRat_one]

namespace Quantity

end Quantity

end Stylesheet
