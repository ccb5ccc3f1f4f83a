import Stylesheet.Proofs.Double.One
import Stylesheet.Proofs.Units.Mismatch
import Stylesheet.Proofs.Units.Worth

/-!
# The two comparisons of numbers

Equality of values brings both numbers to canonical units before it compares them on the grid. The
operator `==` brings the right number into the units of the left one and compares there, so its grid
is finer or coarser by what these units are worth, and it asks whether a number has units before
anything is cancelled.

**Theorem (`Number.equal?_spec`).** The operator fails in both orders or in none, for numbers that
measure different things. If the left number is written in canonical units and no units cancel out,
its answer is equality of values; numbers whose units have one factor are compared alike in both
orders. Without rounding, comparing in the units of the left number and comparing in canonical
units are the same (`Quantity.value_eq_iff_normalize_eq`).

Outside of these conditions the two come apart (`Number.equal?_inch_one_sided`): an inch equals
`96.00000000005px`, because in inches the difference lies within one step of the grid, but not the
other way round; and `1px/px` does not equal `1`, though the two are equal as values.
-/

namespace Stylesheet

/-! ## Exact numbers -/

/-- **In a field, a value converted to other units is the value there exactly when the normal
forms are equal.** -/
theorem Quantity.value_eq_iff_normalize_eq {K : Type} [Field K] [ExactScale K] {p q : Quantity K}
    {v : K} (h : q.valueIn? p.units = some v) : p.value = v ↔ p.normalize = q.normalize := by
  have hcompatible : q.units.isCompatible p.units = true := by
    by_contra hnot
    rw [valueIn?, Units.factorTo?_eq, if_neg hnot] at h
    cases h
  have hunits : p.normalize.units = q.normalize.units :=
    (Units.normalize_eq_iff (α := K)).2 fun b => (Units.isCompatible_iff.1 hcompatible b).symm
  have hv : v = q.amount / p.units.worth := by
    rw [valueIn?_eq hcompatible] at h
    exact (Option.some.inj h).symm
  rw [hv, eq_div_iff (Units.worth_ne_zero p.units), ← amount_eq, ← value_normalize,
    ← value_normalize]
  constructor
  · intro hvalue
    exact congrArg₂ Quantity.mk hvalue hunits
  · exact congrArg Quantity.value

/-! ## Factors of the program -/

namespace Units

/-- Every unit is the canonical one of its dimension. -/
def WrittenCanonically (u : Units) : Prop := ∀ w ∈ u.numerators ++ u.denominators, w.canonical = w

instance (u : Units) : Decidable u.WrittenCanonically :=
  inferInstanceAs (Decidable (∀ w ∈ u.numerators ++ u.denominators, w.canonical = w))

theorem worth_of_canonical {w : CssUnit} (h : w.canonical = w) : w.worth = 1 := by
  have hworth : w.canonical.worth = 1 := by cases w <;> rfl
  rwa [h] at hworth

theorem one_mul_one : (1 : Double) * 1 = 1 := Double.mul_one_of_not_isNaN Double.isNaN_one

theorem one_div_one : (1 : Double) / 1 = 1 := Double.div_one_of_not_isNaN Double.isNaN_one

theorem timesWorth_of_canonical {us : List CssUnit} (h : ∀ w ∈ us, w.canonical = w) :
    timesWorth (1 : Double) us = 1 := by
  induction us with
  | nil => rfl
  | cons w us ih =>
    have hstep : (if w.isKnown = true then (1 : Double) * w.worth else 1) = 1 := by
      rw [worth_of_canonical (h w List.mem_cons_self), one_mul_one, ite_self]
    have hrest := ih fun v hv => h v (List.mem_cons_of_mem w hv)
    exact (congrArg (timesWorth · us) hstep).trans hrest

theorem overWorth_of_canonical {us : List CssUnit} (h : ∀ w ∈ us, w.canonical = w) :
    overWorth (1 : Double) us = 1 := by
  induction us with
  | nil => rfl
  | cons w us ih =>
    have hstep : (if w.isKnown = true then (1 : Double) / w.worth else 1) = 1 := by
      rw [worth_of_canonical (h w List.mem_cons_self), one_div_one, ite_self]
    have hrest := ih fun v hv => h v (List.mem_cons_of_mem w hv)
    exact (congrArg (overWorth · us) hstep).trans hrest

/-- Canonical units cancel only with themselves, so no factor comes of it. -/
theorem reduce_mapCanonical_fst (u : Units) : (u.mapCanonical.reduce (α := Double)).1 = 1 := by
  obtain ⟨us, pairs, hcancels, hfactor, -⟩ := u.mapCanonical.reduce_cancels (α := Double)
  have hcanonical : ∀ (vs : List CssUnit) (w : CssUnit), w ∈ vs.map CssUnit.canonical →
      w.canonical = w := fun vs w hw => by
    obtain ⟨v, -, rfl⟩ := List.mem_map.1 hw
    exact CssUnit.canonical_eq_self v.canonical_canonical
  have hsame : ∀ p ∈ pairs, p.1 = p.2 := fun p hp => by
    have hmem : p ∈ us.map (fun w => (w, w)) ++ pairs := List.mem_append_right _ hp
    have hnum : p.1 ∈ u.mapCanonical.numerators :=
      hcancels.numerators.mem_iff.2 (List.mem_append_left _ (List.mem_map_of_mem hmem))
    have hden : p.2 ∈ u.mapCanonical.denominators :=
      hcancels.denominators.mem_iff.2 (List.mem_append_left _ (List.mem_map_of_mem hmem))
    rw [← hcanonical _ _ hnum, ← hcanonical _ _ hden]
    exact CssUnit.canonical_eq_of_base_eq (hcancels.base_eq p hmem)
  rw [hfactor]
  clear hcancels hfactor
  induction pairs with
  | nil => rfl
  | cons p pairs ih =>
    have hratio : CssUnit.ratio p = (1 : Double) := by
      rw [CssUnit.ratio, CssUnit.factorTo?, if_pos (hsame p List.mem_cons_self)]
      rfl
    have hstep : (1 : Double) * CssUnit.ratio p = 1 := by rw [hratio, one_mul_one]
    have hrest := ih fun q hq => hsame q (List.mem_cons_of_mem p hq)
    exact (congrArg (timesRatios · pairs) hstep).trans hrest

/-- **Units that are written canonically have the factor one.** -/
theorem normalize_fst_of_writtenCanonically {u : Units} (h : u.WrittenCanonically) :
    (u.normalize (α := Double)).1 = 1 := by
  have hnum := timesWorth_of_canonical fun w hw => h w (List.mem_append_left _ hw)
  have hden := overWorth_of_canonical fun w hw => h w (List.mem_append_right _ hw)
  show overWorth (timesWorth 1 u.numerators) u.denominators * u.mapCanonical.reduce.1 = 1
  rw [reduce_mapCanonical_fst, hnum, hden, one_mul_one]

end Units

/-! ## Numbers -/

namespace Number

variable {a b : Number}

/-- How many canonical units one of the number's units is, as the program computes it. -/
def factor (n : Number) : Double := (n.units.normalize (α := Double)).1

/-- The number is written with units and measures none. -/
def CancelsOut (n : Number) : Prop := n.isUnitless = false ∧ n.normalized.isUnitless = true

instance (n : Number) : Decidable n.CancelsOut :=
  inferInstanceAs (Decidable (n.isUnitless = false ∧ n.normalized.isUnitless = true))

theorem beq_eq (a b : Number) : a.beq b =
    (a.units.isCompatible b.units && (a.value * a.factor).near (b.value * b.factor)) := rfl

theorem equal?_of_isUnitless_ne (h : a.isUnitless ≠ b.isUnitless) : a.equal? b = .ok false := by
  rw [equal?, if_pos (bne_iff_ne.2 h)]

theorem equal?_of_isUnitless_eq (h : a.isUnitless = b.isUnitless) : a.equal? b =
    if b.units.isCompatible a.units then .ok (a.value.near (b.value * (b.factor / a.factor)))
    else .error (a.incompatible b) := by
  rw [equal?, if_neg (by simp [h]), Quantity.valueIn?, Units.factorTo?_eq]
  split_ifs <;> rfl

/-- The operator fails on numbers with units that measure different things. -/
theorem equal?_eq_error_iff : (∃ e, a.equal? b = .error e) ↔
    a.isUnitless = b.isUnitless ∧ a.units.isCompatible b.units = false := by
  simp only [equal?_eq_error, exists_and_left, exists_eq, and_true, Units.isCompatible_eq_false]
  exact ⟨fun h => ⟨h.1.trans h.2.1.symm, h.2.2⟩, fun h => Units.mismatched_of_exponent_ne h.1 h.2⟩

/-- A number without units equals none that has units, unless those cancel out. -/
theorem beq_of_isUnitless_ne (h : a.isUnitless ≠ b.isUnitless) (ha : ¬ a.CancelsOut)
    (hb : ¬ b.CancelsOut) : a.beq b = false := by
  have hkept : ∀ n : Number, ¬ n.CancelsOut → n.normalized.isUnitless = n.isUnitless := by
    intro n hn
    cases hunitless : n.isUnitless with
    | true =>
      show (n.units.normalize (α := Double)).2.isUnitless = true
      rw [Units.eq_unitless hunitless]
      rfl
    | false => exact Bool.eq_false_iff.2 fun hcancels => hn ⟨hunitless, hcancels⟩
  refine Bool.eq_false_iff.2 fun hbeq => h ?_
  have hunits : a.normalized.units = b.normalized.units :=
    beq_iff_eq.1 (Bool.and_eq_true_iff.1 hbeq).1
  rw [← hkept a ha, ← hkept b hb, isUnitless, hunits, isUnitless]

/-- In canonical units on the left, the operator compares as equality of values does. -/
theorem equal?_eq_beq (hcanonical : a.units.WrittenCanonically) (ha : ¬ a.CancelsOut)
    (hb : ¬ b.CancelsOut) {x : Bool} (h : a.equal? b = .ok x) : x = a.beq b := by
  by_cases hunitless : a.isUnitless = b.isUnitless
  · have hfactor : a.factor = 1 := Units.normalize_fst_of_writtenCanonically hcanonical
    have hleft : (a.value * 1).snap = a.value.snap := Double.snap_mul_one a.value
    rw [equal?_of_isUnitless_eq hunitless] at h
    split_ifs at h with hcompatible
    rw [beq_eq, Units.isCompatible_symm hcompatible, Bool.true_and, ← Except.ok.inj h, hfactor,
      Double.mul_div_one, Double.near, Double.near, hleft]
  · rw [equal?_of_isUnitless_ne hunitless] at h
    rw [beq_of_isUnitless_ne hunitless ha hb, ← Except.ok.inj h]

/-- Numbers whose units have one factor are compared by their values. -/
theorem equal?_of_factor_eq (hfactor : a.factor = b.factor) (hfinite : b.factor.isFinite = true)
    (hzero : b.factor.isZero = false) (hunitless : a.isUnitless = b.isUnitless)
    (hcompatible : b.units.isCompatible a.units = true) :
    a.equal? b = .ok (a.value.near b.value) := by
  rw [equal?_of_isUnitless_eq hunitless, if_pos hcompatible, hfactor,
    Double.div_self hfinite hzero, Double.near, Double.snap_mul_one, ← Double.near]

/-- **What the operator `==` answers**, in both orders and beside equality of values. -/
theorem equal?_spec (a b : Number) :
    -- Both orders fail together, and a number without units equals none with units in either.
    ((∃ e, a.equal? b = .error e) ↔
      a.isUnitless = b.isUnitless ∧ a.units.isCompatible b.units = false) ∧
    ((∃ e, a.equal? b = .error e) ↔ ∃ e, b.equal? a = .error e) ∧
    (a.isUnitless ≠ b.isUnitless → a.equal? b = .ok false ∧ b.equal? a = .ok false) ∧
    -- In canonical units on the left, the answer is equality of values.
    (a.units.WrittenCanonically → ¬ a.CancelsOut → ¬ b.CancelsOut →
      ∀ x, a.equal? b = .ok x → x = a.beq b) ∧
    -- Units of one factor are compared alike in both orders.
    (a.factor = b.factor → b.factor.isFinite = true → b.factor.isZero = false →
      ∀ x, a.equal? b = .ok x ↔ b.equal? a = .ok x) ∧
    -- Without rounding, the units of the left number and canonical units give one answer.
    ∀ (K : Type) [Field K] [ExactScale K] (p q : Quantity K) (v : K),
      q.valueIn? p.units = some v → (p.value = v ↔ p.normalize = q.normalize) := by
  have hsymm : a.units.isCompatible b.units = b.units.isCompatible a.units :=
    Bool.eq_iff_iff.2 ⟨Units.isCompatible_symm, Units.isCompatible_symm⟩
  refine ⟨equal?_eq_error_iff, ?together, fun h => ?unitless, ?agree, ?commute, ?exact⟩
  case together => rw [equal?_eq_error_iff, equal?_eq_error_iff, hsymm, eq_comm]
  case unitless => exact ⟨equal?_of_isUnitless_ne h, equal?_of_isUnitless_ne h.symm⟩
  case agree => exact fun hcanonical ha hb x h => equal?_eq_beq hcanonical ha hb h
  case commute =>
    intro hfactor hfinite hzero x
    by_cases hunitless : a.isUnitless = b.isUnitless
    · cases hcompatible : b.units.isCompatible a.units with
      | true =>
        have hnear : a.value.near b.value = b.value.near a.value :=
          Bool.eq_iff_iff.2 ⟨Double.near_symm, Double.near_symm⟩
        rw [equal?_of_factor_eq hfactor hfinite hzero hunitless hcompatible,
          equal?_of_factor_eq hfactor.symm (hfactor ▸ hfinite) (hfactor ▸ hzero) hunitless.symm
            (hsymm.trans hcompatible), hnear]
      | false =>
        rw [equal?_of_isUnitless_eq hunitless, equal?_of_isUnitless_eq hunitless.symm, hsymm,
          hcompatible]
        simp
    · rw [equal?_of_isUnitless_ne hunitless, equal?_of_isUnitless_ne (Ne.symm hunitless)]
  case exact => exact fun K _ _ p q v h => Quantity.value_eq_iff_normalize_eq h

/-- An inch. -/
def inch : Number := .ofText .nowhere 1 "in"

/-- Pixels that are an inch but for five steps of the grid. -/
def nearlyAnInch : Number := .ofText .nowhere 96.00000000005 "px"

/-- One, written with a unit that cancels. -/
def pixelsPerPixel : Number := .ofText .nowhere 1 "px/px"

/-- Pixels on the left are compared with an inch as values are. -/
theorem equal?_spec_pixels :
    nearlyAnInch.units.WrittenCanonically ∧ ¬ nearlyAnInch.CancelsOut ∧ ¬ inch.CancelsOut ∧
      nearlyAnInch.equal? inch = .ok false ∧ nearlyAnInch.beq inch = false := by
  have hcanonical : nearlyAnInch.units.WrittenCanonically := by decide +kernel
  have hpixels : ¬ nearlyAnInch.CancelsOut := by decide +kernel
  have hinch : ¬ inch.CancelsOut := by decide +kernel
  have hanswer : nearlyAnInch.equal? inch = .ok false := by decide +kernel
  have hagree := (equal?_spec nearlyAnInch inch).2.2.2.1 hcanonical hpixels hinch false hanswer
  exact ⟨hcanonical, hpixels, hinch, hanswer, hagree.symm⟩

/-- Two numbers that are equal in one order only and not as values, and two that are equal as
values only. -/
theorem equal?_inch_one_sided :
    (inch.equal? nearlyAnInch = .ok true ∧ nearlyAnInch.equal? inch = .ok false ∧
        inch.beq nearlyAnInch = false) ∧
      pixelsPerPixel.equal? (.plain .nowhere 1) = .ok false ∧
      pixelsPerPixel.beq (.plain .nowhere 1) = true := by
  decide +kernel

end Number

end Stylesheet
