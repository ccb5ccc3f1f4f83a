import Stylesheet.Proofs.Double.Remainder
import Stylesheet.Proofs.Operation.Dimension
import Stylesheet.Proofs.Units.Comparison

/-!
# The comparison operators agree

**Theorem (`Operand.comparisons_coherent`).** On two numbers that both have units, or both have
none, the six comparison operators fail together, with one error, or answer as one order does:
exactly one of `<`, `==` and `>` holds, `<=` and `>=` are these with `==`, and `!=` is the negation
of `==`. On any two values at all, `!=` is the negation of `==` or fails with the same error.

Equality and order are asked of two numbers by two functions. Both bring the right number into the
units of the left one, so they fail together, and there both ask first whether the values are near.
What has to be shown is that the order never answers "equal" after that: it goes on to the total
order of words, which tells any two words apart (`Double.totalCompare_eq_eq`), also two NaN and the
two zeros, while equal words are near. Hence equality is what the order says
(`Number.equal?_eq_map_compare?`), and all six operators read one ordering
(`Operand.apply_numbers_of_isComparison`).

If only one of the numbers has units, there is no such order: `1 == 1px` is false, while `1 <= 1px`
and `1 >= 1px` are both true.
-/

namespace Stylesheet

/-! ## The total order of words -/

namespace Double

theorem totalKey_neg_iff {x : Double} : x.totalKey < 0 ↔ x.isNegative = true := by
  unfold totalKey
  split
  · next h => exact ⟨fun _ => h, fun _ => by omega⟩
  · next h => exact ⟨fun hlt => by omega, fun hneg => absurd hneg h⟩

theorem totalKey_injective {x y : Double} (h : x.totalKey = y.totalKey) : x = y := by
  have hsign : x.isNegative = y.isNegative := by
    rw [Bool.eq_iff_iff, ← totalKey_neg_iff, ← totalKey_neg_iff, h]
  have hmagnitude : x.magnitude = y.magnitude := by
    unfold totalKey at h
    rw [hsign] at h
    split at h <;> omega
  rw [← ofMagnitude_magnitude x, ← ofMagnitude_magnitude y, hsign, hmagnitude]

theorem totalCompare_eq_eq {x y : Double} : x.totalCompare y = .eq ↔ x = y := by
  rw [totalCompare, compare_eq_iff_eq]
  exact ⟨totalKey_injective, congrArg totalKey⟩

end Double

/-! ## Numbers -/

namespace Number

variable {a b : Number}

/-- The order of two values is "equal" for values that are near, and for no others. -/
theorem isEq_order (x y : Double) : (order x y).isEq = x.near y := by
  unfold order
  cases hnear : x.near y with
  | true => rfl
  | false =>
    have hne : x.totalCompare y ≠ .eq := fun h => by
      rw [Double.totalCompare_eq_eq.1 h, Double.near_refl] at hnear
      cases hnear
    rw [if_neg Bool.false_ne_true, Bool.eq_false_iff, Ne, Ordering.isEq_iff_eq_eq]
    exact hne

theorem equal?_of_isUnitless (ha : a.isUnitless = true) (hb : b.isUnitless = true) :
    a.equal? b = .ok (a.value.near b.value) := by
  have hunits : a.units = b.units := (Units.eq_unitless ha).trans (Units.eq_unitless hb).symm
  have hfactor : b.factor = 1 := by
    rw [factor, Units.eq_unitless hb]
    exact Units.normalize_fst_of_writtenCanonically (by decide)
  refine equal?_of_factor_eq (by rw [factor, factor, hunits]) ?_ ?_ (ha.trans hb.symm) ?_
  · rw [hfactor]; decide +kernel
  · rw [hfactor]; decide +kernel
  · rw [hunits]; exact beq_self_eq_true _

/-- Two numbers are equal where their order says so, and incomparable where they have none. -/
theorem equal?_eq_map_compare? (h : a.isUnitless = b.isUnitless) :
    a.equal? b = (a.compare? b).map Ordering.isEq := by
  cases hb : b.isUnitless with
  | true =>
    have ha := h.trans hb
    rw [equal?_of_isUnitless ha hb, compare?, if_pos (by simp [ha]), ← isEq_order]
    rfl
  | false =>
    have ha := h.trans hb
    rw [equal?, compare?, if_neg (by simp [ha, hb]), if_neg (by simp [ha, hb])]
    cases b.valueIn? a.units with
    | some value => exact congrArg Except.ok (isEq_order a.value value).symm
    | none => rfl

end Number

/-! ## Operators -/

/-- Whether a comparison operator holds of two things in the given order. -/
def Operator.holds (op : Operator) (o : Ordering) : Bool :=
  match op with
  | .eq => o.isEq
  | .ne => !o.isEq
  | .lt => o.isLT
  | .le => o.isLE
  | .gt => o.isGT
  | .ge => o.isGE
  | _ => false

namespace Operand

variable {operand : Operand} {a b : Number} {left right : Value} {span : Span}

theorem applyBare_numbers_of_isComparison [Hasher] (hop : operand.op.isComparison = true)
    (h : a.isUnitless = b.isUnitless) : operand.applyBare (.number a) (.number b) span =
      (a.compare? b).map fun o => .bool (operand.op.holds o) span := by
  have hequal : Value.equal? (.number a) (.number b) = (a.compare? b).map Ordering.isEq :=
    Number.equal?_eq_map_compare? h
  have hrelated : ∀ op holds, Value.related? op holds (.number a) (.number b) =
      (a.compare? b).map holds := fun _ _ => rfl
  unfold applyBare
  cases hop' : operand.op <;> simp only [hop', Operator.isComparison, Bool.false_eq_true] at hop <;>
    simp only [hequal, hrelated] <;> cases a.compare? b <;> rfl

/-- **The comparison operators read the order of two numbers**, or fail as it does. -/
theorem apply_numbers_of_isComparison [Hasher] (hop : operand.op.isComparison = true)
    (h : a.isUnitless = b.isUnitless) : operand.apply (.number a) (.number b) span =
      (a.compare? b).map fun o => .bool (operand.op.holds o) span := by
  rw [apply, applyBare_numbers_of_isComparison hop h]
  cases hcompare : a.compare? b with
  | ok o => rfl
  | error e =>
    -- The error of two numbers has the place of the right one.
    rw [(Number.compare?_eq_error.1 hcompare).2]
    rfl

theorem apply_of_op_eq [Hasher] (hop : operand.op = .eq) (left right : Value) (span : Span) :
    operand.apply left right span =
      ((left.equal? right).map fun x => .bool x span).mapError (·.orAt span) := by
  rw [apply, applyBare, hop]

theorem apply_of_op_ne [Hasher] (hop : operand.op = .ne) (left right : Value) (span : Span) :
    operand.apply left right span =
      ((left.equal? right).map fun x => .bool (!x) span).mapError (·.orAt span) := by
  rw [apply, applyBare, hop]

/-- **The six comparison operators are coherent.** -/
theorem comparisons_coherent [Hasher] :
    (∀ {a b : Number}, a.isUnitless = b.isUnitless →
      -- They all fail alike, for units that measure different things.
      (a.units.Mismatched b.units → ∀ (operand : Operand) (span : Span),
        operand.op.isComparison = true →
          operand.apply (.number a) (.number b) span = .error (a.incompatible b)) ∧
      -- Otherwise they all give a truth value, and those fit together.
      (¬ a.units.Mismatched b.units → ∃ truth : Operator → Bool,
        (∀ (operand : Operand) (span : Span), operand.op.isComparison = true →
          operand.apply (.number a) (.number b) span = .ok (.bool (truth operand.op) span)) ∧
        [truth .lt, truth .eq, truth .gt].count true = 1 ∧
        truth .le = (truth .lt || truth .eq) ∧ truth .ge = (truth .gt || truth .eq) ∧
        truth .ne = !truth .eq)) ∧
    -- On any two values, `!=` denies what `==` says, or fails with it.
    ∀ (equal unequal : Operand), equal.op = .eq → unequal.op = .ne →
      ∀ (left right : Value) (span : Span),
        (∃ e, equal.apply left right span = .error e ∧
          unequal.apply left right span = .error e) ∨
        ∃ x, equal.apply left right span = .ok (.bool x span) ∧
          unequal.apply left right span = .ok (.bool (!x) span) := by
  refine ⟨@fun a b h => ⟨fun hunits => ?fail, fun hunits => ?answer⟩,
    fun equal unequal heq hne left right span => ?values⟩
  case fail =>
    intro operand span hop
    rw [apply_numbers_of_isComparison hop h, Number.compare?_eq_error.2 ⟨hunits, rfl⟩]
    rfl
  case answer =>
    cases hcompare : a.compare? b with
    | error e => exact absurd (Number.compare?_eq_error.1 hcompare).1 hunits
    | ok o =>
      refine ⟨fun op => op.holds o, fun operand span hop => ?_, ?_⟩
      · rw [apply_numbers_of_isComparison hop h, hcompare]
        rfl
      · cases o <;> decide
  case values =>
    rw [apply_of_op_eq heq, apply_of_op_ne hne]
    cases left.equal? right with
    | error e => exact .inl ⟨e.orAt span, rfl, rfl⟩
    | ok x => exact .inr ⟨x, rfl, rfl⟩

end Operand

/-- A count of pixels that is not a number. -/
def Number.nanPixels : Number := .ofText .nowhere .nan "px"

open Number in
/-- An inch has an order with pixels that are not a number, and none with ems; it is not null. -/
theorem Operand.comparisons_coherent_nanPixels :
    (inch.isUnitless = nanPixels.isUnitless ∧ ¬ inch.units.Mismatched nanPixels.units ∧
      ∃ truth : Operator → Bool,
        (∀ (operand : Operand) (span : Span), operand.op.isComparison = true →
          operand.apply (.number inch) (.number nanPixels) span =
            .ok (.bool (truth operand.op) span)) ∧
        [truth .lt, truth .eq, truth .gt].count true = 1) ∧
    (inch.isUnitless = twoEms.isUnitless ∧ inch.units.Mismatched twoEms.units ∧
      ∀ (operand : Operand) (span : Span), operand.op.isComparison = true →
        operand.apply (.number inch) (.number twoEms) span =
          .error (inch.incompatible twoEms)) ∧
    (⟨.ne, true, true⟩ : Operand).apply (.number inch) (.null .nowhere) .nowhere =
      .ok (.bool true .nowhere) := by
  have hnan : inch.isUnitless = nanPixels.isUnitless := by decide +kernel
  have hpixels : ¬ inch.units.Mismatched nanPixels.units := by decide +kernel
  have hunits : inch.isUnitless = twoEms.isUnitless := by decide +kernel
  have hems : inch.units.Mismatched twoEms.units := by decide +kernel
  obtain ⟨truth, htruth, hone, -⟩ := (comparisons_coherent.1 hnan).2 hpixels
  refine ⟨⟨hnan, hpixels, truth, htruth, hone⟩,
    ⟨hunits, hems, (comparisons_coherent.1 hunits).1 hems⟩, ?_⟩
  rcases comparisons_coherent.2 ⟨.eq, true, true⟩ ⟨.ne, true, true⟩ rfl rfl (.number inch)
    (.null .nowhere) .nowhere with ⟨e, hequal, -⟩ | ⟨x, hequal, hunequal⟩
  · cases hequal
  · cases hequal
    exact hunequal

end Stylesheet
