import Stylesheet.Operation
import Stylesheet.Proofs.Units.Mismatch
import Stylesheet.Proofs.Units.Residue

/-!
# Dimensions of arithmetic

**Theorem (`Operand.dimensions_of_apply`).** Arithmetic on numbers is dimensionally sound. Products
and quotients always exist, their exponents are the sums and the differences of those of the
operands, and nothing is left in them that cancels. Sums, differences and remainders fail exactly
for numbers with units that measure different things; otherwise they have the units of the left
operand, or those of the right one where the left has none.

Products put the units of both operands side by side and reduce, so they come down to what reducing
keeps (`Units.exponent_reduce`) and leaves (`Units.apart_reduce`). The others convert the right
operand into the units of the left one, which goes by canonical units. That these mechanisms have
one notion of dimension is what exponents are for: a conversion fails exactly where two exponents
differ (`Quantity.valueIn?_eq_none`).

Units are asked for as they are written. An inch per pixel measures nothing, and still it has
units: it has no sum with an `em`, but one with a number that is written without units.
-/

namespace Stylesheet

variable {α : Type} [Scale α]

/-! ## Quantities -/

namespace Quantity

theorem exponent_units_mul (a b : Quantity α) (base : Base) :
    (a.mul b).units.exponent base = a.units.exponent base + b.units.exponent base :=
  (Units.exponent_reduce (α := α) _ base).trans (Units.exponent_mul _ _ base)

theorem exponent_units_div (a b : Quantity α) (base : Base) :
    (a.div b).units.exponent base = a.units.exponent base - b.units.exponent base :=
  (Units.exponent_reduce (α := α) _ base).trans (Units.exponent_div _ _ base)

end Quantity

/-! ## Numbers -/

namespace Arithmetic

variable {op : Arithmetic} {a b : Number} {span : Span}

/-- Whether the operator brings its operands to the same units. -/
def combines : Arithmetic → Bool
  | .add | .sub | .mod => true
  | .mul | .div => false

theorem onNumbers_of_combines (h : op.combines = true) : op.onNumbers a b span =
    match a.combine? op.onDouble b.toQuantity with
    | some q => .ok (.number (.ofQuantity span q))
    | none => .error (a.incompatible b) := by
  cases op <;> first | rfl | cases h

/-- Arithmetic on numbers fails for units that measure different things, and there only. -/
theorem onNumbers_eq_error {e : EvalError} : op.onNumbers a b span = .error e ↔
    op.combines = true ∧ a.units.Mismatched b.units ∧ e = a.incompatible b := by
  cases hop : op.combines with
  | true =>
    rw [onNumbers_of_combines hop, ← Quantity.combine?_eq_none (f := op.onDouble)]
    cases a.combine? op.onDouble b.toQuantity <;> simp [eq_comm]
  | false => cases op <;> simp_all [combines, onNumbers, onQuantity?]

theorem units_of_onNumbers (hop : op.combines = true) (h : ¬ a.units.Mismatched b.units) :
    ∃ n, op.onNumbers a b span = .ok (.number n) ∧
      n.units = if a.units.isUnitless then b.units else a.units := by
  rw [← Quantity.combine?_eq_none (f := op.onDouble), ← Ne, Option.ne_none_iff_exists'] at h
  obtain ⟨q, hq⟩ := h
  refine ⟨.ofQuantity span q, ?_, Quantity.units_of_combine? hq⟩
  rw [onNumbers_of_combines hop, hq]

end Arithmetic

/-! ## Operators -/

namespace Operand

variable {operand : Operand} {op : Arithmetic}

theorem applyBare_of_arithmetic [Hasher] (h : operand.op = op.operator) (left right : Value)
    (span : Span) :
    operand.applyBare left right span = op.apply operand left right span := by
  cases op <;> simp only [applyBare, h, Arithmetic.operator]

/-- The errors of arithmetic on numbers have a place already. -/
theorem apply_numbers [Hasher] (h : operand.op = op.operator) (a b : Number) (span : Span) :
    operand.apply (.number a) (.number b) span = op.onNumbers a b span := by
  rw [apply, applyBare_of_arithmetic h]
  show (op.onNumbers a b span).mapError _ = _
  cases hresult : op.onNumbers a b span with
  | ok v => rfl
  | error e =>
    obtain ⟨-, -, rfl⟩ := Arithmetic.onNumbers_eq_error.1 hresult
    rfl

/-- **Arithmetic on numbers is dimensionally sound.** -/
theorem dimensions_of_apply [Hasher] (operand : Operand) (a b : Number) (span : Span) :
    -- A product adds exponents up, and is reduced.
    (operand.op = .mul → ∃ n, operand.apply (.number a) (.number b) span = .ok (.number n) ∧
      (∀ base, n.units.exponent base = a.units.exponent base + b.units.exponent base) ∧
      ∀ x ∈ n.units.numerators, ∀ y ∈ n.units.denominators,
        (x.factorTo? y : Option Double) = none) ∧
    -- A quotient takes exponents off, and is reduced.
    (operand.op = .div → ∃ n, operand.apply (.number a) (.number b) span = .ok (.number n) ∧
      (∀ base, n.units.exponent base = a.units.exponent base - b.units.exponent base) ∧
      ∀ x ∈ n.units.numerators, ∀ y ∈ n.units.denominators,
        (x.factorTo? y : Option Double) = none) ∧
    -- A sum, difference or remainder fails for units that measure different things.
    (operand.op ∈ [.add, .sub, .mod] →
      (∀ e, operand.apply (.number a) (.number b) span = .error e ↔
        a.units.Mismatched b.units ∧ e = a.incompatible b) ∧
      (¬ a.units.Mismatched b.units →
        ∃ n, operand.apply (.number a) (.number b) span = .ok (.number n) ∧
          n.units = if a.isUnitless then b.units else a.units)) := by
  refine ⟨fun hop => ?product, fun hop => ?quotient, fun hop => ?combined⟩
  case product =>
    have hmul : operand.op = Arithmetic.mul.operator := hop
    refine ⟨.ofQuantity span (a.mul b.toQuantity), apply_numbers hmul a b span,
      a.exponent_units_mul b.toQuantity, fun x hx y hy => ?_⟩
    exact CssUnit.factorTo?_eq_none.2 ((a.units * b.units).apart_reduce x hx y hy)
  case quotient =>
    have hdiv : operand.op = Arithmetic.div.operator := hop
    refine ⟨.ofQuantity span (a.div b.toQuantity), apply_numbers hdiv a b span,
      a.exponent_units_div b.toQuantity, fun x hx y hy => ?_⟩
    exact CssUnit.factorTo?_eq_none.2 ((a.units / b.units).apart_reduce x hx y hy)
  case combined =>
    obtain ⟨op, hcombines, hop⟩ : ∃ op : Arithmetic, op.combines = true ∧
        operand.op = op.operator := by
      rcases List.mem_cons.1 hop with h | h
      · exact ⟨.add, rfl, h⟩
      rcases List.mem_cons.1 h with h | h
      · exact ⟨.sub, rfl, h⟩
      · exact ⟨.mod, rfl, List.mem_singleton.1 h⟩
    rw [apply_numbers hop]
    refine ⟨fun e => ?_, Arithmetic.units_of_onNumbers hcombines⟩
    rw [Arithmetic.onNumbers_eq_error, and_iff_right hcombines]

end Operand

namespace Number

/-- An inch per pixel: it has units, though they measure nothing. -/
def inchPerPixel : Number := .ofText .nowhere 1 "in/px"

/-- Two ems. -/
def twoEms : Number := .ofText .nowhere 2 "em"

/-- Three. -/
def three : Number := .plain .nowhere 3

end Number

open Number in
/-- Units that measure nothing add no exponent to a product, and are units in a sum. -/
theorem Operand.dimensions_of_apply_inchPerPixel :
    (∃ n, (⟨.mul, true, true⟩ : Operand).apply (.number inchPerPixel) (.number twoEms) .nowhere =
        .ok (.number n) ∧
      (∀ base, n.units.exponent base =
        inchPerPixel.units.exponent base + twoEms.units.exponent base) ∧
      ∀ x ∈ n.units.numerators, ∀ y ∈ n.units.denominators,
        (x.factorTo? y : Option Double) = none) ∧
    (∃ n, (⟨.div, true, true⟩ : Operand).apply (.number inchPerPixel) (.number twoEms) .nowhere =
        .ok (.number n) ∧
      (∀ base, n.units.exponent base =
        inchPerPixel.units.exponent base - twoEms.units.exponent base) ∧
      ∀ x ∈ n.units.numerators, ∀ y ∈ n.units.denominators,
        (x.factorTo? y : Option Double) = none) ∧
    (inchPerPixel.units.Mismatched twoEms.units ∧
      (⟨.add, true, true⟩ : Operand).apply (.number inchPerPixel) (.number twoEms) .nowhere =
        .error (inchPerPixel.incompatible twoEms)) ∧
    (¬ inchPerPixel.units.Mismatched three.units ∧
      ∃ n, (⟨.mod, true, true⟩ : Operand).apply (.number inchPerPixel) (.number three) .nowhere =
        .ok (.number n) ∧ n.units = inchPerPixel.units) := by
  have hems : inchPerPixel.units.Mismatched twoEms.units := by decide +kernel
  have hthree : ¬ inchPerPixel.units.Mismatched three.units := by decide +kernel
  have hproduct := (dimensions_of_apply ⟨.mul, true, true⟩ inchPerPixel twoEms .nowhere).1 rfl
  have hquotient := (dimensions_of_apply ⟨.div, true, true⟩ inchPerPixel twoEms .nowhere).2.1 rfl
  have hsum := (dimensions_of_apply ⟨.add, true, true⟩ inchPerPixel twoEms .nowhere).2.2 (by decide)
  have hremainder :=
    (dimensions_of_apply ⟨.mod, true, true⟩ inchPerPixel three .nowhere).2.2 (by decide)
  exact ⟨hproduct, hquotient, ⟨hems, (hsum.1 _).2 ⟨hems, rfl⟩⟩, hthree, hremainder.2 hthree⟩

end Stylesheet
