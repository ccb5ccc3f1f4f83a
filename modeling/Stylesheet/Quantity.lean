import Stylesheet.Units.Conversion

/-!
# Quantities

A quantity is a scalar with units. Its arithmetic is written once for every type of scalars.

* Products and quotients compose the units and cancel what they can; they always exist.
* Sums, differences and remainders (`Quantity.combine?`) take the right operand into the units of
  the left one. An operand without units takes on the units of the other. Operands that measure
  different things have none.
-/

namespace Stylesheet

/-- A scalar with units. -/
structure Quantity (α : Type) where
  value : α
  units : Units
  deriving DecidableEq

namespace Quantity

variable {α : Type} [Scale α]

/-- Cancels units, with their factor going into the value. -/
def reduce (q : Quantity α) : Quantity α :=
  let (factor, units) := q.units.reduce (α := α)
  ⟨q.value * factor, units⟩

/-- The same quantity in canonical units. -/
def normalize (q : Quantity α) : Quantity α :=
  let (factor, units) := q.units.normalize (α := α)
  ⟨q.value * factor, units⟩

/-- The value in other units, where they measure the same. -/
def valueIn? (q : Quantity α) (units : Units) : Option α :=
  (q.units.factorTo? (α := α) units).map fun factor => q.value * factor

/-- The product. -/
def mul (a b : Quantity α) : Quantity α :=
  reduce ⟨a.value * b.value, a.units * b.units⟩

/-- The quotient. -/
def div (a b : Quantity α) : Quantity α :=
  reduce ⟨a.value / b.value, a.units / b.units⟩

/-- An operation on values that are brought to the same units. -/
def combine? (f : α → α → α) (a b : Quantity α) : Option (Quantity α) :=
  if b.units.isUnitless then some ⟨f a.value b.value, a.units⟩
  else if a.units.isUnitless then some ⟨f a.value b.value, b.units⟩
  else (b.valueIn? a.units).map fun value => ⟨f a.value value, a.units⟩

end Quantity

end Stylesheet
