import Stylesheet.Quantity
import Stylesheet.Double.Decimal
import Stylesheet.Grid
import Stylesheet.Digest
import Stylesheet.EvalError

/-!
# Numbers

A number keeps the units it was written with and prints with them. Comparison and digest work on
the same quantity in canonical units, which makes `1in` and `96px` equal.

Two comparisons are offered. **Equality of values (`Number.beq`)** compares normal forms and never
fails. **The operators (`Number.equal?`, `Number.compare?`)** convert the right number into the
units of the left one, and fail where the two measure different things.
-/

namespace Stylesheet

/-- A quantity of a stylesheet. -/
structure Number extends Quantity Double where
  span : Span
  /-- Whether `0.5` is printed with its leading zero. -/
  leadingZero : Bool := true
  delayed : Bool := false
  memo : Memo := none

namespace Number

/-- A number with units that are written as one text. -/
def ofText (span : Span) (value : Double) (units : String) : Number :=
  { value, units := .ofText units, span }

/-- A number without units. -/
def plain (span : Span) (value : Double) : Number :=
  { value, units := .unitless, span }

/-- A number newly made from a quantity. -/
def ofQuantity (span : Span) (q : Quantity Double) : Number :=
  { toQuantity := q, span }

/-- Whether the number has no units. -/
def isUnitless (n : Number) : Bool := n.units.isUnitless

/-! ## Changes -/

/-- The number with another quantity. The digest is dropped. -/
def withQuantity (n : Number) (q : Quantity Double) : Number :=
  { n with toQuantity := q, memo := none }

/-- The number with another value. -/
def setValue (n : Number) (value : Double) : Number := n.withQuantity ⟨value, n.units⟩

/-- Cancels units in place. -/
def reduce (n : Number) : Number := n.withQuantity n.toQuantity.reduce

/-- Converts to canonical units in place. -/
def normalize (n : Number) : Number := n.withQuantity n.toQuantity.normalize

/-- The number with or without its leading zero. The digest stays. -/
def setLeadingZero (n : Number) (on : Bool) : Number := { n with leadingZero := on }

/-- The number with its mark. The digest stays. -/
def setDelayed (n : Number) (on : Bool) : Number := { n with delayed := on }

/-- A new number of the same quantity in canonical units. -/
def normalized (n : Number) : Number := (ofQuantity n.span n.toQuantity).normalize

/-! ## Comparison -/

/-- Equality of numbers as values: the same canonical units, and values equal at output
precision. -/
def beq (a b : Number) : Bool :=
  let x := a.normalized
  let y := b.normalized
  x.units == y.units && x.value.near y.value

/-- The error of numbers that measure different things, placed at the right one. -/
def incompatible (a b : Number) : EvalError :=
  { cause := .incompatibleUnits a.units.text b.units.text, span? := some b.span }

/-- The operator `==`. A number without units never equals one with units. -/
def equal? (a b : Number) : Except EvalError Bool :=
  if a.isUnitless != b.isUnitless then .ok false
  else
    match b.valueIn? a.units with
    | some value => .ok (a.value.near value)
    | none => .error (a.incompatible b)

/-- The order of two values in the same units: equal at output precision, or the total order. -/
def order (x y : Double) : Ordering :=
  if x.near y then .eq else x.totalCompare y

/-- The order behind `<`, `<=`, `>` and `>=`. A number without units is compared by its value. -/
def compare? (a b : Number) : Except EvalError Ordering :=
  if a.isUnitless || b.isUnitless then .ok (order a.value b.value)
  else
    match b.valueIn? a.units with
    | some value => .ok (order a.value value)
    | none => .error (a.incompatible b)

/-! ## Digest -/

/-- A unit as words. -/
def unitWords : CssUnit → List Word
  | .other name => [.count (CssUnit.other name).rank, .text name]
  | u => [.count u.rank]

/-- What the digest of a number depends on. -/
def words (n : Number) : List Word :=
  let canonical := n.normalized
  let units := canonical.units
  .count units.numerators.length :: units.numerators.flatMap unitWords ++
    .count units.denominators.length :: units.denominators.flatMap unitWords ++
    [.bits canonical.value.snap.bits]

/-- The digest of a number. -/
def digest [Hasher] (n : Number) : UInt64 := n.memo.read n.words

/-- The number carrying its digest. -/
def digested [Hasher] (n : Number) : Number := { n with memo := some n.digest }

/-! ## Text -/

/-- The number with its units, at the given precision. -/
def format (n : Number) (places : Nat) (leadingZero : Bool) : String :=
  n.value.decimalText places leadingZero ++ n.units.text

/-- The number with its units, as it is shown in messages. -/
def text (n : Number) : String := n.format Double.precision n.leadingZero

end Number

end Stylesheet
