import Stylesheet.Units.Basic
import Stylesheet.Double.Basic

/-!
# Conversion of units

Conversions multiply and divide by the worth of units. They are written once for every type of
scalars (`Scale`): the program computes with binary64 numbers, whose products are rounded, and the
theory can take the same definitions over a field.

* **Reducing (`Units.reduce`)** cancels units that stand on both sides: identical ones first, then
  units of one dimension, whose ratio goes into a factor. What stays keeps its order.
* **Normalizing (`Units.normalize`)** writes every known unit as the canonical one of its
  dimension, reduces and sorts. Lists that measure the same come out equal.
* **Converting (`Units.factorTo?`)** between two compound units is possible when they normalize to
  the same units.
-/

namespace Stylesheet

/-- Scalars in which conversions are computed: products, quotients and the worth of each unit in
canonical units of its dimension. -/
class Scale (α : Type) extends Mul α, Div α, One α where
  worth : CssUnit → α

namespace CssUnit

/-- What one of a unit is worth in canonical units. -/
def worth : CssUnit → Double
  | .inch => 96
  | .cm => 96 / 2.54
  | .mm => 96 / 25.4
  | .q => 96 / 101.6
  | .point => 4 / 3
  | .pica => 16
  | .grad => 0.9
  | .rad => 180 / 3.141592653589793
  | .turn => 360
  | .ms => 0.001
  | .khz => 1000
  | .dpi => 1 / 96
  | .dpcm => 2.54 / 96
  | .px | .deg | .s | .hz | .dppx | .other _ => 1

end CssUnit

instance : Scale Double where
  one := 1
  worth := CssUnit.worth

variable {α : Type} [Scale α]

/-- How many `v` one `u` is, where the two measure the same. -/
def CssUnit.factorTo? (u v : CssUnit) : Option α :=
  if u = v then some 1
  else if u.isKnown ∧ u.dimension = v.dimension then some (Scale.worth u / Scale.worth v)
  else none

namespace Units

/-! ## Cancelling -/

/-- Cancels each numerator with the first identical denominator. -/
def cancelIdentical : List CssUnit → List CssUnit → Units
  | [], ds => ⟨[], ds⟩
  | n :: ns, ds =>
    if n ∈ ds then cancelIdentical ns (ds.erase n)
    else
      let rest := cancelIdentical ns ds
      ⟨n :: rest.numerators, rest.denominators⟩

/-- The first denominator that `n` converts to, with the factor, and the other denominators. -/
def takeConvertible? (n : CssUnit) : List CssUnit → Option (α × List CssUnit)
  | [] => none
  | d :: ds =>
    match n.factorTo? d with
    | some factor => some (factor, ds)
    | none => (takeConvertible? n ds).map fun (factor, rest) => (factor, d :: rest)

/-- Cancels each numerator with the first denominator it converts to, gathering the factors from
the left. -/
def cancelConvertible (factor : α) : List CssUnit → List CssUnit → α × Units
  | [], ds => (factor, ⟨[], ds⟩)
  | n :: ns, ds =>
    match takeConvertible? n ds with
    | some (f, rest) => cancelConvertible (factor * f) ns rest
    | none =>
      let (f, rest) := cancelConvertible factor ns ds
      (f, ⟨n :: rest.numerators, rest.denominators⟩)

/-- Cancels what stands on both sides. The factor belongs to the number that carries the units. -/
def reduce (u : Units) : α × Units :=
  let once := cancelIdentical u.numerators u.denominators
  cancelConvertible 1 once.numerators once.denominators

/-! ## Normal form -/

/-- Multiplies by the worth of the known units in a list, from the left. -/
def timesWorth (factor : α) (us : List CssUnit) : α :=
  us.foldl (fun f u => if u.isKnown then f * Scale.worth u else f) factor

/-- Divides by the worth of the known units in a list, from the left. -/
def overWorth (factor : α) (us : List CssUnit) : α :=
  us.foldl (fun f u => if u.isKnown then f / Scale.worth u else f) factor

/-- Puts a unit in front of the first one that does not come before it. -/
def insertOrdered (u : CssUnit) : List CssUnit → List CssUnit
  | [] => [u]
  | v :: vs => if u.ordered v then u :: v :: vs else v :: insertOrdered u vs

/-- A list of units in their fixed order. -/
def sorted (us : List CssUnit) : List CssUnit := us.foldr insertOrdered []

/-- The canonical units that measure the same, and the factor for the number that carries the
units. -/
def normalize (u : Units) : α × Units :=
  let worth : α := overWorth (timesWorth 1 u.numerators) u.denominators
  let (factor, rest) :=
    reduce (α := α) ⟨u.numerators.map CssUnit.canonical, u.denominators.map CssUnit.canonical⟩
  (worth * factor, ⟨sorted rest.numerators, sorted rest.denominators⟩)

/-- The normal form of the units. -/
def canonical (u : Units) : Units := (normalize (α := Double) u).2

/-- Whether two compound units measure the same. -/
def isCompatible (u v : Units) : Bool := u.canonical == v.canonical

/-- How many `v` one `u` is, where the two measure the same. -/
def factorTo? (u v : Units) : Option α :=
  let (uFactor, uUnits) := normalize (α := α) u
  let (vFactor, vUnits) := normalize (α := α) v
  if uUnits = vUnits then some (uFactor / vFactor) else none

end Units

end Stylesheet
