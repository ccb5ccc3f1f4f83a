import Stylesheet.Double.Basic

/-!
# Exact operations on binary64 numbers

A finite number is an integer times a power of two, so operations whose result is again such a
number can be carried out on the integers, without rounding: the remainder of a division, and the
nearest whole number.

**Remainder (`Double.rem`)** has the sign of its left operand and is smaller than the right one.
**Rounding (`Double.round`)** takes a half away from zero.
-/

namespace Stylesheet.Double

/-! ## Integers times powers of two -/

/-- The magnitude of a finite number as `significand * 2 ^ exponent`. -/
structure Dyadic where
  significand : Nat
  exponent : Int
  deriving DecidableEq

/-- The least exponent of a number. -/
def minExponent : Int := -1074

/-- The fields of a finite magnitude. -/
def dyadic (x : Double) : Dyadic :=
  let fraction := x.magnitude % Nat.pow 2 52
  let field := x.magnitude / Nat.pow 2 52
  if field = 0 then ⟨fraction, minExponent⟩
  else ⟨fraction + Nat.pow 2 52, minExponent + (field - 1 : Nat)⟩

/-- A natural number times a power of two with a natural exponent, or divided by one. -/
def shift (n : Nat) (e : Int) : Nat :=
  if 0 ≤ e then n * Nat.pow 2 e.toNat else n / Nat.pow 2 (-e).toNat

/-- The number of a sign and a magnitude `significand * 2 ^ exponent` that has an exact word. -/
def ofDyadic (negative : Bool) (d : Dyadic) : Double :=
  if d.significand = 0 then ofMagnitude negative 0
  else
    let exponent := max minExponent (d.exponent + Nat.log2 d.significand - 52)
    let fraction := shift d.significand (d.exponent - exponent)
    ofMagnitude negative (fraction + (exponent - minExponent).toNat * Nat.pow 2 52)

/-! ## Remainder -/

/-- The remainder of two finite magnitudes, on the grid of the finer one. -/
def remDyadic (x y : Dyadic) : Dyadic :=
  let exponent := min x.exponent y.exponent
  ⟨shift x.significand (x.exponent - exponent) % shift y.significand (y.exponent - exponent),
    exponent⟩

/-- The remainder of a division that is rounded toward zero. An infinite left operand and a zero
right operand have none. -/
def rem (x y : Double) : Double :=
  if x.isNaN then x.quiet
  else if y.isNaN then y.quiet
  else if x.isInfinite || y.isZero then invalid
  else if y.isInfinite then x
  else ofDyadic x.isNegative (remDyadic x.dyadic y.dyadic)

instance : Mod Double := ⟨rem⟩

/-! ## Whole numbers -/

/-- The nearest natural number, a half counting up. -/
def roundDyadic (d : Dyadic) : Nat :=
  if 0 ≤ d.exponent then shift d.significand d.exponent
  else shift (d.significand + Nat.pow 2 ((-d.exponent).toNat - 1)) d.exponent

/-- The nearest whole number, a half going away from zero. The sign is kept, also at zero. -/
def round (x : Double) : Double :=
  if x.isFinite then ofDyadic x.isNegative ⟨roundDyadic x.dyadic, 0⟩ else x

/-- Whether the number is whole. -/
def isWhole (x : Double) : Bool :=
  x.isFinite &&
    let d := x.dyadic
    d.significand % Nat.pow 2 (-d.exponent).toNat == 0

/-- The magnitude of a finite number without its fraction. -/
def truncNat (x : Double) : Nat :=
  let d := x.dyadic
  shift d.significand d.exponent

end Stylesheet.Double
