import Stylesheet.Grid

/-!
# Channels

The channels of a colour are numbers in a range. Their arithmetic is written once for every type
of scalars (`Channel`): the program computes with binary64 numbers, and the theory can take the
same definitions over an ordered field, where nothing is rounded.

**Clamping (`Channel.clamp`)** sends what is below the lower end, and a NaN, to the lower end.
**The larger and the smaller of two (`Channel.larger`, `Channel.smaller`)** is the right one where
the two are equal, which decides the sign of a zero.
**Wrapping (`Channel.wrap`)** takes the remainder and lifts a negative one by the modulus.
-/

namespace Stylesheet

/-- Scalars in which channels are computed. -/
class Channel (α : Type) extends Add α, Sub α, Mul α, Div α where
  ofNat : Nat → α
  lt : α → α → Bool
  le : α → α → Bool
  rem : α → α → α
  /-- Equality at output precision. -/
  near : α → α → Bool

instance : Channel Double where
  ofNat n := OfNat.ofNat n
  lt := Double.lt
  le := Double.le
  rem := Double.rem
  near := Double.near

namespace Channel

variable {α : Type} [Channel α]

/-- A fixed number. -/
def lit (n : Nat) : α := Channel.ofNat n

/-- Whether two scalars are the same number. -/
def same (x y : α) : Bool := le x y && le y x

/-- Whether a scalar is a number. One that is not a number compares with nothing, not even with
itself. -/
def isNumber (x : α) : Bool := le x x

/-- The larger of two scalars. Of two equal ones, such as zeros of either sign, it is the right one;
a scalar that is not a number gives way to the other. -/
def larger (x y : α) : α := if !isNumber x || le x y then y else x

/-- The smaller of two scalars. Of two equal ones, such as zeros of either sign, it is the right
one; a scalar that is not a number gives way to the other. -/
def smaller (x y : α) : α := if !isNumber x || le y x then y else x

/-- The number of `lo` to `hi` nearest to `x`, and `lo` where `x` is not a number. -/
def clamp (x lo hi : α) : α :=
  if !isNumber x || lt x lo then lo else if lt hi x then hi else x

/-- The remainder of `x`, lifted by the modulus where it is negative. -/
def wrap (x modulus : α) : α :=
  let r := rem x modulus
  if lt r (lit 0) then r + modulus else r

end Channel

end Stylesheet
