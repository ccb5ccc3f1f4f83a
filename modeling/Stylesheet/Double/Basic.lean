/-!
# Binary64 numbers

A number of a stylesheet is an IEEE 754 binary64 word. The word is the value: two zeros and every
NaN keep their bits, because the total order of numbers puts a NaN below or above everything else
by its sign.

* Comparisons, sign and classes are read off the word, as integers (`Double.key`).
* The four operations are those of the machine. They add only which NaN comes out: an operand that
  is NaN is handed on, the left one first, and an operation that has no result gives the negative
  quiet NaN.

**Every comparison that is not the total order is false at a NaN (`lt_eq_false_of_isNaN`, …)**,
and on all other words it is the order of the keys.
-/

namespace Stylesheet

/-- A binary64 word. -/
structure Double where
  bits : UInt64
  deriving DecidableEq, Inhabited

namespace Double

/-! ## Parts of the word -/

/-- The weight of the sign bit. -/
def signWeight : Nat := 0x8000000000000000

/-- The magnitude of infinity. A larger magnitude is a NaN. -/
def infMagnitude : Nat := 0x7ff0000000000000

/-- Whether the sign bit is set. -/
def isNegative (x : Double) : Bool := decide (signWeight ≤ x.bits.toNat)

/-- The word without its sign bit. -/
def magnitude (x : Double) : Nat := x.bits.toNat % signWeight

/-- Whether the word is not a number. -/
def isNaN (x : Double) : Bool := decide (infMagnitude < x.magnitude)

/-- Whether the word is one of the two infinities. -/
def isInfinite (x : Double) : Bool := x.magnitude == infMagnitude

/-- Whether the word is a number other than an infinity. -/
def isFinite (x : Double) : Bool := decide (x.magnitude < infMagnitude)

/-- A word of a sign and a magnitude. -/
def ofMagnitude (negative : Bool) (magnitude : Nat) : Double :=
  ⟨UInt64.ofNat (if negative then magnitude + signWeight else magnitude)⟩

/-- The number without its sign. -/
def abs (x : Double) : Double := ofMagnitude false x.magnitude

/-- The positive quiet NaN, which stands for every NaN where all count as one. -/
def nan : Double := ⟨0x7ff8000000000000⟩

/-- The negative quiet NaN, the result of an operation that has none. -/
def invalid : Double := ⟨0xfff8000000000000⟩

/-- Positive infinity. -/
def infinity : Double := ⟨0x7ff0000000000000⟩

/-- A NaN with its quiet bit set. -/
def quiet (x : Double) : Double := ⟨x.bits ||| 0x0008000000000000⟩

/-! ## Comparison -/

/-- A number's place among the numbers: the magnitude with its sign. Both zeros have place zero. -/
def key (x : Double) : Int :=
  if x.isNegative then -(x.magnitude : Int) else x.magnitude

/-- A word's place among all words: negative NaNs, numbers with the negative zero below the other,
positive NaNs. -/
def totalKey (x : Double) : Int :=
  if x.isNegative then -(x.magnitude : Int) - 1 else x.magnitude

/-- The order of all words. -/
def totalCompare (x y : Double) : Ordering := compare x.totalKey y.totalKey

/-- Whether neither of two words is a NaN. -/
def ordered (x y : Double) : Bool := !x.isNaN && !y.isNaN

/-- Whether `x` is less than `y`; false at a NaN. -/
def lt (x y : Double) : Bool := ordered x y && decide (x.key < y.key)

/-- Whether `x` is at most `y`; false at a NaN. -/
def le (x y : Double) : Bool := ordered x y && decide (x.key ≤ y.key)

/-- Whether two words are the same number; false at a NaN, and true of the two zeros. -/
def same (x y : Double) : Bool := ordered x y && decide (x.key = y.key)

/-- Whether the number is zero, of either sign. -/
def isZero (x : Double) : Bool := x.magnitude == 0

theorem lt_eq_false_of_isNaN {x y : Double} (h : x.isNaN = true ∨ y.isNaN = true) :
    lt x y = false := by
  rcases h with h | h <;> simp [lt, ordered, h]

theorem le_eq_false_of_isNaN {x y : Double} (h : x.isNaN = true ∨ y.isNaN = true) :
    le x y = false := by
  rcases h with h | h <;> simp [le, ordered, h]

theorem same_eq_false_of_isNaN {x y : Double} (h : x.isNaN = true ∨ y.isNaN = true) :
    same x y = false := by
  rcases h with h | h <;> simp [same, ordered, h]

/-! ## Arithmetic -/

/-- The machine's number of the same bits. -/
def toFloat (x : Double) : Float := Float.ofBits x.bits

/-- The word of a machine number that is the result of an operation on numbers. -/
def ofResult (x : Float) : Double :=
  let word : Double := ⟨x.toBits⟩
  if word.isNaN then invalid else word

/-- An operation of the machine, with the NaN that comes out of it. -/
def operate (f : Float → Float → Float) (x y : Double) : Double :=
  if x.isNaN then x.quiet
  else if y.isNaN then y.quiet
  else ofResult (f x.toFloat y.toFloat)

/-- The number of digits `m` with the decimal exponent `e`, rounded once to nearest. -/
def ofDecimal (m : Nat) (negativeExponent : Bool) (e : Nat) : Double :=
  ⟨(Float.ofScientific m negativeExponent e).toBits⟩

instance : OfScientific Double := ⟨ofDecimal⟩
instance (n : Nat) : OfNat Double n := ⟨ofDecimal n false 0⟩
instance : Add Double := ⟨operate (· + ·)⟩
instance : Sub Double := ⟨operate (· - ·)⟩
instance : Mul Double := ⟨operate (· * ·)⟩
instance : Div Double := ⟨operate (· / ·)⟩

end Double

end Stylesheet
