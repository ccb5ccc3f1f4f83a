import Stylesheet.Double.Exact

/-!
# Decimal text of a number

Numbers are printed with a bounded count of decimals. The exact value of the word is rounded to
that many places, a half going to the even neighbour (`fixed`); then the text is cut to the
shortest of the same value (`Double.decimalText`): no zeros at the end of a fraction, no point
without digits, no minus before a zero, and on request no zero before the point.

**Rounding (`roundDiv_spec`)** is to within half a unit.
-/

namespace Stylesheet

/-! ## Rounding a quotient -/

/-- The natural number nearest to `n / d`, the even one of two equally near. -/
def roundDiv (n d : Nat) : Nat :=
  let q := n / d
  let twice := 2 * (n % d)
  if twice < d then q
  else if d < twice then q + 1
  else if q % 2 = 0 then q
  else q + 1

/-- The rounded quotient is within half a unit of the exact one. -/
theorem roundDiv_spec (n d : Nat) (h : 0 < d) :
    2 * n ≤ 2 * d * roundDiv n d + d ∧ 2 * d * roundDiv n d ≤ 2 * n + d := by
  have hmod := Nat.mod_lt n h
  have hdiv := Nat.div_add_mod n d
  generalize hq : n / d = q at hdiv
  generalize hr : n % d = r at hdiv hmod
  have expand : 2 * d * (q + 1) = 2 * (d * q) + 2 * d := by
    rw [Nat.mul_add, Nat.mul_one, Nat.mul_assoc]
  have expand' : 2 * d * q = 2 * (d * q) := Nat.mul_assoc 2 d q
  simp only [roundDiv, hq, hr]
  split
  · omega
  · split
    · omega
    · split <;> omega

/-! ## Fixed places -/

/-- The decimal digits of a number, with zeros in front up to the given width. -/
def padDigits (width n : Nat) : List Char :=
  let digits := Nat.toDigits 10 n
  List.replicate (width - digits.length) '0' ++ digits

namespace Double

/-- A finite magnitude in units of `10 ^ -places`, rounded to nearest. -/
def scaled (d : Dyadic) (places : Nat) : Nat :=
  roundDiv (d.significand * Nat.pow 10 places * Nat.pow 2 d.exponent.toNat)
    (Nat.pow 2 (-d.exponent).toNat)

/-- A finite number with exactly `places` decimals. The minus of a negative number stays where the
digits are all zero. -/
def fixed (x : Double) (places : Nat) : List Char :=
  let units := scaled x.dyadic places
  let whole := Nat.toDigits 10 (units / Nat.pow 10 places)
  let fraction := if places = 0 then [] else '.' :: padDigits places (units % Nat.pow 10 places)
  (if x.isNegative then ['-'] else []) ++ whole ++ fraction

/-! ## The shortest text of the same value -/

/-- The text without the characters `c` at its end. -/
def dropTrailing (c : Char) (text : List Char) : List Char :=
  (text.reverse.dropWhile (· == c)).reverse

/-- A decimal text without zeros at the end of its fraction, and without a point that ends it. -/
def trimFraction (text : List Char) : List Char :=
  if '.' ∈ text then dropTrailing '.' (dropTrailing '0' text) else text

/-- Zero has no sign. -/
def unsignZero (text : List Char) : List Char :=
  if text = ['-', '0'] then ['0'] else text

/-- A fraction without the zero before its point. -/
def dropLeadingZero : List Char → List Char
  | '0' :: '.' :: fraction => '.' :: fraction
  | '-' :: '0' :: '.' :: fraction => '-' :: '.' :: fraction
  | text => text

/-- The text of a number with at most `places` decimals. -/
def decimalText (x : Double) (places : Nat) (leadingZero : Bool) : String :=
  if x.isNaN then "NaN"
  else if x.isInfinite then if x.isNegative then "-Infinity" else "Infinity"
  else
    let text := unsignZero (trimFraction (x.fixed places))
    String.ofList (if leadingZero then text else dropLeadingZero text)

end Double

end Stylesheet
