import Stylesheet.Double.Exact

/-!
# Comparison at output precision

Numbers that print alike are the same number. Before two numbers are compared or digested, each is
snapped to a grid of `1e-11` (`Double.snap`); a number whose neighbours are already further apart
than the grid keeps its word. A snapped number is never the negative zero, and every NaN snaps to
one word, so snapped numbers are compared bit for bit.

**Being near (`Double.near`) is an equivalence**, since it is equality of snapped words
(`near_refl`, `near_symm`, `near_trans`), and it holds of a NaN and itself.
-/

namespace Stylesheet.Double

/-- How many decimals count in a comparison, and are printed unless other is asked for. -/
def precision : Nat := 10

/-- The count of grid steps in one. -/
def gridSteps : Double := 1e11

/-- From here on the numbers are whole: a scaled number has no fraction left to round. -/
def wholeFrom : Double := 9007199254740992

/-- The grid point of a number. -/
def snap (x : Double) : Double :=
  if x.isNaN then nan
  else
    let scaled := x * gridSteps
    let snapped :=
      if scaled.isFinite && scaled.abs.lt wholeFrom then scaled.round / gridSteps else x
    if snapped.isZero then 0 else snapped

/-- Whether two numbers are equal at output precision. -/
def near (x y : Double) : Bool := decide (x.snap = y.snap)

/-- Whether a number is whole at output precision. -/
def nearWhole (x : Double) : Bool := near x x.round

theorem near_iff {x y : Double} : near x y = true ↔ x.snap = y.snap := by
  simp [near]

theorem near_refl (x : Double) : near x x = true := near_iff.2 rfl

theorem near_symm {x y : Double} (h : near x y = true) : near y x = true :=
  near_iff.2 (near_iff.1 h).symm

theorem near_trans {x y z : Double} (hxy : near x y = true) (hyz : near y z = true) :
    near x z = true :=
  near_iff.2 ((near_iff.1 hxy).trans (near_iff.1 hyz))

end Stylesheet.Double
