import Stylesheet.CssUnit
import Stylesheet.Text.Fields

/-!
# Compound units

The units of a number are two ordered lists, as in `px*em/s`: units that multiply and units that
divide. Equality is that of the lists. Lists that describe the same dimension in different words
are told apart here and identified by conversion.

**Reading (`Units.ofText`)** takes everything after the first slash as divisors and skips empty
names. **Writing (`Units.text`)** puts stars between units and one slash before the divisors.
-/

namespace Stylesheet

/-- Units that multiply and units that divide. -/
structure Units where
  numerators : List CssUnit
  denominators : List CssUnit
  deriving DecidableEq, Inhabited

namespace Units

/-- No units at all. -/
def unitless : Units := ⟨[], []⟩

/-- Exactly one multiplying unit. -/
def single (u : CssUnit) : Units := ⟨[u], []⟩

/-- Whether a character separates unit names. -/
def separates (c : Char) : Bool := c == '*' || c == '/'

/-- The units named in one side of the text. -/
def named (cs : List Char) : List CssUnit :=
  (Text.fields separates cs).map fun name => .ofName (String.ofList name)

/-- Reads units such as `px*em/s`. -/
def ofText (text : String) : Units :=
  let cs := text.toList
  ⟨named (cs.takeWhile (· != '/')), named ((cs.dropWhile (· != '/')).drop 1)⟩

/-- Whether there are no units. -/
def isUnitless (u : Units) : Bool := u.numerators.isEmpty && u.denominators.isEmpty

/-- Whether the units are the one multiplying unit `unit`. -/
def isSingle (u : Units) (unit : CssUnit) : Bool := u == single unit

/-- Whether plain CSS can write the units. -/
def isCss (u : Units) : Bool := decide (u.numerators.length ≤ 1) && u.denominators.isEmpty

/-- The names of a list of units with stars between them. -/
def starred (us : List CssUnit) : String := "*".intercalate (us.map CssUnit.name)

/-- Writes units; no units are written as an empty text. -/
def text (u : Units) : String :=
  starred u.numerators ++ (if u.denominators.isEmpty then "" else "/") ++ starred u.denominators

/-- The units of a product. -/
def mul (u v : Units) : Units :=
  ⟨u.numerators ++ v.numerators, u.denominators ++ v.denominators⟩

/-- The units of a quotient. -/
def div (u v : Units) : Units :=
  ⟨u.numerators ++ v.denominators, u.denominators ++ v.numerators⟩

instance : Mul Units := ⟨mul⟩
instance : Div Units := ⟨div⟩

end Units

end Stylesheet
