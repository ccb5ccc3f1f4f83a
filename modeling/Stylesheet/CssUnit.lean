/-!
# Units of measure

A unit has a name and a dimension. Units of one known dimension convert into each other and into
the dimension's canonical unit; every other unit (`em`, `%`, any identifier) is incommensurable
and converts only to itself.

**A name stands for one unit (`name_ofName`)**: reading a name and writing the unit gives the name
back.
-/

namespace Stylesheet

/-- What a unit measures. -/
inductive Dimension where
  | length
  | angle
  | time
  | frequency
  | resolution
  | incommensurable
  deriving DecidableEq, Inhabited

/-- A unit: one that has a fixed worth, or any other name. -/
inductive CssUnit where
  | inch
  | cm
  | pica
  | mm
  | point
  | px
  | q
  | deg
  | grad
  | rad
  | turn
  | s
  | ms
  | hz
  | khz
  | dpi
  | dpcm
  | dppx
  | other (name : String)
  deriving DecidableEq, Inhabited

/-- The unit in which a dimension is measured by default. -/
def Dimension.canonical? : Dimension → Option CssUnit
  | .length => some .px
  | .angle => some .deg
  | .time => some .s
  | .frequency => some .hz
  | .resolution => some .dppx
  | .incommensurable => none

namespace CssUnit

/-- The unit of a name. Upper and lower case differ. -/
def ofName (name : String) : CssUnit :=
  match name with
  | "in" => .inch
  | "cm" => .cm
  | "pc" => .pica
  | "mm" => .mm
  | "pt" => .point
  | "px" => .px
  | "q" => .q
  | "deg" => .deg
  | "grad" => .grad
  | "rad" => .rad
  | "turn" => .turn
  | "s" => .s
  | "ms" => .ms
  | "Hz" => .hz
  | "kHz" => .khz
  | "dpi" => .dpi
  | "dpcm" => .dpcm
  | "dppx" => .dppx
  | name => .other name

/-- The name of a unit. -/
def name : CssUnit → String
  | .inch => "in"
  | .cm => "cm"
  | .pica => "pc"
  | .mm => "mm"
  | .point => "pt"
  | .px => "px"
  | .q => "q"
  | .deg => "deg"
  | .grad => "grad"
  | .rad => "rad"
  | .turn => "turn"
  | .s => "s"
  | .ms => "ms"
  | .hz => "Hz"
  | .khz => "kHz"
  | .dpi => "dpi"
  | .dpcm => "dpcm"
  | .dppx => "dppx"
  | .other name => name

theorem name_ofName (text : String) : (ofName text).name = text := by
  unfold ofName
  split <;> rfl

/-- What the unit measures. -/
def dimension : CssUnit → Dimension
  | .inch | .cm | .pica | .mm | .point | .px | .q => .length
  | .deg | .grad | .rad | .turn => .angle
  | .s | .ms => .time
  | .hz | .khz => .frequency
  | .dpi | .dpcm | .dppx => .resolution
  | .other _ => .incommensurable

/-- The canonical unit of the same dimension, or the unit itself where there is none. -/
def canonical (u : CssUnit) : CssUnit := u.dimension.canonical?.getD u

/-- Whether the unit has a fixed worth. -/
def isKnown : CssUnit → Bool
  | .other _ => false
  | _ => true

/-! ## Order -/

/-- The place of a unit in the list of known units; other units come after all of them. -/
def rank : CssUnit → Nat
  | .inch => 0
  | .cm => 1
  | .pica => 2
  | .mm => 3
  | .point => 4
  | .px => 5
  | .q => 6
  | .deg => 7
  | .grad => 8
  | .rad => 9
  | .turn => 10
  | .s => 11
  | .ms => 12
  | .hz => 13
  | .khz => 14
  | .dpi => 15
  | .dpcm => 16
  | .dppx => 17
  | .other _ => 18

/-- The name of a unit without a fixed worth, and an empty text for the others. -/
def otherName : CssUnit → String
  | .other name => name
  | _ => ""

/-- The order that makes lists of units independent of the order they were written in: known units
by rank, then the others by name. -/
def order (a b : CssUnit) : Ordering :=
  (compare a.rank b.rank).then (compare a.otherName b.otherName)

/-- Whether `a` comes no later than `b`. -/
def ordered (a b : CssUnit) : Bool := (order a b).isLE

end CssUnit

end Stylesheet
