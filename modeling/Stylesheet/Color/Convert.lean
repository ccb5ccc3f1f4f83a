import Stylesheet.Channel

/-!
# Colour models

A colour is given by red, green and blue, or by hue, saturation and lightness; both models carry
an opacity. Red, green and blue run from 0 to 255, the hue from 0 to 360, the others from 0 to 1.
Colours made by `Rgb.clamped` and `Hsl.clamped` keep to these ranges.

**Conversion (`Rgb.toHsl`, `Hsl.toRgb`)** is written for every type of scalars. Where the largest
and the smallest of red, green and blue are equal at output precision the colour is a shade of
grey, with hue and saturation zero.
-/

namespace Stylesheet

open Channel

/-- Red, green, blue and opacity. -/
structure Rgb (α : Type) where
  r : α
  g : α
  b : α
  alpha : α
  deriving DecidableEq

/-- Hue, saturation, lightness and opacity. -/
structure Hsl (α : Type) where
  h : α
  s : α
  l : α
  alpha : α
  deriving DecidableEq

variable {α : Type} [Channel α]

/-- A scalar from 0 to 1. -/
def unitInterval (x : α) : α := clamp x (lit 0) (lit 1)

namespace Rgb

/-- A scalar from 0 to 255. -/
def byteRange (x : α) : α := clamp x (lit 0) (lit 255)

/-- The colour of four scalars, each brought into its range. -/
def clamped (r g b alpha : α) : Rgb α :=
  ⟨byteRange r, byteRange g, byteRange b, unitInterval alpha⟩

/-- Whether two colours are equal at output precision. -/
def near (x y : Rgb α) : Bool :=
  Channel.near x.r y.r && Channel.near x.g y.g && Channel.near x.b y.b &&
    Channel.near x.alpha y.alpha

end Rgb

namespace Hsl

/-- The colour of four scalars: the hue goes round the circle, the others are brought into their
range. -/
def clamped (h s l alpha : α) : Hsl α :=
  ⟨wrap h (lit 360), unitInterval s, unitInterval l, unitInterval alpha⟩

end Hsl

/-! ## From red, green and blue -/

/-- The hue in sixths of the circle, given the largest channel and its distance from the
smallest. -/
def sextant (r g b max delta : α) : α :=
  if same r max then (g - b) / delta + if lt g b then lit 6 else lit 0
  else if same g max then (b - r) / delta + lit 2
  else (r - g) / delta + lit 4

/-- The saturation of a colour that is not grey. -/
def saturation (max min l : α) : α :=
  if lt l (lit 1 / lit 2) then (max - min) / (max + min) else (max - min) / (lit 2 - max - min)

/-- The hue, saturation and lightness of a colour. -/
def Rgb.toHsl (c : Rgb α) : Hsl α :=
  let r := c.r / lit 255
  let g := c.g / lit 255
  let b := c.b / lit 255
  let max := larger (larger r g) b
  let min := smaller (smaller r g) b
  let l := (max + min) / lit 2
  if Channel.near max min then .clamped (lit 0 * lit 60) (lit 0) l c.alpha
  else .clamped (sextant r g b max (max - min) * lit 60) (saturation max min l) l c.alpha

/-! ## To red, green and blue -/

/-- One of the three primaries at a position of the circle, a turn counting one, between the
levels `m1` and `m2`. -/
def primary (m1 m2 position : α) : α :=
  let h := wrap position (lit 1)
  if lt (h * lit 6) (lit 1) then m1 + (m2 - m1) * h * lit 6
  else if lt (h * lit 2) (lit 1) then m2
  else if lt (h * lit 3) (lit 2) then m1 + (m2 - m1) * (lit 2 / lit 3 - h) * lit 6
  else m1

/-- The red, green and blue of a colour. -/
def Hsl.toRgb (c : Hsl α) : Rgb α :=
  let h := c.h / lit 360
  let m2 := if le c.l (lit 1 / lit 2) then c.l * (c.s + lit 1) else (c.l + c.s) - c.l * c.s
  let m1 := c.l * lit 2 - m2
  .clamped (primary m1 m2 (h + lit 1 / lit 3) * lit 255) (primary m1 m2 h * lit 255)
    (primary m1 m2 (h - lit 1 / lit 3) * lit 255) c.alpha

end Stylesheet
