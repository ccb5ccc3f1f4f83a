import Stylesheet.Color.Convert
import Stylesheet.Digest
import Stylesheet.Span

/-!
# Colours

A colour keeps the model it was written in and the spelling it was written with. The other model
is derived when it is first asked for and kept with the colour, together with the spelling of that
moment. Changing the opacity drops spelling and derived form; changing the spelling keeps the
derived form as it is.

**What is kept is what was derived (`rgbForm_rememberRgb`)**: keeping a derived form changes no
later answer. Colours are compared and digested as red, green and blue.
-/

namespace Stylesheet

/-- The channels of a colour with its spelling and its place. -/
structure Form (χ : Type) where
  channels : χ
  /-- How the colour was written; empty where it was computed. -/
  spelling : String := ""
  span : Span
  deriving DecidableEq

/-- A form as it was made, and the other form once it has been derived. -/
structure Derivable (own other : Type) where
  form : Form own
  derived? : Option (Form other) := none
  /-- Which holders share what is derived; 0 for a colour no one shares yet. -/
  cell : Nat := 0
  memo : Memo := none

/-- A colour in the model it was written in. -/
inductive Color where
  | rgb (c : Derivable (Rgb Double) (Hsl Double))
  | hsl (c : Derivable (Hsl Double) (Rgb Double))

namespace Color

/-! ## Making -/

/-- A colour of red, green and blue. -/
def ofRgb (span : Span) (r g b alpha : Double) : Color :=
  .rgb { form := { channels := .clamped r g b alpha, span } }

/-- A colour of hue, saturation and lightness. -/
def ofHsl (span : Span) (h s l alpha : Double) : Color :=
  .hsl { form := { channels := .clamped h s l alpha, span } }

/-! ## Parts -/

/-- The opacity. -/
def alpha : Color → Double
  | .rgb c => c.form.channels.alpha
  | .hsl c => c.form.channels.alpha

/-- How the colour was written; empty where it was computed. -/
def spelling : Color → String
  | .rgb c => c.form.spelling
  | .hsl c => c.form.spelling

/-- Where the colour was written. -/
def span : Color → Span
  | .rgb c => c.form.span
  | .hsl c => c.form.span

/-- The cell whose holders share what is derived. -/
def cell : Color → Nat
  | .rgb c => c.cell
  | .hsl c => c.cell

/-- The colour in a cell. -/
def withCell (cell : Nat) : Color → Color
  | .rgb c => .rgb { c with cell }
  | .hsl c => .hsl { c with cell }

/-! ## Forms -/

/-- A new form of red, green and blue. -/
def freshRgb : Color → Form (Rgb Double)
  | .rgb c =>
    let ⟨r, g, b, alpha⟩ := c.form.channels
    { c.form with channels := .clamped r g b alpha }
  | .hsl c => { c.form with channels := c.form.channels.toRgb }

/-- A new form of hue, saturation and lightness. -/
def freshHsl : Color → Form (Hsl Double)
  | .rgb c => { c.form with channels := c.form.channels.toHsl }
  | .hsl c =>
    let ⟨h, s, l, alpha⟩ := c.form.channels
    { c.form with channels := .clamped h s l alpha }

/-- The form of red, green and blue: the colour's own, the one that was kept, or a new one. -/
def rgbForm (c : Color) : Form (Rgb Double) :=
  match c with
  | .rgb d => d.form
  | .hsl d => d.derived?.getD c.freshRgb

/-- The form of hue, saturation and lightness: the colour's own, the one that was kept, or a new
one. -/
def hslForm (c : Color) : Form (Hsl Double) :=
  match c with
  | .rgb d => d.derived?.getD c.freshHsl
  | .hsl d => d.form

/-- The colour, keeping its form of red, green and blue. -/
def rememberRgb (c : Color) : Color :=
  match c with
  | .rgb _ => c
  | .hsl d => .hsl { d with derived? := some c.rgbForm }

/-- The colour, keeping its form of hue, saturation and lightness. -/
def rememberHsl (c : Color) : Color :=
  match c with
  | .rgb d => .rgb { d with derived? := some c.hslForm }
  | .hsl _ => c

theorem rgbForm_rememberRgb (c : Color) : c.rememberRgb.rgbForm = c.rgbForm := by
  cases c <;> rfl

theorem hslForm_rememberHsl (c : Color) : c.rememberHsl.hslForm = c.hslForm := by
  cases c <;> rfl

/-- A new colour in red, green and blue. -/
def toRgb (c : Color) : Color := .rgb { form := c.freshRgb }

/-- A new colour in hue, saturation and lightness. -/
def toHsl (c : Color) : Color := .hsl { form := c.freshHsl }

/-! ## Changes -/

/-- The colour with another opacity. Spelling, derived form and digest are dropped. -/
def setAlpha (alpha : Double) : Color → Color
  | .rgb c =>
    .rgb { form := { c.form with
      channels := { c.form.channels with alpha := unitInterval alpha }, spelling := "" } }
  | .hsl c =>
    .hsl { form := { c.form with
      channels := { c.form.channels with alpha := unitInterval alpha }, spelling := "" } }

/-- The colour with another spelling, which no other holder shares. -/
def setSpelling (spelling : String) : Color → Color
  | .rgb c => .rgb { c with form := { c.form with spelling }, cell := 0 }
  | .hsl c => .hsl { c with form := { c.form with spelling }, cell := 0 }

/-! ## Comparison -/

/-- Whether two colours are the same colour, whatever their models. -/
def beq (a b : Color) : Bool := a.rgbForm.channels.near b.rgbForm.channels

/-- The channels of red, green and blue at output precision, as words. -/
def rgbWords (c : Rgb Double) : List Word :=
  [c.r, c.g, c.b, c.alpha].map fun x => .bits x.snap.bits

/-- What the digest of a colour depends on. -/
def words (c : Color) : List Word := rgbWords c.rgbForm.channels

/-- The digest that the colour carries. -/
def memo : Color → Memo
  | .rgb c => c.memo
  | .hsl c => c.memo

/-- The digest of a colour. -/
def digest [Hasher] (c : Color) : UInt64 := c.memo.read c.words

/-- The colour carrying its digest, and with it the form the digest is taken of. -/
def digested [Hasher] (c : Color) : Color :=
  match c.rememberRgb with
  | .rgb d => .rgb { d with memo := some c.digest }
  | .hsl d => .hsl { d with memo := some c.digest }

/-! ## Printed channels -/

/-- Red, green and blue as they are printed. -/
def roundedChannels (c : Rgb Double) : List Nat :=
  [c.r, c.g, c.b].map fun x => min 255 x.round.truncNat

/-- Whether a channel has two equal hexadecimal digits. -/
def isHexDoublet (x : Double) : Bool :=
  Double.le 0 x && x.le 255 && x.isWhole && x.truncNat % 17 == 0

/-- Whether three channels have two equal hexadecimal digits each. -/
def isDoublet (r g b : Double) : Bool := isHexDoublet r && isHexDoublet g && isHexDoublet b

/-- Whether the colour can be written with three hexadecimal digits. -/
def isShort (c : Rgb Double) : Bool := isDoublet c.r.round c.g.round c.b.round

end Color

end Stylesheet
