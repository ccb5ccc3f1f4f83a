import Stylesheet.Proofs.Operation.Failure
import Stylesheet.Proofs.Color.History

/-!
# Channels in their ranges

**Theorem (`Color.Arises.bounded`).** Whatever numbers colours are made of, and whatever is done to
them and computed with them, the channels they hold are numbers in their ranges: red, green and blue
from 0 to 255, saturation, lightness and opacity from 0 to 1 (`Color.Bounded`).

There is one way into a channel, and it clamps: what clamping gives is a number between the ends,
also where a NaN or an infinity went in (`Double.within_clamp`). So nothing has to be known of the
arithmetic in front of it. What has to be shown is that there is no other way: a change of the
opacity replaces one channel of a form and keeps the others, a derived form that is kept comes from
a conversion, and an operator that gives a colour gives a new one or one of its operands
(`Operand.color_of_apply`).
-/

namespace Stylesheet

/-! ## One channel -/

namespace Double

/-- A number that is not below `lo` and not above `hi`. -/
structure Within (x lo hi : Double) : Prop where
  number : x.isNaN = false
  low : x.lt lo = false
  high : hi.lt x = false

theorem isNumber_eq (x : Double) : Channel.isNumber x = !x.isNaN := by
  show x.le x = _
  simp [le, ordered]

theorem lt_eq_false_of_key_le {x y : Double} (h : y.key ≤ x.key) : x.lt y = false := by
  simp [lt, h]

/-- What is clamped lies between the ends, and is a number where the ends are numbers in order. -/
theorem within_clamp (x lo hi : Double) (hlo : lo.isNaN = false) (hhi : hi.isNaN = false)
    (h : lo.key ≤ hi.key) : (Channel.clamp x lo hi).Within lo hi := by
  by_cases hlow : (!Channel.isNumber x || Channel.lt x lo) = true
  · have hclamp : Channel.clamp x lo hi = lo := if_pos hlow
    rw [hclamp]
    exact ⟨hlo, lt_eq_false_of_key_le le_rfl, lt_eq_false_of_key_le h⟩
  · by_cases hhigh : Channel.lt hi x = true
    · have hclamp : Channel.clamp x lo hi = hi := (if_neg hlow).trans (if_pos hhigh)
      rw [hclamp]
      exact ⟨hhi, lt_eq_false_of_key_le h, lt_eq_false_of_key_le le_rfl⟩
    · have hclamp : Channel.clamp x lo hi = x := (if_neg hlow).trans (if_neg hhigh)
      obtain ⟨hnumber, hlow⟩ := Bool.or_eq_false_iff.1 (Bool.eq_false_iff.2 hlow)
      rw [isNumber_eq, Bool.not_not] at hnumber
      rw [hclamp]
      exact ⟨hnumber, hlow, Bool.eq_false_iff.2 hhigh⟩

end Double

theorem Rgb.within_byteRange (x : Double) : (byteRange x).Within 0 255 :=
  Double.within_clamp x 0 255 (by decide) (by decide) (by decide)

theorem within_unitInterval (x : Double) : (unitInterval x).Within 0 1 :=
  Double.within_clamp x 0 1 (by decide) (by decide) (by decide)

/-! ## Forms -/

/-- Red, green and blue from 0 to 255, and an opacity from 0 to 1. -/
structure Rgb.Bounded (c : Rgb Double) : Prop where
  r : c.r.Within 0 255
  g : c.g.Within 0 255
  b : c.b.Within 0 255
  alpha : c.alpha.Within 0 1

/-- Saturation, lightness and opacity from 0 to 1. Nothing is said of the hue. -/
structure Hsl.Bounded (c : Hsl Double) : Prop where
  s : c.s.Within 0 1
  l : c.l.Within 0 1
  alpha : c.alpha.Within 0 1

theorem Rgb.bounded_clamped (r g b alpha : Double) : (clamped r g b alpha).Bounded :=
  ⟨within_byteRange r, within_byteRange g, within_byteRange b, within_unitInterval alpha⟩

theorem Hsl.bounded_clamped (h s l alpha : Double) : (clamped h s l alpha).Bounded :=
  ⟨within_unitInterval s, within_unitInterval l, within_unitInterval alpha⟩

theorem Hsl.bounded_toRgb (c : Hsl Double) : c.toRgb.Bounded := Rgb.bounded_clamped _ _ _ _

theorem Rgb.bounded_toHsl (c : Rgb Double) : c.toHsl.Bounded := by
  unfold toHsl
  dsimp only
  split <;> exact Hsl.bounded_clamped _ _ _ _

namespace Color

/-! ## Colours -/

/-- Both forms of a colour are in range: its own, and the other one, kept or still to be derived. -/
structure Bounded (c : Color) : Prop where
  rgb : c.rgbForm.channels.Bounded
  hsl : c.hslForm.channels.Bounded

namespace Bounded

variable {c : Color}

theorem ofRgb {form : Form (Rgb Double)} (h : form.channels.Bounded) : Bounded (.rgb { form }) :=
  ⟨h, form.channels.bounded_toHsl⟩

theorem ofHsl {form : Form (Hsl Double)} (h : form.channels.Bounded) : Bounded (.hsl { form }) :=
  ⟨form.channels.bounded_toRgb, h⟩

theorem toRgb (c : Color) : c.toRgb.Bounded := by
  cases c with
  | rgb d => exact ofRgb (Rgb.bounded_clamped _ _ _ _)
  | hsl d => exact ofRgb d.form.channels.bounded_toRgb

theorem toHsl (c : Color) : c.toHsl.Bounded := by
  cases c with
  | rgb d => exact ofHsl d.form.channels.bounded_toHsl
  | hsl d => exact ofHsl (Hsl.bounded_clamped _ _ _ _)

theorem setAlpha (alpha : Double) (h : c.Bounded) : (c.setAlpha alpha).Bounded := by
  cases c with
  | rgb d => exact ofRgb { h.rgb with alpha := within_unitInterval alpha }
  | hsl d => exact ofHsl { h.hsl with alpha := within_unitInterval alpha }

theorem setSpelling (spelling : String) (h : c.Bounded) : (c.setSpelling spelling).Bounded := by
  -- A form that is not kept is derived anew from the same channels.
  cases c with
  | rgb d =>
    obtain ⟨form, derived?, cell, memo⟩ := d
    cases derived? <;> exact ⟨h.rgb, h.hsl⟩
  | hsl d =>
    obtain ⟨form, derived?, cell, memo⟩ := d
    cases derived? <;> exact ⟨h.rgb, h.hsl⟩

end Bounded

/-- What is done to one colour. -/
inductive Change [Hasher] : Color → Color → Prop where
  /-- A copy, with all that is kept. -/
  | clone (cell : Nat) (c : Color) : Change c (c.withCell cell)
  /-- A new colour in one of the models. -/
  | toRgb (c : Color) : Change c c.toRgb
  | toHsl (c : Color) : Change c c.toHsl
  /-- One of the two forms as a colour of its own. -/
  | rgbForm (c : Color) : Change c (.rgb { form := c.rgbForm })
  | hslForm (c : Color) : Change c (.hsl { form := c.hslForm })
  /-- Asked for a form, by a comparison, a text or an operator, or digested. -/
  | rememberRgb (c : Color) : Change c c.rememberRgb
  | rememberHsl (c : Color) : Change c c.rememberHsl
  | digested (c : Color) : Change c c.digested
  | setAlpha (alpha : Double) (c : Color) : Change c (c.setAlpha alpha)
  | setSpelling (spelling : String) (c : Color) : Change c (c.setSpelling spelling)

/-- **A change keeps channels in range.** -/
theorem Bounded.change [Hasher] {c d : Color} (h : c.Bounded) (hd : Change c d) : d.Bounded := by
  cases hd with
  | clone cell =>
    cases c <;> exact ⟨h.rgb, h.hsl⟩
  | toRgb => exact .toRgb c
  | toHsl => exact .toHsl c
  | rgbForm => exact .ofRgb h.rgb
  | hslForm => exact .ofHsl h.hsl
  | rememberRgb => cases c <;> exact ⟨h.rgb, h.hsl⟩
  | rememberHsl => cases c <;> exact ⟨h.rgb, h.hsl⟩
  | digested => cases c <;> exact ⟨h.rgb, h.hsl⟩
  | setAlpha alpha => exact h.setAlpha alpha
  | setSpelling spelling => exact h.setSpelling spelling

end Color

/-! ## Operators -/

/-- Arithmetic that gives a colour gives a new one. -/
theorem Arithmetic.color_of_apply [Hasher] {op : Arithmetic} {operand : Operand}
    {left right : Value} {span : Span} {c : Color}
    (h : op.apply operand left right span = .ok (.color c)) :
    ∃ r g b alpha, c = .ofRgb span r g b alpha := by
  have hnew : ∀ {x y : Rgb Double} {alpha : Double}, op.onChannels x y alpha span = .color c →
      ∃ r g b alpha, c = .ofRgb span r g b alpha := fun hc =>
    ⟨_, _, _, _, (Value.color.inj hc).symm⟩
  cases hcomputes : op.computesOn left.kind right.kind with
  | true =>
    rcases operands_of_computesOn hcomputes with ⟨a, b, rfl, rfl⟩ | ⟨a, b, rfl, rfl⟩ |
      ⟨d, n, rfl, rfl⟩ | ⟨n, d, rfl, rfl, hop⟩
    · rw [apply, onNumbers] at h
      split at h <;> cases h
    · rw [apply, onColors?] at h
      split_ifs at h
      exact hnew (Except.ok.inj h)
    · rw [apply, onColorNumber?] at h
      split_ifs at h
      exact hnew (Except.ok.inj h)
    · rw [apply, if_pos hop] at h
      exact hnew (Except.ok.inj h)
  | false =>
    rw [apply_of_not_computesOn hcomputes, onOthers] at h
    split_ifs at h
    cases op <;> cases h

namespace Operand

variable [Hasher] {operand : Operand} {left right : Value} {span : Span} {c : Color}

/-- `and` and `or` give an operand, and comparisons give truth values. -/
theorem color_of_applyBare (hop : operand.op.isLogical = true ∨ operand.op.isComparison = true)
    (h : operand.applyBare left right span = .ok (.color c)) :
    left = .color c ∨ right = .color c := by
  have hbool : ∀ {x : Except EvalError Bool} {f : Bool → Bool},
      x.map (fun b => Value.bool (f b) span) ≠ .ok (.color c) := by
    intro x f
    cases x <;> simp [Except.map]
  unfold applyBare at h
  cases hoperator : operand.op <;> simp only [hoperator] at h hop
  case and | or =>
    have h := Except.ok.inj h
    split_ifs at h
    · exact .inl h
    · exact .inr h
  case add | sub | mul | div | mod => rcases hop with hop | hop <;> cases hop
  all_goals exact (hbool h).elim

/-- An operator that gives a colour gives a new one or one of its operands. -/
theorem color_of_apply (h : operand.apply left right span = .ok (.color c)) :
    left = .color c ∨ right = .color c ∨ ∃ r g b alpha, c = .ofRgb span r g b alpha := by
  have hbare : operand.applyBare left right span = .ok (.color c) := by
    rw [apply] at h
    cases hbare : operand.applyBare left right span with
    | ok v => rwa [hbare] at h
    | error e => rw [hbare] at h; cases h
  rcases operand.op.logical_or_comparison_or_arithmetic with hop | hop | ⟨op, hop⟩
  · exact (color_of_applyBare (.inl hop) hbare).imp_right .inl
  · exact (color_of_applyBare (.inr hop) hbare).imp_right .inl
  · rw [applyBare_of_arithmetic hop] at hbare
    exact .inr (.inr (Arithmetic.color_of_apply hbare))

end Operand

/-! ## Runs -/

namespace Color

/-- Colours that can arise: what makes them, what is done to one of them, and what operators compute
with them and with any other values. -/
inductive Arises [Hasher] : Color → Prop where
  | ofRgb (span : Span) (r g b alpha : Double) : Arises (ofRgb span r g b alpha)
  | ofHsl (span : Span) (h s l alpha : Double) : Arises (ofHsl span h s l alpha)
  | change {c d : Color} (h : Arises c) (hd : Change c d) : Arises d
  | computed {operand : Operand} {left right : Value} {span : Span} {c : Color}
      (hleft : ∀ a, left = .color a → Arises a) (hright : ∀ b, right = .color b → Arises b)
      (h : operand.apply left right span = .ok (.color c)) : Arises c

/-- **The channels of a colour are in range**, whatever it was made of and however. -/
theorem Arises.bounded [Hasher] {c : Color} (h : Arises c) : c.Bounded := by
  induction h with
  | ofRgb span r g b alpha => exact .ofRgb (Rgb.bounded_clamped r g b alpha)
  | ofHsl span h s l alpha => exact .ofHsl (Hsl.bounded_clamped h s l alpha)
  | change _ hd ih => exact ih.change hd
  | computed _ _ h hleft hright =>
    rcases Operand.color_of_apply h with h | h | ⟨r, g, b, alpha, rfl⟩
    · exact hleft _ h
    · exact hright _ h
    · exact .ofRgb (Rgb.bounded_clamped r g b alpha)

/-- A colour made of words that are no numbers, whose opacity was changed to one. -/
def numberless : Color := (Color.ofHsl .nowhere .nan .invalid .nan .infinity).setAlpha .invalid

theorem arises_numberless : Arises numberless :=
  .change (.ofHsl .nowhere .nan .invalid .nan .infinity) (.setAlpha .invalid _)

/-- Infinity times such a colour is in range as well. -/
theorem Arises.bounded_infiniteProduct : ∃ c : Color,
    (⟨.mul, true, true⟩ : Operand).apply (.number (.plain .nowhere .infinity)) (.color numberless)
        .nowhere = .ok (.color c) ∧ Arises c ∧ c.Bounded := by
  have harises : ∀ c, (⟨.mul, true, true⟩ : Operand).apply (.number (.plain .nowhere .infinity))
      (.color numberless) .nowhere = .ok (.color c) → Arises c := fun c h =>
    .computed (fun a ha => by cases ha) (fun b hb => Value.color.inj hb ▸ arises_numberless) h
  exact ⟨_, rfl, harises _ rfl, (harises _ rfl).bounded⟩

end Color

end Stylesheet
