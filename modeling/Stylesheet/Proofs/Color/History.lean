import Stylesheet.Proofs.Digest.Bare
import Stylesheet.Proofs.Double.Remainder
import Stylesheet.Value.Render

/-!
# Derived forms through the history of a colour

**Theorem (`Color.Reached.transparent`).** A colour is made, copied, asked for either form,
compared, digested and changed in any order (`Color.Reached`). Whether a derived form or a digest is
kept with it cannot be seen: the form it answers with has the channels and the place of a form newly
derived, and it compares, digests and prints like the same colour without anything kept
(`Color.renewed`). Only the spelling of a derived form tells when it was kept: it is the colour's
own spelling of that moment.

The invariant (`Color.Sound`) compares the forms of a colour with those of the renewed one. Asking
keeps what would be answered anyway. A change of the spelling leaves channels and place alone, which
is why the derived form may stay; a change of the opacity drops it with the digest.

A form that is derived from its own model is clamped once more. Channels of a colour that was
reached are clamped already (`Color.Ranged`), except that a hue may round up to the full circle; so
the hue alone is asked to be in its range.
-/

namespace Stylesheet

/-! ## Clamping twice -/

/-- What was clamped stays, where both ends are numbers in order. -/
theorem Channel.clamp_clamp {α : Type} [Channel α] {lo hi : α} (hlo : isNumber lo = true)
    (hhi : isNumber hi = true) (hlolo : Channel.lt lo lo = false)
    (hhilo : Channel.lt hi lo = false) (hhihi : Channel.lt hi hi = false) (x : α) :
    clamp (clamp x lo hi) lo hi = clamp x lo hi := by
  by_cases hlow : (!isNumber x || Channel.lt x lo) = true
  · have hx : clamp x lo hi = lo := if_pos hlow
    rw [hx]
    simp [clamp, hlo, hlolo, hhilo]
  · by_cases hhigh : Channel.lt hi x = true
    · have hx : clamp x lo hi = hi := (if_neg hlow).trans (if_pos hhigh)
      rw [hx]
      simp [clamp, hhi, hhilo, hhihi]
    · have hx : clamp x lo hi = x := (if_neg hlow).trans (if_neg hhigh)
      rw [hx, hx]

theorem unitInterval_unitInterval (x : Double) : unitInterval (unitInterval x) = unitInterval x :=
  Channel.clamp_clamp (by decide) (by decide) (by decide) (by decide) (by decide) x

/-- Channels that clamping does not change. -/
structure Rgb.Ranged (c : Rgb Double) : Prop where
  r : byteRange c.r = c.r
  g : byteRange c.g = c.g
  b : byteRange c.b = c.b
  alpha : unitInterval c.alpha = c.alpha

/-- Channels that clamping does not change, with the exception of the hue. -/
structure Hsl.Ranged (c : Hsl Double) : Prop where
  s : unitInterval c.s = c.s
  l : unitInterval c.l = c.l
  alpha : unitInterval c.alpha = c.alpha

theorem Rgb.ranged_clamped (r g b alpha : Double) : (clamped r g b alpha).Ranged := by
  have hbyte : ∀ x : Double, byteRange (byteRange x) = byteRange x :=
    Channel.clamp_clamp (by decide) (by decide) (by decide) (by decide) (by decide)
  exact ⟨hbyte r, hbyte g, hbyte b, unitInterval_unitInterval alpha⟩

theorem Rgb.Ranged.clamped_eq {c : Rgb Double} (h : c.Ranged) :
    clamped c.r c.g c.b c.alpha = c := by
  rw [clamped, h.r, h.g, h.b, h.alpha]

theorem Hsl.ranged_clamped (h s l alpha : Double) : (clamped h s l alpha).Ranged :=
  ⟨unitInterval_unitInterval s, unitInterval_unitInterval l, unitInterval_unitInterval alpha⟩

theorem Hsl.ranged_toRgb (c : Hsl Double) : c.toRgb.Ranged := Rgb.ranged_clamped _ _ _ _

theorem Rgb.ranged_toHsl (c : Rgb Double) : c.toHsl.Ranged := by
  unfold toHsl
  dsimp only
  split <;> exact Hsl.ranged_clamped _ _ _ _

/-- A hue in its range is not changed either. -/
theorem Hsl.Ranged.clamped_eq {c : Hsl Double} (h : c.Ranged) (hle : Double.le 0 c.h = true)
    (hlt : Double.lt c.h 360 = true) : clamped c.h c.s c.l c.alpha = c := by
  have hhue : Channel.wrap c.h (Channel.lit 360) = c.h := Double.wrap_eq_self hle hlt
  rw [clamped, hhue, h.s, h.l, h.alpha]

namespace Color

/-! ## Histories -/

/-- The spelling of the derived form, if there is one. -/
def derivedSpelling? : Color → Option String
  | .rgb d => d.derived?.map Form.spelling
  | .hsl d => d.derived?.map Form.spelling

/-- The note on a derived form after red, green and blue were asked for: a colour that has to derive
them keeps them in its present spelling, unless it has kept them already. -/
def notedRgb (c : Color) (noted? : Option String) : Option String :=
  match c with
  | .rgb _ => noted?
  | .hsl _ => some (noted?.getD c.spelling)

/-- The note on a derived form after hue, saturation and lightness were asked for. -/
def notedHsl (c : Color) (noted? : Option String) : Option String :=
  match c with
  | .rgb _ => some (noted?.getD c.spelling)
  | .hsl _ => noted?

/-- Colours with their histories: what makes colours and what is done to them, in any order. Noted
is the spelling that a colour had when its derived form was kept, since its opacity was last
changed. -/
inductive Reached [Hasher] : Color → Option String → Prop where
  | ofRgb (span : Span) (r g b alpha : Double) : Reached (ofRgb span r g b alpha) none
  | ofHsl (span : Span) (h s l alpha : Double) : Reached (ofHsl span h s l alpha) none
  /-- A copy, with all that is kept. -/
  | clone {c : Color} {noted? : Option String} (cell : Nat) (h : Reached c noted?) :
      Reached (c.withCell cell) noted?
  /-- A new colour in the other model, or in the same. -/
  | toRgb {c : Color} {noted? : Option String} (h : Reached c noted?) : Reached c.toRgb none
  | toHsl {c : Color} {noted? : Option String} (h : Reached c noted?) : Reached c.toHsl none
  /-- The derived form as a colour of its own. -/
  | derivedRgb {d : Derivable (Hsl Double) (Rgb Double)} {noted? : Option String}
      (h : Reached (.hsl d) noted?) : Reached (.rgb { form := (hsl d).rgbForm }) none
  | derivedHsl {d : Derivable (Rgb Double) (Hsl Double)} {noted? : Option String}
      (h : Reached (.rgb d) noted?) : Reached (.hsl { form := (rgb d).hslForm }) none
  /-- Asked for red, green and blue, by a conversion, a comparison or a text. -/
  | rememberRgb {c : Color} {noted? : Option String} (h : Reached c noted?) :
      Reached c.rememberRgb (c.notedRgb noted?)
  | rememberHsl {c : Color} {noted? : Option String} (h : Reached c noted?) :
      Reached c.rememberHsl (c.notedHsl noted?)
  /-- Digested. A digest that is carried is read without asking for the form it was taken of. -/
  | digested {c : Color} {noted? : Option String} (h : Reached c noted?) :
      Reached c.digested (if c.memo.isSome then noted? else c.notedRgb noted?)
  | setAlpha {c : Color} {noted? : Option String} (alpha : Double) (h : Reached c noted?) :
      Reached (c.setAlpha alpha) none
  | setSpelling {c : Color} {noted? : Option String} (spelling : String) (h : Reached c noted?) :
      Reached (c.setSpelling spelling) noted?

/-! ## The invariant -/

/-- Channels that were clamped. -/
def Ranged : Color → Prop
  | .rgb d => d.form.channels.Ranged
  | .hsl d => d.form.channels.Ranged

/-- Whether red, green and blue are there and need not be derived. -/
def hasRgb : Color → Bool
  | .rgb _ => true
  | .hsl d => d.derived?.isSome

/-- The forms of a colour have the channels of the renewed one's and its own place. The derived form
has the noted spelling. A digest is that of the present channels, and with it the form it was taken
of is kept. -/
structure Sound [Hasher] (c : Color) (noted? : Option String) : Prop where
  rgb : c.rgbForm.channels = c.renewed.rgbForm.channels ∧ c.rgbForm.span = c.span
  hsl : c.hslForm.channels = c.renewed.hslForm.channels ∧ c.hslForm.span = c.span
  noted : c.derivedSpelling? = noted?
  memo : ∀ word ∈ c.memo, word = Hasher.digest c.renewed.words
  kept : c.memo.isSome = true → c.hasRgb = true
  ranged : c.Ranged

namespace Sound

variable [Hasher] {c : Color} {noted? : Option String}

/-- A colour with nothing kept. -/
theorem renewed (h : c.Ranged) : Sound c.renewed none := by
  cases c <;> exact ⟨⟨rfl, rfl⟩, ⟨rfl, rfl⟩, rfl, nofun, nofun, h⟩

omit [Hasher] in
theorem ranged_toRgb (c : Color) : c.toRgb.Ranged := by
  cases c with
  | rgb d => exact Rgb.ranged_clamped _ _ _ _
  | hsl d => exact d.form.channels.ranged_toRgb

omit [Hasher] in
theorem ranged_toHsl (c : Color) : c.toHsl.Ranged := by
  cases c with
  | rgb d => exact d.form.channels.ranged_toHsl
  | hsl d => exact Hsl.ranged_clamped _ _ _ _

theorem derivedRgb {d : Derivable (Hsl Double) (Rgb Double)} (h : Sound (.hsl d) noted?) :
    Sound (.rgb { form := (Color.hsl d).rgbForm }) none := by
  refine renewed (c := .rgb { form := (Color.hsl d).rgbForm }) ?_
  show (Color.hsl d).rgbForm.channels.Ranged
  rw [h.rgb.1]
  exact d.form.channels.ranged_toRgb

theorem derivedHsl {d : Derivable (Rgb Double) (Hsl Double)} (h : Sound (.rgb d) noted?) :
    Sound (.hsl { form := (Color.rgb d).hslForm }) none := by
  refine renewed (c := .hsl { form := (Color.rgb d).hslForm }) ?_
  show (Color.rgb d).hslForm.channels.Ranged
  rw [h.hsl.1]
  exact d.form.channels.ranged_toHsl

theorem clone (cell : Nat) (h : Sound c noted?) : Sound (c.withCell cell) noted? := by
  cases c <;> exact ⟨h.rgb, h.hsl, h.noted, h.memo, h.kept, h.ranged⟩

theorem setAlpha (alpha : Double) (h : Sound c noted?) : Sound (c.setAlpha alpha) none := by
  have hranged : (c.setAlpha alpha).Ranged := by
    have hr := h.ranged
    cases c with
    | rgb d => exact ⟨hr.r, hr.g, hr.b, unitInterval_unitInterval alpha⟩
    | hsl d => exact ⟨hr.s, hr.l, unitInterval_unitInterval alpha⟩
  have hnew : (c.setAlpha alpha).renewed = c.setAlpha alpha := by cases c <;> rfl
  exact hnew ▸ renewed hranged

theorem setSpelling (spelling : String) (h : Sound c noted?) :
    Sound (c.setSpelling spelling) noted? := by
  -- A form that is not derived yet would be derived in the new spelling, with the same channels.
  cases c with
  | rgb d =>
    obtain ⟨form, derived?, cell, memo⟩ := d
    cases derived? <;> exact ⟨h.rgb, h.hsl, h.noted, h.memo, h.kept, h.ranged⟩
  | hsl d =>
    obtain ⟨form, derived?, cell, memo⟩ := d
    cases derived? <;> exact ⟨h.rgb, h.hsl, h.noted, h.memo, h.kept, h.ranged⟩

/-- A form that is kept has the noted spelling, and one that is not the present one. -/
theorem spelling_rgbForm {d : Derivable (Hsl Double) (Rgb Double)} (h : Sound (.hsl d) noted?) :
    (Color.hsl d).rgbForm.spelling = noted?.getD (Color.hsl d).spelling := by
  rw [← h.noted]
  obtain ⟨form, derived?, cell, memo⟩ := d
  cases derived? <;> rfl

theorem spelling_hslForm {d : Derivable (Rgb Double) (Hsl Double)} (h : Sound (.rgb d) noted?) :
    (Color.rgb d).hslForm.spelling = noted?.getD (Color.rgb d).spelling := by
  rw [← h.noted]
  obtain ⟨form, derived?, cell, memo⟩ := d
  cases derived? <;> rfl

theorem rememberRgb (h : Sound c noted?) : Sound c.rememberRgb (c.notedRgb noted?) := by
  cases c with
  | rgb d => exact h
  | hsl d => exact ⟨h.rgb, h.hsl, congrArg some h.spelling_rgbForm, h.memo, fun _ => rfl, h.ranged⟩

theorem rememberHsl (h : Sound c noted?) : Sound c.rememberHsl (c.notedHsl noted?) := by
  cases c with
  | rgb d => exact ⟨h.rgb, h.hsl, congrArg some h.spelling_hslForm, h.memo, fun _ => rfl, h.ranged⟩
  | hsl d => exact h

theorem digest_renewed (c : Color) : c.renewed.digest = Hasher.digest c.renewed.words := by
  have hmemo : c.renewed.memo = none := by cases c <;> rfl
  rw [digest, hmemo, Memo.read_none]

/-- **A carried digest is the one that the renewed colour has.** -/
theorem digest_eq (h : Sound c noted?) : c.digest = c.renewed.digest := by
  have hwords : c.words = c.renewed.words := congrArg rgbWords h.rgb.1
  rw [digest_renewed, digest, hwords]
  cases hmemo : c.memo with
  | none => exact Memo.read_none _
  | some word => exact h.memo word hmemo

theorem notedRgb_eq (h : Sound c noted?) (hrgb : c.hasRgb = true) : c.notedRgb noted? = noted? := by
  cases c with
  | rgb d => rfl
  | hsl d =>
    obtain ⟨form, hform⟩ := Option.isSome_iff_exists.1 hrgb
    have hnoted : d.derived?.map Form.spelling = noted? := h.noted
    rw [← hnoted, hform]
    rfl

theorem digested (h : Sound c noted?) :
    Sound c.digested (if c.memo.isSome then noted? else c.notedRgb noted?) := by
  have hnoted : (if c.memo.isSome then noted? else c.notedRgb noted?) = c.notedRgb noted? := by
    split
    · next hmemo => exact (h.notedRgb_eq (h.kept hmemo)).symm
    · rfl
  have hword : ∀ word ∈ some c.digest, word = Hasher.digest c.renewed.words := fun word hword => by
    rw [← Option.some.inj hword, h.digest_eq, digest_renewed]
  have hasked := h.rememberRgb
  rw [hnoted]
  cases c with
  | rgb d => exact ⟨hasked.rgb, hasked.hsl, hasked.noted, hword, fun _ => rfl, hasked.ranged⟩
  | hsl d => exact ⟨hasked.rgb, hasked.hsl, hasked.noted, hword, fun _ => rfl, hasked.ranged⟩

end Sound

/-- Every history keeps the invariant. -/
theorem Reached.sound [Hasher] {c : Color} {noted? : Option String} (h : Reached c noted?) :
    c.Sound noted? := by
  induction h with
  | ofRgb span r g b alpha =>
    exact Sound.renewed (c := Color.ofRgb span r g b alpha) (Rgb.ranged_clamped r g b alpha)
  | ofHsl span h s l alpha =>
    exact Sound.renewed (c := Color.ofHsl span h s l alpha) (Hsl.ranged_clamped h s l alpha)
  | clone cell _ ih => exact ih.clone cell
  | @toRgb c _ _ _ => exact Sound.renewed (c := c.toRgb) (Sound.ranged_toRgb c)
  | @toHsl c _ _ _ => exact Sound.renewed (c := c.toHsl) (Sound.ranged_toHsl c)
  | derivedRgb _ ih => exact ih.derivedRgb
  | derivedHsl _ ih => exact ih.derivedHsl
  | rememberRgb _ ih => exact ih.rememberRgb
  | rememberHsl _ ih => exact ih.rememberHsl
  | digested _ ih => exact ih.digested
  | setAlpha alpha _ ih => exact ih.setAlpha alpha
  | setSpelling spelling _ ih => exact ih.setSpelling spelling

/-! ## Transparency -/

/-- A hue in its range, if the colour has one. -/
def HueInRange : Color → Prop
  | .rgb _ => True
  | .hsl d => Double.le 0 d.form.channels.h = true ∧ Double.lt d.form.channels.h 360 = true

/-- **What is kept with a colour is never seen**, save in the spelling of a derived form, which is
the one that the colour had when the form was kept. -/
theorem Reached.transparent [Hasher] {c : Color} {noted? : Option String}
    (h : Reached c noted?) :
    (c.rgbForm.channels = c.freshRgb.channels ∧ c.rgbForm.span = c.freshRgb.span) ∧
      ((c.HueInRange → c.hslForm.channels = c.freshHsl.channels) ∧
        c.hslForm.span = c.freshHsl.span) ∧
      c.derivedSpelling? = noted? ∧
      (∀ d, c.beq d = c.renewed.beq d ∧ d.beq c = d.beq c.renewed) ∧
      c.digest = c.renewed.digest ∧
      (∀ f, (Value.color c).cssWith f = (Value.color c.renewed).cssWith f) ∧
      c.alpha = c.renewed.alpha := by
  have hsound := h.sound
  refine ⟨?rgb, ?hsl, hsound.noted, fun d => ?beq, hsound.digest_eq, fun f => ?css, ?alpha⟩
  case rgb =>
    rw [hsound.rgb.1, hsound.rgb.2]
    cases c with
    | rgb d => exact ⟨(Rgb.Ranged.clamped_eq hsound.ranged).symm, rfl⟩
    | hsl d => exact ⟨rfl, rfl⟩
  case hsl =>
    rw [hsound.hsl.1, hsound.hsl.2]
    cases c with
    | rgb d => exact ⟨fun _ => rfl, rfl⟩
    | hsl d => exact ⟨fun hhue => (Hsl.Ranged.clamped_eq hsound.ranged hhue.1 hhue.2).symm, rfl⟩
  case beq => exact ⟨by rw [beq, beq, hsound.rgb.1], by rw [beq, beq, hsound.rgb.1]⟩
  case css =>
    have hspelling : c.renewed.spelling = c.spelling := by cases c <;> rfl
    show c.css f = c.renewed.css f
    rw [css, css, hspelling, hsound.rgb.1]
  case alpha => cases c <;> rfl

/-- A colour of hue, saturation and lightness that was spelled, digested, and spelled again. -/
def respelled : Color :=
  (((ofHsl .nowhere 210 0.5 0.4 1).setSpelling "steel").digested).setSpelling "slate"

theorem reached_respelled : Reached respelled (some "steel") :=
  .setSpelling "slate" (.digested (.setSpelling "steel" (.ofHsl .nowhere 210 0.5 0.4 1)))

/-- The form that the digest was taken of is kept in the first spelling, and nothing else tells. -/
theorem Reached.transparent_respelled :
    Reached respelled (some "steel") ∧ respelled.HueInRange ∧
      respelled.spelling = "slate" ∧ respelled.derivedSpelling? = some "steel" ∧
      respelled.rgbForm.channels = respelled.freshRgb.channels ∧
      respelled.hslForm.channels = respelled.freshHsl.channels ∧
      respelled.digest = respelled.renewed.digest := by
  have hhue : respelled.HueInRange := by
    constructor <;> decide +kernel
  obtain ⟨hrgb, hhsl, hnoted, -, hdigest, -⟩ := reached_respelled.transparent
  exact ⟨reached_respelled, hhue, rfl, hnoted, hrgb.1, hhsl.1 hhue, hdigest⟩

end Color

end Stylesheet
