import Stylesheet.Proofs.Digest.Keeping
import Stylesheet.Proofs.Digest.Words

/-!
# Digests through the history of a node

**Theorem (`Made.digest_eq_renewed_iff`).** A node is made, changed, marked and digested in any
order (`Made`), with any values for its parts. Its digest is that of a node newly built of the same
parts, with one exception. `ListOf.withBracketed` is meant for the end of making a list and keeps a
digest that was taken before. A list changed by it is digested right if it carries no digest, or has
the brackets it had when the digest was taken, and otherwise it is not, unless the hash takes no
notice of the brackets.

The invariant (`Made.Sound`) is that the node is settled, or is a list that would be settled in its
former brackets. Every change keeps it: a change of the content drops the digest of the node, and a
change of a mark keeps both. For the exception, the words of the list differ in one place, and a
hash that notices one changed word (`Hasher.Discerning`) gives another digest.
-/

namespace Stylesheet

open Value

section Histories

variable [Hasher]

/-- Nodes with their histories: constructors and changes, in any order. A list that was put into
brackets after it was digested is noted with the brackets it had then, until a change of its
content drops the digest. Nothing but lists is ever noted. -/
inductive Made : Value → Option Bool → Prop where
  /-- A new node, of any parts. -/
  | fresh {v : Value} (new : v.renewed = v) : Made v none
  | digested {v : Value} {taken? : Option Bool} (h : Made v taken?) : Made v.digested taken?
  | setDelayed {v : Value} {taken? : Option Bool} (on : Bool) (h : Made v taken?) :
      Made (v.setDelayed on) taken?
  | trimEnd {v : Value} {taken? : Option Bool} (h : Made v taken?) : Made v.trimEnd taken?
  | numberQuantity {n : Number} (q : Quantity Double) (h : Made (.number n) none) :
      Made (.number (n.withQuantity q)) none
  | numberZero {n : Number} (on : Bool) (h : Made (.number n) none) :
      Made (.number (n.setLeadingZero on)) none
  | numberDelayed {n : Number} (on : Bool) (h : Made (.number n) none) :
      Made (.number (n.setDelayed on)) none
  | colorAlpha {c : Color} (alpha : Double) (h : Made (.color c) none) :
      Made (.color (c.setAlpha alpha)) none
  | colorSpelling {c : Color} (spelling : String) (h : Made (.color c) none) :
      Made (.color (c.setSpelling spelling)) none
  | colorRgb {c : Color} (h : Made (.color c) none) : Made (.color c.rememberRgb) none
  | colorHsl {c : Color} (h : Made (.color c) none) : Made (.color c.rememberHsl) none
  | stringQuote {s : StringValue} (mark? : Option Char) (h : Made (.string s) none) :
      Made (.string (s.setQuote mark?)) none
  | stringCompressible {s : StringValue} (on : Bool) (h : Made (.string s) none) :
      Made (.string (s.setCompressible on)) none
  | stringTrim {s : StringValue} (h : Made (.string s) none) : Made (.string s.trimEnd) none
  | templateQuote {t : Template Value} (mark : Char) (h : Made (.template t) none) :
      Made (.template (t.withQuote mark)) none
  | templatePush {t : Template Value} (piece : Fragment Value) (h : Made (.template t) none) :
      Made (.template (t.push piece)) none
  | templateDelayed {t : Template Value} (on : Bool) (h : Made (.template t) none) :
      Made (.template (t.setDelayed on)) none
  | templateTrim {t : Template Value} (h : Made (.template t) none) :
      Made (.template t.trimEnd) none
  | mapInsert {m : MapOf Value} (key v : Value) (h : Made (.map m) none) :
      Made (.map (m.insert key v)) none
  | mapExpanded {m : MapOf Value} (on : Bool) (h : Made (.map m) none) :
      Made (.map (m.setExpanded on)) none
  | callVia {c : Call Value} (on : Bool) (h : Made (.call c) none) :
      Made (.call (c.withViaCall on)) none
  | operationInterpolant {e : Operation Value} (on : Bool) (h : Made (.operation e) none) :
      Made (.operation (e.withInterpolant on)) none
  | operationDelayed {e : Operation Value} (on : Bool) (h : Made (.operation e) none) :
      Made (.operation (e.setDelayed on)) none
  | listItems {l : ListOf Value} {taken? : Option Bool} (f : List Value → List Value)
      (h : Made (.list l) taken?) : Made (.list (l.modifyItems f)) none
  | listSeparator {l : ListOf Value} {taken? : Option Bool} (separator : Separator)
      (h : Made (.list l) taken?) : Made (.list (l.setSeparator separator)) none
  | listBracketed {l : ListOf Value} {taken? : Option Bool} (on : Bool)
      (h : Made (.list l) taken?) : Made (.list (l.setBracketed on)) none
  | listExpanded {l : ListOf Value} {taken? : Option Bool} (on : Bool)
      (h : Made (.list l) taken?) : Made (.list (l.setExpanded on)) taken?
  | listDelayed {l : ListOf Value} {taken? : Option Bool} (on : Bool)
      (h : Made (.list l) taken?) : Made (.list (l.setDelayed on)) taken?
  /-- Brackets at the end of making a list, before any digest. -/
  | listBrackets {l : ListOf Value} {taken? : Option Bool} (on : Bool)
      (h : Made (.list l) taken?) (hmemo : l.memo = none) :
      Made (.list (l.withBracketed on)) none
  /-- Brackets after a digest. -/
  | listLateBrackets {l : ListOf Value} {taken? : Option Bool} (on : Bool)
      (h : Made (.list l) taken?) (hmemo : l.memo.isSome = true) :
      Made (.list (l.withBracketed on)) (some (taken?.getD l.bracketed))

namespace Value.Settled

variable {v : Value}

/-! ## One change -/

/-- A new node is settled. -/
theorem fresh (new : v.renewed = v) : v.Settled := by
  have hnode : v.node.renewed = v.node := by rw [← node_renewed, new]
  refine drop ?_ ?_
  · rw [← hnode, Node.memo_renewed]
  · cases v with
    | color c => exact congrArg Color.words (Node.color.inj hnode).symm
    | _ => trivial

theorem color_keep {c c' : Color} (h : (color c).Settled) (hmemo : c'.memo = c.memo)
    (hwords : c'.words = c.words) (hrenewed : c'.renewed.words = c.renewed.words) :
    (color c').Settled := by
  have hfaithful : c'.words = c'.renewed.words := by
    rw [hwords, hrenewed]
    exact h.2
  exact h.keep hmemo (congrArg Hasher.digest hwords) hfaithful

theorem setAlpha (alpha : Double) (c : Color) : (color (c.setAlpha alpha)).Settled := by
  cases c <;> exact drop rfl rfl

theorem setSpelling {c : Color} (spelling : String) (h : (color c).Settled) :
    (color (c.setSpelling spelling)).Settled := by
  cases c with
  | rgb d => exact h.color_keep rfl rfl rfl
  | hsl d =>
    -- A form derived before keeps its old spelling, which no digest looks at.
    obtain ⟨form, derived?, cell, memo⟩ := d
    cases derived? <;> exact h.color_keep rfl rfl rfl

theorem rememberRgb {c : Color} (h : (color c).Settled) : (color c.rememberRgb).Settled := by
  cases c <;> exact h.color_keep rfl rfl rfl

theorem rememberHsl {c : Color} (h : (color c).Settled) : (color c.rememberHsl).Settled := by
  cases c <;> exact h.color_keep rfl rfl rfl

end Value.Settled

/-! ## Histories -/

namespace Made

/-- A node with no note is settled; a list with a note carries a digest and would be settled in the
brackets of the note. -/
def Sound (v : Value) : Option Bool → Prop
  | none => v.Settled
  | some taken => ∃ l, v = .list l ∧ l.memo.isSome = true ∧ (list (l.withBracketed taken)).Settled

/-- A list is given marks that no digest looks at. -/
theorem Sound.mark {l k : ListOf Value} {taken? : Option Bool} (h : Sound (.list l) taken?)
    (hmemo : k.memo = l.memo)
    (hwords : ∀ on, (k.withBracketed on).wordsBy digest = (l.withBracketed on).wordsBy digest)
    (hbracketed : k.bracketed = l.bracketed) : Sound (.list k) taken? := by
  have hsame : ∀ on, (list (l.withBracketed on)).Settled → (list (k.withBracketed on)).Settled :=
    fun on hl => hl.keep hmemo (congrArg Hasher.digest (hwords on)) trivial
  cases taken? with
  | none =>
    have hk := hsame l.bracketed h
    rwa [← hbracketed] at hk
  | some taken =>
    obtain ⟨l', hl', hcarried, hl⟩ := h
    cases hl'
    exact ⟨k, rfl, by rw [hmemo, hcarried], hsame taken hl⟩

/-- A list that carries a digest gets other brackets. -/
theorem Sound.lateBrackets {l : ListOf Value} {taken? : Option Bool} (on : Bool)
    (h : Sound (.list l) taken?) (hmemo : l.memo.isSome = true) :
    Sound (.list (l.withBracketed on)) (some (taken?.getD l.bracketed)) := by
  cases taken? with
  | none => exact ⟨l.withBracketed on, rfl, hmemo, h⟩
  | some taken =>
    obtain ⟨l', hl', -, hl⟩ := h
    cases hl'
    exact ⟨l.withBracketed on, rfl, hmemo, hl⟩

theorem Sound.digested {v : Value} {taken? : Option Bool} (h : Sound v taken?) :
    Sound v.digested taken? := by
  cases taken? with
  | none => exact v.digested_keeps.2 h
  | some taken =>
    -- The list carries a digest already, so none is taken.
    obtain ⟨l, rfl, hcarried, hl⟩ := h
    rw [Value.digested, if_pos hcarried]
    exact ⟨l, rfl, hcarried, hl⟩

theorem Sound.setDelayed {v : Value} {taken? : Option Bool} (on : Bool) (h : Sound v taken?) :
    Sound (v.setDelayed on) taken? := by
  cases taken? with
  | none => exact (v.setDelayed_keeps on).2 h
  | some taken =>
    have hlist := h
    obtain ⟨l, rfl, -, -⟩ := hlist
    exact h.mark rfl (fun _ => rfl) rfl

theorem Sound.trimEnd {v : Value} {taken? : Option Bool} (h : Sound v taken?) :
    Sound v.trimEnd taken? := by
  cases taken? with
  | none => exact Settled.trimEnd h
  | some taken =>
    obtain ⟨l, rfl, hcarried, hl⟩ := h
    exact ⟨l, rfl, hcarried, hl⟩

/-- Every history keeps the invariant. -/
theorem sound {v : Value} {taken? : Option Bool} (h : Made v taken?) : Sound v taken? := by
  -- One case for each change: it drops the digest, keeps it with the content, or moves the note.
  induction h with
  | fresh new => exact Settled.fresh new
  | digested _ ih => exact ih.digested
  | setDelayed on _ ih => exact ih.setDelayed on
  | trimEnd _ ih => exact ih.trimEnd
  | numberQuantity q _ ih => exact Settled.drop rfl trivial
  | numberZero on _ ih => exact Settled.keep ih rfl rfl trivial
  | numberDelayed on _ ih => exact Settled.keep ih rfl rfl trivial
  | colorAlpha alpha _ ih => exact Settled.setAlpha alpha _
  | colorSpelling spelling _ ih => exact Settled.setSpelling spelling ih
  | colorRgb _ ih => exact Settled.rememberRgb ih
  | colorHsl _ ih => exact Settled.rememberHsl ih
  | stringQuote mark? _ ih => exact Settled.keep ih rfl rfl trivial
  | stringCompressible on _ ih => exact Settled.keep ih rfl rfl trivial
  | stringTrim _ ih => exact Settled.trimEnd_string ih
  | templateQuote mark _ ih => exact Settled.keep ih rfl rfl trivial
  | templatePush piece _ ih => exact Settled.drop rfl trivial
  | templateDelayed on _ ih =>
    exact (setDelayed_template_keeps on fun x _ => (x.setDelayed_keeps on).1).2 ih
  | templateTrim _ ih => exact Settled.trimEnd_template ih
  | mapInsert key v _ ih => exact Settled.drop rfl trivial
  | mapExpanded on _ ih => exact Settled.keep ih rfl rfl trivial
  | callVia on _ ih => exact Settled.keep ih rfl rfl trivial
  | operationInterpolant on _ ih => exact Settled.keep ih rfl rfl trivial
  | operationDelayed on _ ih =>
    exact (setDelayed_operation_keeps on fun x _ => (x.setDelayed_keeps on).1).2 ih
  | listItems f _ ih => exact Settled.drop rfl trivial
  | listSeparator separator _ ih => exact Settled.drop rfl trivial
  | listBracketed on _ ih => exact Settled.drop rfl trivial
  | listExpanded on _ ih => exact ih.mark rfl (fun _ => rfl) rfl
  | listDelayed on _ ih => exact ih.mark rfl (fun _ => rfl) rfl
  | listBrackets on _ hmemo ih => exact Settled.drop hmemo trivial
  | listLateBrackets on _ hmemo ih => exact ih.lateBrackets on hmemo

/-- The derived form of a colour is right in every history. -/
theorem faithful {v : Value} {taken? : Option Bool} (h : Made v taken?) : v.node.Faithful := by
  have hsound := h.sound
  cases taken? with
  | none => exact hsound.2
  | some taken =>
    obtain ⟨l, rfl, -, -⟩ := hsound
    trivial

end Made

/-! ## Brackets after a digest -/

theorem Value.tagged_inj (hash : Hasher.Discerning) {kind : Kind} {x y : UInt64}
    (h : tagged kind x = tagged kind y) : x = y :=
  hash.bits [.count kind.rank] [] x y h

/-- The digest of a list depends on its brackets. -/
theorem ListOf.eq_of_wordsBy_withBracketed (hash : Hasher.Discerning) {l : ListOf Value}
    {on on' : Bool} {d : Value → UInt64}
    (h : Hasher.digest ((l.withBracketed on).wordsBy d) =
      Hasher.digest ((l.withBracketed on').wordsBy d)) : on = on' :=
  hash.flag [l.separator.word] _ on on' h

/-- A carried digest that was right in other brackets is right only in these. -/
theorem Value.Settled.eq_of_digest_withBracketed (hash : Hasher.Discerning) {l : ListOf Value}
    {taken : Bool} (h : (list (l.withBracketed taken)).Settled) (hcarried : l.memo.isSome = true)
    (heq : (list l).digest = (list l).renewed.digest) : taken = l.bracketed := by
  -- The digest read is the old one, and the words it was taken from differ in the brackets.
  obtain ⟨word, hmemo⟩ := Option.isSome_iff_exists.1 hcarried
  have hword : word = Hasher.digest ((l.withBracketed taken).wordsBy digest) := h.1 word hmemo
  have hread : (list l).digest = tagged .list word := by
    rw [Value.digest_eq, Node.digestBy]
    show tagged .list (l.memo.getD _) = _
    rw [hmemo, Option.getD_some]
  rw [hread, digest_renewed (v := list l) trivial, hword] at heq
  exact ListOf.eq_of_wordsBy_withBracketed hash (tagged_inj hash heq)

/-! ## The exact condition -/

/-- Whether there are brackets, if the value is a list. -/
def Value.brackets? : Value → Option Bool
  | .list l => some l.bracketed
  | _ => none

/-- **A node of any history is digested like a newly built one** of the same parts, if it is no
list that was put into brackets after its digest, or has the brackets of its digest. A discerning
hash gives every other list another digest. Where the parts answer like newly built ones, so does
the new node. -/
theorem Made.digest_eq_renewed_iff {v : Value} {taken? : Option Bool} (h : Made v taken?) :
    (taken? = none ∨ taken? = v.brackets? → v.digest = v.renewed.digest) ∧
      (Hasher.Discerning →
        (v.digest = v.renewed.digest ↔ taken? = none ∨ taken? = v.brackets?)) ∧
      ((∀ x ∈ v.parts, x.digest = x.bare.digest) → v.renewed.digest = v.bare.digest) := by
  have hsound := h.sound
  have hright : taken? = none ∨ taken? = v.brackets? → v.digest = v.renewed.digest := by
    rintro (rfl | rfl)
    · exact Settled.digest_eq hsound
    · cases hbrackets : v.brackets? with
      | none =>
        rw [hbrackets] at hsound
        exact Settled.digest_eq hsound
      | some taken =>
        rw [hbrackets] at hsound
        obtain ⟨l, rfl, -, hl⟩ := hsound
        obtain rfl : l.bracketed = taken := Option.some.inj hbrackets
        exact Settled.digest_eq (v := list l) hl
  refine ⟨hright, fun hash => ⟨fun heq => ?_, hright⟩, digest_renewed_eq_bare h.faithful⟩
  cases taken? with
  | none => exact .inl rfl
  | some taken =>
    obtain ⟨l, rfl, hcarried, hl⟩ := hsound
    exact .inr (congrArg some (hl.eq_of_digest_withBracketed hash hcarried heq))

end Histories

/-- The list of one null. -/
def nullList : ListOf Value where
  items := [.null .nowhere]
  span := .nowhere

section NullList

variable [Hasher]

/-- The list of one null, carrying its digest. -/
def nullListDigested : ListOf Value := { nullList with memo := some nullList.digest }

theorem made_nullListDigested : Made (.list nullListDigested) none :=
  .digested (.fresh (v := .list nullList) rfl)

/-- Brackets after the digest: a history with a note. -/
theorem made_nullListDigested_bracketed :
    Made (.list (nullListDigested.withBracketed true)) (some false) :=
  .listLateBrackets true made_nullListDigested rfl

/-- The list that was put into brackets after its digest is not digested like the list in brackets,
which it equals. -/
theorem digest_nullListDigested_bracketed_ne (hash : Hasher.Discerning) :
    (Value.list (nullListDigested.withBracketed true)).digest ≠
      (Value.list (nullList.withBracketed true)).digest := by
  intro h
  obtain ⟨l, hl, hcarried, hsettled⟩ := made_nullListDigested_bracketed.sound
  obtain rfl := Value.list.inj hl
  exact absurd (hsettled.eq_of_digest_withBracketed hash hcarried h) Bool.false_ne_true

end NullList

/-- The list is digested right, and not any more when brackets are put around it. -/
theorem Made.digest_eq_renewed_nullList :
    Hasher.Discerning ∧ Made (.list nullListDigested) none ∧
      Made (.list (nullListDigested.withBracketed true)) (some false) ∧
      (Value.list nullListDigested).digest = (Value.list nullListDigested).renewed.digest ∧
      (Value.list (nullListDigested.withBracketed true)).digest ≠
        (Value.list (nullListDigested.withBracketed true)).renewed.digest := by
  refine ⟨Hasher.discerning_folding, made_nullListDigested, made_nullListDigested_bracketed,
    (digest_eq_renewed_iff made_nullListDigested).1 (.inl rfl), fun h => ?_⟩
  obtain ⟨-, hiff, -⟩ := digest_eq_renewed_iff made_nullListDigested_bracketed
  rcases (hiff Hasher.discerning_folding).1 h with hnone | hsome
  · cases hnone
  · cases hsome

/-- **Some history leaves an old digest behind**, under every hash that notices a changed word: a
list is made and digested, and then brackets are put around it. -/
theorem Made.exists_old_digest :
    ¬ ∃ hasher : Hasher, hasher.Discerning ∧
      ∀ (v : Value) (taken? : Option Bool), Made v taken? → v.digest = v.renewed.digest := by
  rintro ⟨hasher, hash, h⟩
  exact digest_nullListDigested_bracketed_ne hash (h _ _ made_nullListDigested_bracketed)

end Stylesheet
