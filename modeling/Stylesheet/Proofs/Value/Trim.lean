import Mathlib.Data.List.DropRight
import Stylesheet.Proofs.Equality.Equivalence
import Stylesheet.Value.Change
import Stylesheet.Value.Render

/-!
# Trimming a value

**Theorem (`Value.trimEnd_spec`).** A value answers that it ends in a blank exactly when trimming
changes it, and what it is changed to is no longer equal to it. Trimming takes a run of blanks off
the one text at the end of the value (`Value.Shortened`), and leaves no blank there.

Query and trimming descend side by side: into the last piece of a template and, where that is a
hole, into the value in it. So a value without blanks at its end is given back as it is, with the
digests that are carried inside, and one with blanks drops exactly the digests on the way down to
them.
-/

namespace Stylesheet

/-! ## Texts -/

namespace Text

/-- What is trimmed off a text is blank. -/
theorem exists_eq_trimEnd_append (s : String) :
    ∃ blanks : String, s = trimEnd s ++ blanks ∧ ∀ c ∈ blanks.toList, isCssBlank c = true := by
  have hsplit := List.rdropWhile_append_rtakeWhile (p := isCssBlank) (l := s.toList)
  refine ⟨String.ofList (s.toList.rtakeWhile isCssBlank), ?_, ?_⟩
  · rw [trimEnd, ← String.ofList_append]
    exact String.ofList_toList.symm.trans (congrArg String.ofList hsplit.symm)
  · rw [String.toList_ofList]
    exact fun c hc => List.mem_rtakeWhile_imp hc

/-- From a text that ends in a blank something is trimmed off. -/
theorem exists_blanks_of_endsBlank {s : String} (h : endsBlank s = true) :
    ∃ blanks : String, blanks ≠ "" ∧ (∀ c ∈ blanks.toList, isCssBlank c = true) ∧
      s = trimEnd s ++ blanks := by
  obtain ⟨blanks, hsplit, hblank⟩ := exists_eq_trimEnd_append s
  refine ⟨blanks, ?_, hblank, hsplit⟩
  rintro rfl
  rw [String.append_empty] at hsplit
  rw [(endsBlank_eq_false_iff s).2 hsplit.symm] at h
  cases h

theorem trimEnd_trimEnd (s : String) : trimEnd (trimEnd s) = trimEnd s := by
  have hchars : (trimEnd s).toList = s.toList.rdropWhile isCssBlank := String.toList_ofList
  show String.ofList ((trimEnd s).toList.rdropWhile isCssBlank) = _
  rw [hchars, List.rdropWhile_idempotent]
  rfl

theorem endsBlank_trimEnd (s : String) : endsBlank (trimEnd s) = false :=
  (endsBlank_eq_false_iff _).2 (trimEnd_trimEnd s)

end Text

/-! ## Pieces -/

namespace Fragment

/-- Whether the piece ends in a blank. -/
def endsBlank : Fragment Value → Bool
  | .text s => Text.endsBlank s
  | .hole v => v.endsBlank

/-- The piece without the blanks at its end. -/
def trimEnd : Fragment Value → Fragment Value
  | .text s => .text (Text.trimEnd s)
  | .hole v => .hole v.trimEnd

end Fragment

namespace Value

theorem fragmentsEndBlank_concat (before : List (Fragment Value)) (last : Fragment Value) :
    fragmentsEndBlank (before ++ [last]) = last.endsBlank := by
  induction before with
  | nil => cases last <;> rfl
  | cons g before ih =>
    obtain ⟨f, fs, hrest⟩ := List.exists_cons_of_ne_nil (List.concat_ne_nil last before)
    rw [← ih, List.cons_append, hrest]
    cases g <;> rfl

theorem trimFragments_concat (before : List (Fragment Value)) (last : Fragment Value) :
    trimFragments (before ++ [last]) = before ++ [last.trimEnd] := by
  induction before with
  | nil => cases last <;> rfl
  | cons g before ih =>
    obtain ⟨f, fs, hrest⟩ := List.exists_cons_of_ne_nil (List.concat_ne_nil last before)
    rw [List.cons_append, List.cons_append, ← ih, hrest]
    cases g <;> rfl

/-- Templates are told apart by their last pieces. -/
theorem beqFragments_concat [Hasher] (before : List (Fragment Value)) {last last' : Fragment Value}
    (h : beqFragments [last] [last'] = false) :
    beqFragments (before ++ [last]) (before ++ [last']) = false := by
  induction before with
  | nil => exact h
  | cons g before ih =>
    rw [List.cons_append, List.cons_append]
    cases g <;> simp [beqFragments, ih]

/-! ## The text at the end -/

/-- The second value is the first one with `tail` taken off the text at its end: that of a string,
or of the last piece of a template, or the one at the end of the value in a last hole. Everything
else is as it was, save that the nodes above the text carry no digest. -/
inductive Shortened (tail : String) : Value → Value → Prop
  | string {s : StringValue} {text : String} (h : s.text = text ++ tail) :
      Shortened tail (.string s) (.string { s with text, memo := none })
  | text {t : Template Value} {before : List (Fragment Value)} {text : String}
      (h : t.fragments = before ++ [.text (text ++ tail)]) :
      Shortened tail (.template t)
        (.template { t with fragments := before ++ [.text text], memo := none })
  | hole {t : Template Value} {before : List (Fragment Value)} {v w : Value}
      (h : t.fragments = before ++ [.hole v]) (hv : Shortened tail v w) :
      Shortened tail (.template t)
        (.template { t with fragments := before ++ [.hole w], memo := none })

/-- A shorter text makes another value. -/
theorem Shortened.beq_eq_false [Hasher] {tail : String} {v w : Value} (h : Shortened tail v w)
    (htail : tail ≠ "") : w.beq v = false := by
  have htext : ∀ text : String, (text == text ++ tail) = false := by
    intro text
    rw [beq_eq_false_iff_ne, ne_eq, ← String.toList_inj, String.toList_append]
    simpa using htail
  induction h with
  | string h => simpa [beq, StringValue.beq, h] using htext _
  | text h =>
    rw [beq, h]
    exact beqFragments_concat _ (by simp [beqFragments, htext])
  | hole h hv ih =>
    rw [beq, h]
    exact beqFragments_concat _ (by simp [beqFragments, ih])

/-! ## Trimming -/

/-- A value that ends in a blank is a string or a template whose last piece does. -/
theorem exists_of_endsBlank {v : Value} (h : v.endsBlank = true) :
    (∃ s, v = .string s ∧ Text.endsBlank s.text = true) ∨
      ∃ t before last, v = .template t ∧ t.fragments = before ++ [last] ∧
        last.endsBlank = true := by
  cases v with
  | string s => exact .inl ⟨s, rfl, h⟩
  | template t =>
    have hlast : fragmentsEndBlank t.fragments = true := h
    obtain hnil | ⟨before, last, hfragments⟩ := t.fragments.eq_nil_or_concat'
    · rw [hnil] at hlast
      cases hlast
    · rw [hfragments, fragmentsEndBlank_concat] at hlast
      exact .inr ⟨t, before, last, rfl, hfragments, hlast⟩
  | _ => cases h

theorem trimEnd_string_of_endsBlank {s : StringValue} (h : Text.endsBlank s.text = true) :
    (string s).trimEnd = string { s with text := Text.trimEnd s.text, memo := none } :=
  congrArg string (if_pos h)

theorem trimEnd_template_of_endsBlank {t : Template Value} {before : List (Fragment Value)}
    {last : Fragment Value} (hfragments : t.fragments = before ++ [last])
    (h : last.endsBlank = true) :
    (template t).trimEnd =
      template { t with fragments := before ++ [last.trimEnd], memo := none } := by
  have hlast : fragmentsEndBlank t.fragments = true := by
    rw [hfragments, fragmentsEndBlank_concat, h]
  rw [trimEnd, if_pos hlast, hfragments, trimFragments_concat]

/-- What does not end in a blank is not touched. -/
theorem trimEnd_of_endsBlank_eq_false {v : Value} (h : v.endsBlank = false) : v.trimEnd = v := by
  cases v with
  | string s => exact congrArg string (if_neg (by simpa [endsBlank] using h))
  | template t => exact if_neg (by simpa [endsBlank] using h)
  | _ => rfl

/-- The value in the last hole is one of the parts. -/
theorem mem_parts_of_last {t : Template Value} {before : List (Fragment Value)} {w : Value}
    (h : t.fragments = before ++ [.hole w]) : w ∈ (template t).parts :=
  Template.mem_parts (h ▸ List.mem_append_right _ List.mem_cons_self) (Fragment.hole_mem_parts w)

/-- **Blanks are taken off the text at the end**, and nothing else is changed. -/
theorem exists_shortened_trimEnd {v : Value} (h : v.endsBlank = true) :
    ∃ blanks : String, blanks ≠ "" ∧ (∀ c ∈ blanks.toList, Text.isCssBlank c = true) ∧
      Shortened blanks v v.trimEnd := by
  induction v using Value.induction with
  | step v ih =>
    rcases exists_of_endsBlank h with ⟨s, rfl, hs⟩ | ⟨t, before, last, rfl, hfragments, hlast⟩
    · obtain ⟨blanks, hne, hblank, hsplit⟩ := Text.exists_blanks_of_endsBlank hs
      rw [trimEnd_string_of_endsBlank hs]
      exact ⟨blanks, hne, hblank, .string hsplit⟩
    · rw [trimEnd_template_of_endsBlank hfragments hlast]
      cases last with
      | text s =>
        obtain ⟨blanks, hne, hblank, hsplit⟩ := Text.exists_blanks_of_endsBlank hlast
        exact ⟨blanks, hne, hblank, .text (by rw [hfragments, ← hsplit])⟩
      | hole w =>
        obtain ⟨blanks, hne, hblank, hshort⟩ := ih w (mem_parts_of_last hfragments) hlast
        exact ⟨blanks, hne, hblank, .hole hfragments hshort⟩

/-- No blank is left at the end. -/
theorem endsBlank_trimEnd (v : Value) : v.trimEnd.endsBlank = false := by
  induction v using Value.induction with
  | step v ih =>
    cases hv : v.endsBlank with
    | false => rw [trimEnd_of_endsBlank_eq_false hv, hv]
    | true =>
      rcases exists_of_endsBlank hv with ⟨s, rfl, hs⟩ | ⟨t, before, last, rfl, hfragments, hlast⟩
      · rw [trimEnd_string_of_endsBlank hs]
        exact Text.endsBlank_trimEnd s.text
      · rw [trimEnd_template_of_endsBlank hfragments hlast]
        show fragmentsEndBlank (before ++ [last.trimEnd]) = false
        rw [fragmentsEndBlank_concat]
        cases last with
        | text s => exact Text.endsBlank_trimEnd s
        | hole w => exact ih w (mem_parts_of_last hfragments)

/-- **Trimming agrees with its query**, leaves nothing to trim, and takes blanks off the one text at
the end. -/
theorem trimEnd_spec [Hasher] (v : Value) :
    -- The query says whether there is a change, and a change can be seen.
    ((v.endsBlank = true ↔ v.trimEnd ≠ v ∧ v.trimEnd.beq v = false) ∧
      (v.WellFormed → v.trimEnd.beq v = !v.endsBlank)) ∧
    -- After it nothing is left to do.
    (v.trimEnd.endsBlank = false ∧ v.trimEnd.trimEnd = v.trimEnd) ∧
    -- Only blanks at the end of the last text are taken off.
    (v.trimEnd = v ∨ ∃ blanks : String, blanks ≠ "" ∧
      (∀ c ∈ blanks.toList, Text.isCssBlank c = true) ∧ Shortened blanks v v.trimEnd) := by
  have hafter := endsBlank_trimEnd v
  have hagain := trimEnd_of_endsBlank_eq_false hafter
  cases h : v.endsBlank with
  | false =>
    have hsame := trimEnd_of_endsBlank_eq_false h
    refine ⟨⟨?_, fun hv => ?_⟩, ⟨hafter, hagain⟩, .inl hsame⟩
    · simp [hsame]
    · rw [hsame]
      exact beq_self v hv
  | true =>
    obtain ⟨blanks, hne, hblank, hshort⟩ := exists_shortened_trimEnd h
    have hbeq := hshort.beq_eq_false hne
    have hchanged : v.trimEnd ≠ v := fun hsame => by
      rw [hsame, h] at hafter
      cases hafter
    exact ⟨⟨by simp [hchanged, hbeq], fun _ => hbeq⟩, ⟨hafter, hagain⟩,
      .inr ⟨blanks, hne, hblank, hshort⟩⟩

/-- A template with blanks in the middle, and at its end a template that ends in blanks. -/
def blanksWithin : Value :=
  .template {
    fragments := [
      .text "a \t",
      .hole (.template {
        fragments := [.hole (.text .nowhere " b "), .text "c \n\t"]
        quote? := some '"'
        span := .nowhere })]
    delayed := true
    span := .nowhere }

theorem wellFormed_blanksWithin : blanksWithin.WellFormed := by
  refine .intro trivial ?_
  show ∀ x ∈ [_], WellFormed x
  rw [List.forall_mem_singleton]
  refine .intro trivial ?_
  show ∀ x ∈ [_], WellFormed x
  rw [List.forall_mem_singleton]
  exact .intro trivial nofun

/-- Two levels down a line break and the blanks around it go, and the blanks elsewhere stay. -/
theorem trimEnd_spec_blanksWithin :
    (blanksWithin.WellFormed ∧ blanksWithin.endsBlank = true) ∧
      blanksWithin.trimEnd.beq blanksWithin = false ∧
      blanksWithin.trimEnd.trimEnd.css = "a \t\" b c\"" := by
  have hends : blanksWithin.endsBlank = true := by decide +kernel
  obtain ⟨⟨-, hequal⟩, ⟨-, hagain⟩, -⟩ := trimEnd_spec blanksWithin
  refine ⟨⟨wellFormed_blanksWithin, hends⟩, ?_, ?_⟩
  · rw [hequal wellFormed_blanksWithin, hends]
    rfl
  · rw [hagain]
    decide +kernel

end Value

end Stylesheet
