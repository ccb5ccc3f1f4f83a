/-!
# Fields

A text splits at separator characters into the runs between them. Empty runs are no fields, so
separators at the ends and next to each other leave no trace.

**The fields hold exactly the characters that separate nothing (`flatten_fields`).** Fields that are
written with a separator between them are found again (`fields_intercalate`).
-/

namespace Stylesheet.Text

/-- Puts a field in front of the others, unless it is empty. -/
def consField (field : List Char) (fields : List (List Char)) : List (List Char) :=
  if field.isEmpty then fields else field :: fields

/-- One step of the split from the right: the field that is being read, and those behind it. -/
def fieldStep (separates : Char → Bool) (c : Char) (state : List Char × List (List Char)) :
    List Char × List (List Char) :=
  if separates c then ([], consField state.1 state.2) else (c :: state.1, state.2)

/-- The non-empty runs between separators. -/
def fields (separates : Char → Bool) (cs : List Char) : List (List Char) :=
  let state := cs.foldr (fieldStep separates) ([], [])
  consField state.1 state.2

theorem flatten_consField (field : List Char) (fields : List (List Char)) :
    (consField field fields).flatten = field ++ fields.flatten := by
  unfold consField
  split
  · next h => simp [List.isEmpty_iff.1 h]
  · rfl

/-- The fields hold the characters that are no separators, in their order. -/
theorem flatten_fields (separates : Char → Bool) (cs : List Char) :
    (fields separates cs).flatten = cs.filter fun c => !separates c := by
  rw [fields, flatten_consField]
  induction cs with
  | nil => rfl
  | cons c cs ih =>
    rw [List.foldr_cons, fieldStep]
    cases h : separates c <;> simp [h, flatten_consField, ih]

/-! ## Words -/

/-- Whether a text is a field: not empty, and without separators. -/
def IsField (separates : Char → Bool) (cs : List Char) : Prop :=
  cs ≠ [] ∧ ∀ c ∈ cs, separates c = false

section Words

variable {separates : Char → Bool} {word : List Char}

theorem IsField.consField_eq (h : IsField separates word) (fields : List (List Char)) :
    consField word fields = word :: fields := by
  simp [consField, h.1]

theorem foldr_fieldStep_append (hword : ∀ c ∈ word, separates c = false)
    (state : List Char × List (List Char)) :
    word.foldr (fieldStep separates) state = (word ++ state.1, state.2) := by
  induction word with
  | nil => rfl
  | cons c word ih =>
    have hc : separates c = false := hword c List.mem_cons_self
    have hrest := ih fun d hd => hword d (List.mem_cons_of_mem c hd)
    simp [hrest, fieldStep, hc]

/-- A text without separators is one field. -/
theorem IsField.fields_eq (h : IsField separates word) : fields separates word = [word] := by
  rw [fields, foldr_fieldStep_append h.2]
  simpa using h.consField_eq []

/-- A separator ends the field in front of it. -/
theorem IsField.fields_append_cons (h : IsField separates word) {c : Char}
    (hc : separates c = true) (cs : List Char) :
    fields separates (word ++ c :: cs) = word :: fields separates cs := by
  rw [fields, List.foldr_append, foldr_fieldStep_append h.2, List.foldr_cons, fieldStep, if_pos hc]
  simpa [fields] using h.consField_eq _

/-- Fields with separators between them are the fields of the whole text. -/
theorem fields_intercalate {words : List (List Char)} (h : ∀ word ∈ words, IsField separates word)
    {c : Char} (hc : separates c = true) : fields separates ([c].intercalate words) = words := by
  induction words with
  | nil => rfl
  | cons word words ih =>
    have hword := h word List.mem_cons_self
    have hwords := ih fun w hw => h w (List.mem_cons_of_mem word hw)
    cases words with
    | nil => simpa using hword.fields_eq
    | cons next words =>
      rw [List.intercalate_cons_cons, List.append_assoc, List.singleton_append,
        hword.fields_append_cons hc, hwords]

theorem isField_of_mem_consField {fields : List (List Char)}
    (hword : ∀ c ∈ word, separates c = false) (hfields : ∀ w ∈ fields, IsField separates w)
    {w : List Char} (hw : w ∈ consField word fields) : IsField separates w := by
  by_cases h : word = []
  · exact hfields w (by simpa [consField, h] using hw)
  · rcases List.mem_cons.1 (by simpa [consField, h] using hw : w ∈ word :: fields) with rfl | hw
    · exact ⟨h, hword⟩
    · exact hfields w hw

/-- The text that is being read has no separators, and those behind it are fields. -/
theorem isField_foldr_fieldStep (cs : List Char) :
    (∀ c ∈ (cs.foldr (fieldStep separates) ([], [])).1, separates c = false) ∧
      ∀ w ∈ (cs.foldr (fieldStep separates) ([], [])).2, IsField separates w := by
  induction cs with
  | nil => simp
  | cons c cs ih =>
    rw [List.foldr_cons, fieldStep]
    by_cases hc : separates c = true
    · rw [if_pos hc]
      exact ⟨by simp, fun w hw => isField_of_mem_consField ih.1 ih.2 hw⟩
    · rw [if_neg hc]
      exact ⟨by simpa [hc] using ih.1, ih.2⟩

/-- A text splits into fields only. -/
theorem isField_of_mem_fields {cs : List Char} (h : word ∈ fields separates cs) :
    IsField separates word :=
  isField_of_mem_consField (isField_foldr_fieldStep cs).1 (isField_foldr_fieldStep cs).2 h

end Words

end Stylesheet.Text
