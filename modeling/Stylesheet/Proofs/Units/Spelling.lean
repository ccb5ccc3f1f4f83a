import Stylesheet.Proofs.Units.Cancel

/-!
# Reading back written units

A unit can be spelled (`CssUnit.Spellable`) when its name reads as that unit again: the name of an
unknown unit is not empty, has no star and no slash, and is not the name of a known unit.

**Theorem (`Units.ofText_text_iff`).** Written units read back as the same units in the same order
exactly if all of them can be spelled. Reading gives only such units, so what was read once is
written and read again without a change.

The reader splits at the first slash and then at both marks, and the writer puts stars between names
and at most one slash. No name has a slash, so the first slash of a written text is the one in front
of the divisors; on each side of it the names are the fields of the text (`Units.named_starred`). An
empty side has no fields, with or without the slash.
-/

namespace Stylesheet

namespace CssUnit

/-- Whether a unit's name is read as the unit. -/
def Spellable (u : CssUnit) : Prop :=
  ∀ name, u = .other name →
    name ≠ "" ∧ '*' ∉ name.toList ∧ '/' ∉ name.toList ∧
      ∀ v : CssUnit, v.isKnown = true → v.name ≠ name

theorem ofName_name_of_isKnown {u : CssUnit} (h : u.isKnown = true) : ofName u.name = u := by
  cases u with
  | other name => cases h
  | _ => rfl

/-- A name that no known unit has is that of an unknown one. -/
theorem ofName_of_forall_ne {name : String} (h : ∀ v : CssUnit, v.isKnown = true → v.name ≠ name) :
    ofName name = .other name := by
  have hname := name_ofName name
  by_cases hknown : (ofName name).isKnown = true
  · exact absurd hname (h _ hknown)
  · obtain ⟨other, hother⟩ := exists_other_of_not_isKnown hknown
    rw [hother] at hname ⊢
    exact congrArg CssUnit.other hname

theorem Spellable.ofName_name {u : CssUnit} (h : u.Spellable) : ofName u.name = u := by
  by_cases hknown : u.isKnown = true
  · exact ofName_name_of_isKnown hknown
  · obtain ⟨name, rfl⟩ := exists_other_of_not_isKnown hknown
    exact ofName_of_forall_ne (h name rfl).2.2.2

theorem isField_name_of_isKnown {u : CssUnit} (h : u.isKnown = true) :
    Text.IsField Units.separates u.name.toList := by
  have hname : u.name.toList ≠ [] ∧
      (u.name.toList.all fun c => !Units.separates c) = true := by
    cases u with
    | other name => cases h
    | _ => exact ⟨by simp [name], rfl⟩
  exact ⟨hname.1, fun c hc => by simpa using List.all_eq_true.1 hname.2 c hc⟩

/-- The name of a unit that can be spelled separates no units. -/
theorem Spellable.isField {u : CssUnit} (h : u.Spellable) :
    Text.IsField Units.separates u.name.toList := by
  by_cases hknown : u.isKnown = true
  · exact isField_name_of_isKnown hknown
  · obtain ⟨name, rfl⟩ := exists_other_of_not_isKnown hknown
    obtain ⟨hne, hstar, hslash, -⟩ := h name rfl
    refine ⟨fun hempty => hne (String.toList_eq_nil_iff.1 hempty), fun c hc => ?_⟩
    have hother : c ≠ '*' ∧ c ≠ '/' := by
      constructor <;> rintro rfl <;> contradiction
    simp [Units.separates, hother]

/-- A field names a unit that can be spelled. -/
theorem spellable_ofName {name : String} (h : Text.IsField Units.separates name.toList) :
    (ofName name).Spellable := by
  intro other hother
  obtain rfl : name = other := by
    have hname := name_ofName name
    rwa [hother, CssUnit.name, eq_comm] at hname
  refine ⟨by simpa using h.1, fun hc => ?_, fun hc => ?_, fun v hv hname => ?_⟩
  · exact absurd (h.2 _ hc) (by decide)
  · exact absurd (h.2 _ hc) (by decide)
  · rw [← hname, ofName_name_of_isKnown hv] at hother
    rw [hother] at hv
    cases hv

end CssUnit

namespace Units

/-- Whether all units can be spelled. -/
def Spellable (u : Units) : Prop := ∀ unit ∈ u.numerators ++ u.denominators, unit.Spellable

/-! ## One side -/

theorem toList_starred (us : List CssUnit) :
    (starred us).toList = ['*'].intercalate (us.map fun u => u.name.toList) := by
  simp [starred, String.toList_intercalate, Function.comp_def]

/-- Names with stars between them are read back. -/
theorem named_starred {us : List CssUnit} (h : ∀ u ∈ us, u.Spellable) :
    named (starred us).toList = us := by
  have hfields : Text.fields separates (starred us).toList = us.map fun u => u.name.toList := by
    rw [toList_starred]
    refine Text.fields_intercalate (fun word hword => ?_) (by rfl)
    obtain ⟨u, hu, rfl⟩ := List.mem_map.1 hword
    exact (h u hu).isField
  rw [named, hfields, List.map_map]
  calc us.map _ = us.map id := List.map_congr_left fun u hu => by simpa using (h u hu).ofName_name
    _ = us := us.map_id

theorem spellable_of_mem_named {cs : List Char} {u : CssUnit} (h : u ∈ named cs) :
    u.Spellable := by
  obtain ⟨name, hname, rfl⟩ := List.mem_map.1 h
  exact CssUnit.spellable_ofName (by simpa using Text.isField_of_mem_fields hname)

theorem slash_not_mem_starred {us : List CssUnit} (h : ∀ u ∈ us, u.Spellable) :
    ∀ c ∈ (starred us).toList, (c != '/') = true := by
  rw [toList_starred]
  induction us with
  | nil => simp
  | cons u us ih =>
    have hu : ∀ c ∈ u.name.toList, (c != '/') = true := by
      intro c hc
      have := (h u List.mem_cons_self).isField.2 c hc
      simp_all [separates]
    have hus := ih fun v hv => h v (List.mem_cons_of_mem u hv)
    cases us with
    | nil => simpa using hu
    | cons v us =>
      intro c hc
      rw [List.map_cons, List.map_cons, List.intercalate_cons_cons] at hc
      simp only [List.mem_append, List.mem_singleton] at hc
      rcases hc with (hc | rfl) | hc
      · exact hu c hc
      · rfl
      · exact hus c (by simpa using hc)

/-! ## Both sides -/

theorem toList_text (u : Units) :
    u.text.toList = (starred u.numerators).toList ++
      if u.denominators = [] then [] else '/' :: (starred u.denominators).toList := by
  by_cases h : u.denominators = []
  · simp [text, starred, h]
  · simp [text, h]

/-- The first slash of a written text stands between the two sides. -/
theorem ofText_text {u : Units} (h : u.Spellable) : ofText u.text = u := by
  obtain ⟨hnum, hden⟩ := List.forall_mem_append.1 h
  have hslash := slash_not_mem_starred hnum
  show (⟨named (u.text.toList.takeWhile (· != '/')),
    named ((u.text.toList.dropWhile (· != '/')).drop 1)⟩ : Units) = ⟨u.numerators, u.denominators⟩
  rw [toList_text, List.takeWhile_append_of_pos hslash, List.dropWhile_append_of_pos hslash]
  by_cases hempty : u.denominators = []
  · have hnone : named [] = [] := rfl
    simp [hempty, named_starred hnum, hnone]
  · simp [hempty, named_starred hnum, named_starred hden]

/-- **Written units read back as themselves exactly if they can be spelled**, and all units that are
read can be. -/
theorem ofText_text_iff :
    (∀ u : Units, ofText u.text = u ↔ u.Spellable) ∧
      ∀ text, (ofText text).Spellable ∧ ofText (ofText text).text = ofText text := by
  have hread (text : String) : (ofText text).Spellable := by
    intro unit hunit
    rcases List.mem_append.1 hunit with hunit | hunit <;> exact spellable_of_mem_named hunit
  exact ⟨fun u => ⟨fun hu => hu ▸ hread u.text, ofText_text⟩,
    fun text => ⟨hread text, ofText_text (hread text)⟩⟩

end Units

end Stylesheet
