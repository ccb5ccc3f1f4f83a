import Stylesheet.Value.Render

/-!
# Texts of invisible values

**Theorem (`Value.cssWith_eq_empty_of_isInvisible`).** A value that is left out of a list that holds
it has no text of its own either, in any format, unless it is a function. A function is left out of
lists as well, but by itself it prints how it would be looked up
(`Value.cssWith_function_ne_empty`).

Two places decide about visibility. A question to the value decides whether a list prints it, and
printing by kind decides its own text. They agree on an empty string without quotes, an empty list
without brackets, an empty map, and `null`. For `null` the printer asks whether it is inspecting,
and for a function it does not, so the text that is meant for messages gets into a stylesheet.

**Theorem (`Value.cssWith_list`).** The items that a list leaves out leave no trace in its text. It
is the text of the list without them: the texts of the others with separators between them, in
brackets exactly if the list has brackets. The printer asks whether there are items before it leaves
any out, so a list of invisible items takes another way than an empty one. Both ways end in the same
text (`ListOf.assemble_css`).
-/

namespace Stylesheet

namespace StringValue

/-- An invisible string prints nothing, and collapsing nothing gives nothing. -/
theorem render_eq_empty {s : StringValue} (h : s.isInvisible = true) (f : Format) :
    s.render f false = "" := by
  obtain ⟨hempty, hplain⟩ := Bool.and_eq_true_iff.1 h
  have htext : s.text = "" := String.isEmpty_iff.1 hempty
  have hcss : s.css = "" := by
    rw [css, Option.isNone_iff_eq_none.1 hplain]
    exact htext
  rw [render, hcss]
  simp [Text.collapse, Text.fields, Text.consField]

end StringValue

namespace ListOf

/-- An invisible list prints nothing, whatever its items would print. -/
theorem assemble_eq_empty {l : ListOf Value} (h : l.isInvisible = true) (f : Format)
    (texts : List String) : l.assemble f false texts = "" := by
  obtain ⟨hempty, hbracketed⟩ := Bool.and_eq_true_iff.1 h
  have hplain : l.bracketed = false := by simpa using hbracketed
  simp [assemble, hempty, hplain]

end ListOf

namespace Value

variable {v : Value}

/-- A function prints how it would be looked up, in every format. -/
theorem cssWith_function_ne_empty (g : FunctionRef) (f : Format) :
    (function g).cssWith f ≠ "" := by
  intro h
  have hlength := congrArg String.length h
  simp [cssWith, render] at hlength

/-- **An invisible value prints nothing, unless it is a function**, which prints how it would be
looked up. -/
theorem cssWith_eq_empty_of_isInvisible (h : v.isInvisible = true) (f : Format) :
    (v.cssWith f = "" ↔ v.kind ≠ .function) ∧
      ∀ g, v = .function g → v.cssWith f = "get-function(" ++ Text.quote g.name none ++ ")" := by
  have hprints : v.cssWith f = "" → v.kind ≠ .function := by
    intro hempty hkind
    cases v with
    | function g => exact cssWith_function_ne_empty g f hempty
    | diagnostic d => cases h
    | _ => cases hkind
  refine ⟨⟨hprints, fun hkind => ?_⟩, fun g hg => hg ▸ rfl⟩
  cases v with
  | string s => exact StringValue.render_eq_empty h f
  | list l => exact ListOf.assemble_eq_empty h f _
  | map m =>
    have hempty : m.entries.isEmpty = true := h
    rw [cssWith, render, if_pos hempty]
    rfl
  | null span => rfl
  | function g => exact absurd rfl hkind
  | _ => cases h

/-- A function of one parameter. -/
def doubling : Value :=
  .function { signature := ⟨0, "double", ["n"], .nowhere⟩, isCss := false, span := .nowhere }

/-- A function is invisible and prints a text, which a list that holds it leaves out. -/
theorem cssWith_doubling :
    doubling.isInvisible = true ∧ doubling.css = "get-function(\"double\")" ∧
      (spaceList .nowhere [doubling]).css = "" :=
  ⟨rfl, rfl, rfl⟩

/-- `null` prints nothing in compressed CSS, and the function still prints its text. -/
theorem cssWith_eq_empty_of_isInvisible_doubling :
    (null .nowhere).isInvisible = true ∧ (null .nowhere).cssWith { compressed := true } = "" ∧
      doubling.isInvisible = true ∧ doubling.cssWith { compressed := true } ≠ "" := by
  have hnull := cssWith_eq_empty_of_isInvisible (v := null .nowhere) rfl { compressed := true }
  have hfunction := cssWith_eq_empty_of_isInvisible (v := doubling) rfl { compressed := true }
  exact ⟨rfl, hnull.1.2 (by decide), rfl, fun hempty => hfunction.1.1 hempty rfl⟩

end Value

/-! ## Invisible items -/

namespace ListOf

/-- The list without the items that are left out where it is printed. -/
def visible (l : ListOf Value) : ListOf Value :=
  { l with items := l.items.filter fun v => !v.isInvisible, memo := none }

/-- A visible list has no further items to leave out. -/
theorem items_visible_visible (l : ListOf Value) : l.visible.visible.items = l.visible.items := by
  simp [visible]

/-- A list without items is no exception: with brackets or not, it is written like any other list
whose items have no texts. -/
theorem assemble_css {l : ListOf Value} {texts : List String} (f : Format)
    (h : l.items = [] → texts = []) :
    l.assemble f false texts =
      let body := (l.separator.text f.compressed).intercalate texts
      if l.bracketed then "[" ++ body ++ "]" else body := by
  by_cases hitems : l.items = []
  · obtain rfl := h hitems
    simp [assemble, hitems]
  · simp [assemble, hitems]

end ListOf

namespace Value

/-- The text of a list by the texts of its visible items. -/
theorem cssWith_list_eq (l : ListOf Value) (f : Format) :
    (list l).cssWith f =
      let body := (l.separator.text f.compressed).intercalate
        (l.visible.items.map fun v => enclose l.separator v (v.cssWith f))
      if l.bracketed then "[" ++ body ++ "]" else body := by
  have htexts : renderItems f false l.separator l.items =
      l.visible.items.map fun v => enclose l.separator v (v.cssWith f) :=
    renderItems_eq_map f false l.separator l.items
  rw [cssWith, render, htexts]
  refine ListOf.assemble_css f fun hitems => ?_
  simp [ListOf.visible, hitems]

/-- **Invisible items leave no trace.** A list prints as the list without them: the texts of its
visible items, in parentheses where they need them, with separators between, and in brackets exactly
if the list has brackets. -/
theorem cssWith_list (l : ListOf Value) (f : Format) :
    (list l).cssWith f = (list l.visible).cssWith f ∧
      (list l).cssWith f =
        let body := (l.separator.text f.compressed).intercalate
          ((l.items.filter fun v => !v.isInvisible).map fun v =>
            enclose l.separator v (v.cssWith f))
        if l.bracketed then "[" ++ body ++ "]" else body := by
  refine ⟨?_, cssWith_list_eq l f⟩
  rw [cssWith_list_eq, cssWith_list_eq, ListOf.items_visible_visible]
  rfl

/-- Parentheses are decided by all items of the inner list, so they stay around the one that is
printed. -/
example :
    (spaceList .nowhere [null .nowhere, spaceList .nowhere [parent .nowhere, null .nowhere]]).css =
      "(&)" := rfl

end Value

end Stylesheet
