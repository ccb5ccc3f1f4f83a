import Stylesheet.Proofs.Value.Node
import Stylesheet.Value.Render

/-!
# Values that print alike

What a value prints is put together from what its parts print, and of a part more is asked than its
text: whether a list leaves it out, whether it stands in parentheses, and what a template splices.
Two values print alike (`Value.PrintsAlike`) when none of this tells them apart. **Replacing the
parts of a value by such as print alike keeps what it prints (`Value.PrintsAlike.mapParts`).**
-/

namespace Stylesheet.Value

/-- What a template splices for a value: a string without its quotes, or else CSS. -/
def spliced (g : Format) (v : Value) : String :=
  match v with
  | .string s => s.text
  | v => v.cssWith g

theorem renderFragments_cons_hole (g : Format) (v : Value) (fragments : List (Fragment Value)) :
    renderFragments g (.hole v :: fragments) = v.spliced g ++ renderFragments g fragments := by
  cases v <;> rfl

/-- Two values that no text tells apart, by themselves or inside a list, a map or a template. -/
structure PrintsAlike (v w : Value) : Prop where
  render : ∀ g inspecting, v.render g inspecting = w.render g inspecting
  isInvisible : v.isInvisible = w.isInvisible
  enclose : ∀ outer text, enclose outer v text = enclose outer w text
  spliced : ∀ g, v.spliced g = w.spliced g

variable {f : Value → Value} (g : Format) (inspecting : Bool)

/-! ## Texts of members -/

theorem renderItems_map {items : List Value} (separator : Separator)
    (h : ∀ x ∈ items, PrintsAlike (f x) x) :
    renderItems g inspecting separator (items.map f) =
      renderItems g inspecting separator items := by
  induction items with
  | nil => rfl
  | cons x items ih =>
    have hx := h x List.mem_cons_self
    rw [List.map_cons, renderItems, renderItems, hx.isInvisible, hx.render, hx.enclose,
      ih fun y hy => h y (List.mem_cons_of_mem x hy)]

theorem renderEntries_map {entries : List (Value × Value)}
    (h : ∀ e ∈ entries, PrintsAlike (f e.1) e.1 ∧ PrintsAlike (f e.2) e.2) :
    renderEntries g inspecting (entries.map (Prod.map f f)) =
      renderEntries g inspecting entries := by
  induction entries with
  | nil => rfl
  | cons e entries ih =>
    obtain ⟨hkey, hval⟩ := h e List.mem_cons_self
    rw [List.map_cons, Prod.map, renderEntries, renderEntries, hkey.render, hkey.enclose,
      hval.render, hval.enclose, ih fun y hy => h y (List.mem_cons_of_mem e hy)]

theorem renderArguments_map {arguments : List (Argument Value)}
    (h : ∀ a ∈ arguments, PrintsAlike (f a.value) a.value) :
    renderArguments g inspecting (arguments.map (Argument.map f)) =
      renderArguments g inspecting arguments := by
  induction arguments with
  | nil => rfl
  | cons a arguments ih =>
    rw [List.map_cons, Argument.map, renderArguments, renderArguments,
      (h a List.mem_cons_self).render, ih fun b hb => h b (List.mem_cons_of_mem a hb)]

theorem renderFragments_map {fragments : List (Fragment Value)}
    (h : ∀ p ∈ fragments, ∀ x ∈ p.parts, PrintsAlike (f x) x) :
    renderFragments g (fragments.map (Fragment.map f)) = renderFragments g fragments := by
  induction fragments with
  | nil => rfl
  | cons p fragments ih =>
    have hrest := ih fun q hq => h q (List.mem_cons_of_mem p hq)
    cases p with
    | text s => exact congrArg (s ++ ·) hrest
    | hole x =>
      have hx := h _ List.mem_cons_self x (Fragment.hole_mem_parts x)
      rw [List.map_cons, Fragment.map, renderFragments_cons_hole, renderFragments_cons_hole,
        hx.spliced, hrest]

/-! ## Whole values -/

variable {v : Value}

theorem isInvisible_mapParts (f : Value → Value) (v : Value) :
    (v.mapParts f).isInvisible = v.isInvisible := by
  cases v with
  | list l => exact congrArg (· && !l.bracketed) List.isEmpty_map
  | map m => exact List.isEmpty_map
  | _ => rfl

theorem enclose_mapParts (f : Value → Value) (v : Value) (outer : Separator) (text : String) :
    enclose outer (v.mapParts f) text = enclose outer v text := by
  cases v with
  | list l =>
    have hparens : (l.map f).needsParens outer = l.needsParens outer := by
      show (!l.bracketed && decide (1 < (l.items.map f).length) && _) = _
      rw [List.length_map]
      rfl
    rw [mapParts, enclose, enclose, hparens]
  | _ => rfl

theorem render_mapParts (h : ∀ x ∈ v.parts, PrintsAlike (f x) x) :
    (v.mapParts f).render g inspecting = v.render g inspecting := by
  cases v with
  | template t =>
    exact congrArg t.assemble (renderFragments_map g fun p hp x hx =>
      h x (Template.mem_parts hp hx))
  | list l =>
    have hempty : (l.map f).items.isEmpty = l.items.isEmpty := List.isEmpty_map
    have hitems := renderItems_map g inspecting l.separator fun x hx =>
      h x (ListOf.item_mem_parts hx)
    show (l.map f).assemble g inspecting (renderItems g inspecting l.separator (l.items.map f)) = _
    rw [hitems, render, ListOf.assemble, hempty]
    rfl
  | map m =>
    have hempty : (m.map f).entries.isEmpty = m.entries.isEmpty := List.isEmpty_map
    have hentries := renderEntries_map g inspecting fun e he =>
      ⟨h e.1 (MapOf.key_mem_parts he), h e.2 (MapOf.value_mem_parts he)⟩
    rw [mapParts, render, render, hempty]
    show (if _ then _ else "(" ++ String.intercalate _
      (renderEntries g inspecting (m.entries.map (Prod.map f f))) ++ ")") = _
    rw [hentries]
  | call c =>
    have harguments := renderArguments_map g inspecting fun a ha =>
      h a.value (Call.argument_mem_parts ha)
    show c.name ++ "(" ++ String.intercalate _
      (renderArguments g inspecting (c.arguments.map (Argument.map f))) ++ ")" = _
    rw [harguments]
    rfl
  | operation e =>
    show (f e.left).render g inspecting ++ e.operand.separator ++
      (f e.right).render g inspecting = _
    rw [(h e.left e.left_mem_parts).render, (h e.right e.right_mem_parts).render]
    rfl
  | _ => rfl

/-- **A value prints what it printed if its parts do.** -/
theorem PrintsAlike.mapParts (h : ∀ x ∈ v.parts, PrintsAlike (f x) x) :
    PrintsAlike (v.mapParts f) v where
  render g inspecting := render_mapParts g inspecting h
  isInvisible := isInvisible_mapParts f v
  enclose := enclose_mapParts f v
  spliced g := by
    cases v with
    | string s => rfl
    | _ => exact render_mapParts g false h

end Stylesheet.Value
