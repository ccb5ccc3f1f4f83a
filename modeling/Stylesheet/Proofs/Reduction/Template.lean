import Stylesheet.Proofs.Reduction.Idempotence

/-!
# Templates print as they reduce

**Theorem (`Value.css_reduce_template`).** A template whose interpolated values are in normal form,
with maps whose keys have different contents, reduces in every environment to a string with its
quote mark and its place, and the CSS of that string is the CSS of the template.

The two texts are put together by two different walks. Printing splices every interpolated value as
it stands; reducing splices what it reduces to, whose lists and maps have been rebuilt. But a value
in normal form reduces to one that is alike (`Value.exists_alike_of_reduced`), and values that are
alike add the same to an interpolation (`Value.Alike.prints`): strings because equal strings have
one text, whatever their quote marks, and everything else because it is printed alike. So the pieces
agree one by one, and the quote mark is put around them at the end on both sides.

The theorem is about expanded CSS. A string that was reduced from a template has the expanded text
of its holes in it for good, while a template that is printed in compressed form compresses them.
-/

namespace Stylesheet.Value

section Hashed

variable [Hasher] {env : Environment}

/-- Pieces with values in normal form reduce to the text that they print. -/
theorem reduceFragments_eq_renderFragments {fs : List (Fragment Value)}
    (h : ∀ f ∈ fs, ∀ x ∈ f.parts, x.Reduced ∧ x.Distinct) :
    reduceFragments env fs = .ok (renderFragments {} fs) := by
  induction fs with
  | nil => rfl
  | cons f fs ih =>
    have hrest := ih fun g hg => h g (List.mem_cons_of_mem f hg)
    cases f with
    | text s =>
      rw [reduceFragments, hrest]
      rfl
    | hole v =>
      obtain ⟨hreduced, hdistinct⟩ := h _ List.mem_cons_self v (Fragment.hole_mem_parts v)
      obtain ⟨v', hv', -, halike, -⟩ := exists_alike_of_reduced env hreduced hdistinct
      rw [reduceFragments, hv', hrest, renderFragments_cons_hole, ← halike.prints.spliced]
      rfl

/-- **A template of values in normal form prints as it reduces.** -/
theorem css_reduce_template (env : Environment) {t : Template Value}
    (hreduced : ∀ x ∈ t.parts, x.Reduced) (hdistinct : (template t).Distinct) :
    ∃ s : StringValue, reduce env (.template t) = .ok (.string s) ∧ s.quote? = t.quote? ∧
      s.span = t.span ∧ (string s).css = (template t).css := by
  have htext : reduceFragments env t.fragments = .ok (renderFragments {} t.fragments) :=
    reduceFragments_eq_renderFragments fun f hf x hx =>
      ⟨hreduced x (Template.mem_parts hf hx), hdistinct.part x (Template.mem_parts hf hx)⟩
  refine ⟨{ text := renderFragments {} t.fragments, quote? := t.quote?, span := t.span }, ?_,
    rfl, rfl, rfl⟩
  rw [reduce, htext]
  rfl

end Hashed

/-- A template in double quotes, over a quoted string and over a list of `null`, a kept slash and
a map. -/
def quotedHoles : Template Value where
  fragments := [
    .hole (.quoted .nowhere "say \"hi\"" (some '\'')),
    .text ": ",
    .hole (.commaList .nowhere
      [.null .nowhere,
        slash { operand := ⟨.div, false, false⟩, left := .null .nowhere, right := .null .nowhere,
                span := .nowhere } (.ofText .nowhere 12 "px") (.plain .nowhere 1.5),
        .map (.ofPairs .nowhere [(.text .nowhere "a", .bool true .nowhere)])])]
  quote? := some '"'
  span := .nowhere

theorem reduced_quotedHoles : ∀ x ∈ quotedHoles.parts, x.Reduced := by
  show ∀ x ∈ [_, _], Reduced x
  simp only [List.forall_mem_cons, List.not_mem_nil, false_implies, implies_true, and_true]
  refine ⟨.plain (.string _), .list ?_⟩
  show ∀ x ∈ [_, _, _], Reduced x
  simp only [List.forall_mem_cons, List.not_mem_nil, false_implies, implies_true, and_true]
  refine ⟨.plain (.null _), .slash rfl rfl rfl rfl, .map rfl ?_⟩
  show ∀ x ∈ [_, _], Reduced x
  simp only [List.forall_mem_cons, List.not_mem_nil, false_implies, implies_true, and_true]
  exact ⟨.plain (.string _), .plain (.bool _ _)⟩

theorem distinct_quotedHoles : (template quotedHoles).Distinct := by
  have hplain : ∀ {v : Value}, v.node.leaf?.isSome = true → v.node.memo = none → v.Distinct :=
    fun hleaf hmemo => (Sound.leaf hleaf hmemo).distinct
  refine .intro trivial ?_
  show ∀ x ∈ [_, _], Distinct x
  simp only [List.forall_mem_cons, List.not_mem_nil, false_implies, implies_true, and_true]
  refine ⟨hplain rfl rfl, .intro List.Pairwise.nil ?_⟩
  show ∀ x ∈ [_, _, _], Distinct x
  simp only [List.forall_mem_cons, List.not_mem_nil, false_implies, implies_true, and_true]
  refine ⟨hplain rfl rfl, distinct_slash _ _ _, .intro (List.pairwise_singleton _ _) ?_⟩
  show ∀ x ∈ [_, _], Distinct x
  simp only [List.forall_mem_cons, List.not_mem_nil, false_implies, implies_true, and_true]
  exact ⟨hplain rfl rfl, hplain rfl rfl⟩

/-- The template reduces to a string that prints like it. -/
theorem css_reduce_template_quotedHoles :
    (∀ x ∈ quotedHoles.parts, x.Reduced) ∧ (template quotedHoles).Distinct ∧
      ∃ s : StringValue, reduce .empty (.template quotedHoles) = .ok (.string s) ∧
        s.quote? = some '"' ∧ (string s).css = "'say \"hi\": 12px/1.5, (a: true)'" := by
  obtain ⟨s, hs, hquote, -, hcss⟩ :=
    css_reduce_template .empty reduced_quotedHoles distinct_quotedHoles
  exact ⟨reduced_quotedHoles, distinct_quotedHoles, s, hs, hquote,
    hcss.trans (by decide +kernel)⟩

end Stylesheet.Value
