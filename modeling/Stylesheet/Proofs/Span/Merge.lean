import Mathlib.Data.List.Induction
import Stylesheet.Span

/-!
# Merged spans

**Theorem (`Span.foldl_merge_covers`).** Merging a list of spans into a receiver gives the span from
the least start to the greatest end of the receiver and of those spans that have its source. The
order of the list does not matter, and every offset of these spans is in the result. Where all spans
have one source, it does not matter either how the merges are grouped.

The receiver wins where sources differ, so merging is neither commutative nor associative: with
spans of two sources, a merge on the right loses what a merge on the left would have taken. What a
fixed receiver takes from a list is a filter, and it takes it by a minimum and a maximum
(`foldl_merge_eq_hull`). These are over a list and know no order and no groups (`hull_perm`,
`hull_append`). Nothing is asked of the ends of a span, which may be empty or end before it starts.
-/

namespace Stylesheet.Span

/-! ## Hulls -/

/-- The larger of two offsets is one of them and above both. -/
instance : Std.LawfulOrderMax UInt32 :=
  .of_max_le_iff
    (fun a b c => by
      rw [UInt32.max_def]
      simp only [UInt32.le_iff_toNat_le]
      split <;> omega)
    (fun a b => by
      rw [UInt32.max_def]
      split
      · exact .inr rfl
      · exact .inl rfl)

/-- The span from the least start to the greatest end. -/
def hull (source : Source) (ss : List Span) (h : ss ≠ []) : Span where
  source := source
  start := (ss.map start).min (List.map_eq_nil_iff.not.2 h)
  stop := (ss.map stop).max (List.map_eq_nil_iff.not.2 h)

section Hull

variable {source : Source} {ss ts : List Span}

theorem hull_singleton (s : Span) : hull s.source [s] (List.cons_ne_nil s []) = s := rfl

/-- An operation that may be grouped in any way can be taken over both parts of a list first. -/
theorem foldl_append_cons {α : Type} (op : α → α → α) [Std.Associative op] (x y : α)
    (xs ys : List α) : (xs ++ y :: ys).foldl op x = op (xs.foldl op x) (ys.foldl op y) := by
  rw [List.foldl_append, List.foldl_cons, List.foldl_assoc]

/-- The hull of two lists is the merge of their hulls. -/
theorem hull_append (hs : ss ≠ []) (ht : ts ≠ []) :
    hull source (ss ++ ts) (List.append_ne_nil_of_left_ne_nil hs ts) =
      (hull source ss hs).merge (hull source ts ht) := by
  cases ss with
  | nil => exact absurd rfl hs
  | cons s ss =>
    cases ts with
    | nil => exact absurd rfl ht
    | cons t ts =>
      rw [merge, if_pos (by rfl), hull, mk.injEq]
      simp only [List.map_append, List.map_cons, List.cons_append]
      exact ⟨rfl, foldl_append_cons min _ _ _ _, foldl_append_cons max _ _ _ _⟩

/-- A hull does not depend on the order of its spans. -/
theorem hull_perm (h : ss.Perm ts) (hs : ss ≠ []) (ht : ts ≠ []) :
    hull source ss hs = hull source ts ht := by
  have hstart (a : UInt32) : a ∈ ss.map start ↔ a ∈ ts.map start := (h.map start).mem_iff
  have hstop (a : UInt32) : a ∈ ss.map stop ↔ a ∈ ts.map stop := (h.map stop).mem_iff
  rw [hull, hull, mk.injEq, List.min_eq_iff, List.max_eq_iff]
  exact ⟨rfl, ⟨(hstart _).2 (List.min_mem _), fun b hb => List.min_le_of_mem ((hstart b).1 hb)⟩,
    (hstop _).2 (List.max_mem _), fun b hb => List.le_max_of_mem ((hstop b).1 hb)⟩

/-- A hull contains what its spans contain. -/
theorem contains_hull {t : Span} {offset : UInt32} (hs : ss ≠ []) (ht : t ∈ ss)
    (h : t.contains offset = true) : (hull source ss hs).contains offset = true := by
  simp only [contains, Bool.and_eq_true, decide_eq_true_eq] at h ⊢
  exact ⟨UInt32.le_trans (List.min_le_of_mem (List.mem_map_of_mem ht)) h.1,
    UInt32.lt_of_lt_of_le h.2 (List.le_max_of_mem (List.mem_map_of_mem ht))⟩

end Hull

/-! ## A receiver and a list -/

/-- The receiver, and the spans that it can be merged with. -/
def joined (s : Span) (ts : List Span) : List Span :=
  s :: ts.filter fun t => t.source = s.source

theorem joined_ne_nil (s : Span) (ts : List Span) : s.joined ts ≠ [] := List.cons_ne_nil s _

/-- Merging a list into a receiver takes its spans of the same source, and no others. -/
theorem foldl_merge_eq_hull (s : Span) (ts : List Span) :
    ts.foldl merge s = hull s.source (s.joined ts) (s.joined_ne_nil ts) := by
  induction ts using List.reverseRecOn with
  | nil => exact (hull_singleton s).symm
  | append_singleton ts t ih =>
    rw [List.foldl_append, ih, List.foldl_cons, List.foldl_nil]
    by_cases hsource : t.source = s.source
    · have hjoined : s.joined (ts ++ [t]) = s.joined ts ++ [t] := by simp [joined, hsource]
      simp only [hjoined]
      rw [hull_append (s.joined_ne_nil ts) (List.cons_ne_nil t []), ← hsource, hull_singleton]
    · have hjoined : s.joined (ts ++ [t]) = s.joined ts := by simp [joined, hsource]
      simp only [hjoined]
      exact if_neg (Ne.symm hsource)

/-! ## Groups -/

/-- Merges of spans, grouped in some way. -/
inductive Grouping where
  | span (s : Span)
  | merge (g h : Grouping)

namespace Grouping

/-- The spans from left to right. -/
def spans : Grouping → List Span
  | span s => [s]
  | merge g h => g.spans ++ h.spans

/-- The result of all the merges. -/
def merged : Grouping → Span
  | span s => s
  | merge g h => g.merged.merge h.merged

theorem spans_ne_nil (g : Grouping) : g.spans ≠ [] := by
  induction g with
  | span s => exact List.cons_ne_nil s []
  | merge g h ihg _ => exact List.append_ne_nil_of_left_ne_nil ihg h.spans

/-- For spans of one source only the spans matter. -/
theorem merged_eq_hull {source : Source} {g : Grouping} (h : ∀ s ∈ g.spans, s.source = source) :
    g.merged = hull source g.spans g.spans_ne_nil := by
  induction g with
  | span s =>
    rw [← h s (List.mem_singleton_self s)]
    exact (hull_singleton s).symm
  | merge g g' ihg ihg' =>
    have hg := ihg fun s hs => h s (List.mem_append_left _ hs)
    have hg' := ihg' fun s hs => h s (List.mem_append_right _ hs)
    simp only [merged, spans, hg, hg', hull_append g.spans_ne_nil g'.spans_ne_nil]

end Grouping

/-- **Merging covers exactly, in any order and, for one source, in any grouping.** -/
theorem foldl_merge_covers (s : Span) (ts : List Span) :
    -- The result is the hull of the receiver and the spans of its source.
    ts.foldl merge s = hull s.source (s.joined ts) (s.joined_ne_nil ts) ∧
    -- It does not depend on the order.
    (∀ us, ts.Perm us → us.foldl merge s = ts.foldl merge s) ∧
    -- It contains what these spans contain.
    (∀ t ∈ s.joined ts, ∀ offset, t.contains offset = true →
      (ts.foldl merge s).contains offset = true) ∧
    -- For one source it does not depend on the grouping.
    ((∀ t ∈ ts, t.source = s.source) →
      ∀ g : Grouping, g.spans.Perm (s :: ts) → g.merged = ts.foldl merge s) := by
  refine ⟨foldl_merge_eq_hull s ts, fun us hperm => ?order, fun t ht offset hoffset => ?contained,
    fun hsource g hperm => ?grouping⟩
  case order =>
    rw [foldl_merge_eq_hull, foldl_merge_eq_hull]
    exact hull_perm ((hperm.filter _).cons s).symm _ _
  case contained =>
    rw [foldl_merge_eq_hull]
    exact contains_hull _ ht hoffset
  case grouping =>
    have hall : ∀ t ∈ g.spans, t.source = s.source := fun t ht => by
      rcases List.mem_cons.1 (hperm.mem_iff.1 ht) with rfl | ht
      · rfl
      · exact hsource t ht
    have hjoined : s.joined ts = s :: ts := by
      rw [joined, List.filter_eq_self.2 fun t ht => decide_eq_true (hsource t ht)]
    rw [foldl_merge_eq_hull, Grouping.merged_eq_hull hall]
    simp only [hjoined]
    exact hull_perm hperm _ _

/-- A span in the first source. -/
def inFirst (start stop : UInt32) : Span := ⟨⟨1⟩, start, stop⟩

/-- A span of another source is passed over, and one that ends before it starts lowers the start. -/
theorem foldl_merge_covers_twoSources :
    let other : Span := ⟨⟨2⟩, 0, 50⟩
    let mixed := [inFirst 15 30, other, inFirst 9 3]
    mixed.foldl merge (inFirst 10 20) = inFirst 9 30 ∧
      [inFirst 9 3, inFirst 15 30, other].foldl merge (inFirst 10 20) =
        mixed.foldl merge (inFirst 10 20) ∧
      (mixed.foldl merge (inFirst 10 20)).contains 25 = true ∧
      (Grouping.merge (.span (inFirst 15 30)) (.merge (.span (inFirst 10 20))
        (.span (inFirst 9 3)))).merged =
        [inFirst 15 30, inFirst 9 3].foldl merge (inFirst 10 20) := by
  intro other mixed
  obtain ⟨hhull, horder, hcontained, -⟩ := foldl_merge_covers (inFirst 10 20) mixed
  have hgrouping := (foldl_merge_covers (inFirst 10 20) [inFirst 15 30, inFirst 9 3]).2.2.2
  exact ⟨hhull, horder _ (by decide), hcontained (inFirst 15 30) (by decide) 25 (by decide),
    hgrouping (by decide) _ (by decide)⟩

end Stylesheet.Span
