import Stylesheet.Proofs.Digest.Keeping
import Stylesheet.Proofs.Value.Unseen

/-!
# Values without their marks

A value that is not marked as delayed at any depth is unmarked (`Value.unmarked`). **Comparing,
digesting and printing read the unmarked value only** (`Value.beq_unmarked`,
`Value.digest_unmarked`, `Value.printsAlike_unmarked`), and marking a value does not change which
one that is (`Value.unmarked_setDelayed`). So two values that differ in their marks, wherever these
are, compare, digest and print alike.

Taking off the mark of one node is a change that is not seen (`Value.unseen_unmark`), so taking off
all of them is not seen either.
-/

namespace Stylesheet.Value

/-! ## Marks -/

/-- The value without its own mark. -/
def unmark : Value → Value
  | .number n => .number { n with delayed := false }
  | .template t => .template { t with delayed := false }
  | .list l => .list { l with delayed := false }
  | .operation e => .operation { e with delayed := false }
  | v => v

/-- The value without a mark at any depth. -/
def unmarked : Value → Value := everywhere unmark

variable {on : Bool}

theorem unmarked_eq (v : Value) : v.unmarked = (v.mapParts unmarked).unmark :=
  everywhere_eq unmark v

/-- **The mark of a node is not seen.** -/
theorem unseen_unmark : Unseen unmark where
  parts v := by cases v <;> rfl
  compared test eq v w := by cases v <;> cases w <;> rfl
  kind v := by cases v <;> rfl
  content d v := by cases v <;> rfl
  prints v := by cases v <;> exact ⟨fun _ _ => rfl, rfl, fun _ _ => rfl, fun _ => rfl⟩

/-- A property that does not look at marks holds at every depth of both or of neither. -/
theorem each_unmarked_iff {P : Value → Prop} (hP : ∀ v, P v.unmarked ↔ P v) {v : Value} :
    v.unmarked.Each P ↔ v.Each P :=
  each_everywhere_iff unseen_unmark.parts hP

theorem kind_unmarked (v : Value) : v.unmarked.kind = v.kind := by
  cases v <;> rfl

theorem string?_unmarked (v : Value) : v.unmarked.string? = v.string? := by
  cases v <;> rfl

theorem typeName_unmarked (v : Value) : v.unmarked.typeName = v.typeName := by
  cases v <;> rfl

theorem isFalse_unmarked (v : Value) : v.unmarked.isFalse = v.isFalse := by
  cases v <;> rfl

/-- **Marking a value does not change what it is without marks.** -/
theorem unmarked_setDelayed (on : Bool) (v : Value) : (v.setDelayed on).unmarked = v.unmarked := by
  induction v using Value.induction with
  | step v ih =>
    cases v with
    | template t =>
      unfold setDelayed
      split
      · rfl
      · have hfragments : (t.fragments.map (Fragment.map (setDelayed on))).map
            (Fragment.map unmarked) = t.fragments.map (Fragment.map unmarked) := by
          rw [List.map_map]
          refine List.map_congr_left fun p hp => ?_
          cases p with
          | text s => rfl
          | hole x =>
            exact congrArg Fragment.hole
              (ih x (Template.mem_parts hp (Fragment.hole_mem_parts x)))
        rw [setDelayedFragments_eq, unmarked_eq, unmarked_eq]
        exact congrArg (fun fragments => Value.template { t with fragments, delayed := false })
          hfragments
    | operation e =>
      unfold setDelayed
      split
      · rfl
      · rw [unmarked_eq, unmarked_eq]
        exact congrArg₂
          (fun left right => Value.operation { e with left, right, delayed := false })
          (ih e.left e.left_mem_parts) (ih e.right e.right_mem_parts)
    | _ => rfl

/-! ## Comparing, digesting and printing -/

section Hashed

variable [Hasher]

/-- **Marks are not digested**, and a digest that is carried stays. -/
theorem digest_unmarked (v : Value) : v.unmarked.digest = v.digest :=
  unseen_unmark.digest_everywhere (fun v => by cases v <;> rfl) v

/-- **Marks are not compared.** -/
theorem beq_unmarked (v w : Value) : v.unmarked.beq w.unmarked = v.beq w :=
  unseen_unmark.beq_everywhere (.of_forall digest_unmarked v) (.of_forall digest_unmarked w)

theorem meets_unmarked (v w : Value) : v.unmarked.meets w.unmarked = v.meets w := by
  unfold meets
  rw [digest_unmarked, digest_unmarked, beq_unmarked]

/-- Values that differ in their marks only are equal, if they equal themselves at all. -/
theorem beq_of_unmarked_eq {v w : Value} (h : w.unmarked = v.unmarked) : w.beq v = v.beq v := by
  rw [← beq_unmarked, h, beq_unmarked]

end Hashed

/-- **Marks are not printed.** -/
theorem printsAlike_unmarked (v : Value) : PrintsAlike v.unmarked v := unseen_unmark.printsAlike v

theorem inspect_unmarked (v : Value) : v.unmarked.inspect = v.inspect :=
  (printsAlike_unmarked v).render {} true

theorem cssWith_unmarked (f : Format) (v : Value) : v.unmarked.cssWith f = v.cssWith f :=
  (printsAlike_unmarked v).render f false

theorem interpolated_unmarked (v : Value) : v.unmarked.interpolated = v.interpolated :=
  (printsAlike_unmarked v).spliced {}

end Stylesheet.Value
