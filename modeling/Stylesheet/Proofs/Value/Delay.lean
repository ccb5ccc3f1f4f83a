import Stylesheet.Proofs.Digest.Keeping

/-!
# How far a mark is passed on

**Theorem (`Value.setDelayed_propagates`).** Marking a value as delayed, or as not delayed, marks
the value itself and all its heirs, the values that are reached from it through the operands of
operations and the holes of templates, save those below a node that had the mark already. Such a
node is spared, and keeps everything below it as it was.

So marking is complete exactly when what stands below the nodes that had the mark has it too. That
is not so for every value: a node is made without the mark, whatever is put into it, and a piece can
be added to a template that is marked (`Value.setDelayed_spares_operand`).

Heirs are found by their paths, and marking moves none of them (`Value.heirs_setDelayed`). By
induction on the path, what is found at its end is marked, or it is what was there, and a node on
the way that had the mark decides which (`Value.Spared`).
-/

namespace Stylesheet.Value

variable {on : Bool} {v x y : Value} {path : List Nat}

/-! ## The mark of one value -/

/-- Whether values of this kind have the mark at all. -/
def carriesMark : Value → Bool
  | .number _ | .list _ | .template _ | .operation _ => true
  | _ => false

theorem carriesMark_setDelayed (on : Bool) (v : Value) :
    (v.setDelayed on).carriesMark = v.carriesMark := by
  cases v with
  | template t | operation e =>
    unfold setDelayed
    split <;> rfl
  | _ => rfl

theorem isDelayed_setDelayed (h : v.carriesMark = true) : (v.setDelayed on).isDelayed = on := by
  cases v with
  | number n => rfl
  | list l => rfl
  | template t =>
    unfold setDelayed
    split
    · assumption
    · rfl
  | operation e =>
    unfold setDelayed
    split
    · assumption
    · rfl
  | _ => cases h

/-- A value that has the mark already is left as it is. -/
theorem setDelayed_of_isDelayed (h : v.isDelayed = on) : v.setDelayed on = v := by
  cases v with
  | number n => subst h; rfl
  | list l => subst h; rfl
  | template t => exact if_pos h
  | operation e => exact if_pos h
  | _ => rfl

/-! ## Heirs -/

/-- The values that a value passes its mark on to: the operands of an operation, and the values in
the holes of a template. The items of a list are not among them. -/
def heirs : Value → List Value
  | .template t => t.parts
  | .operation e => e.parts
  | _ => []

/-- The heir at the end of a path: each step says which of the heirs to go on with. -/
def heir? : List Nat → Value → Option Value
  | [], v => some v
  | i :: path, v => v.heirs[i]?.bind (heir? path)

/-- A value above the end of the path has the mark. -/
def Spared (on : Bool) (path : List Nat) (v : Value) : Prop :=
  ∃ above i below y, path = above ++ i :: below ∧ v.heir? above = some y ∧ y.isDelayed = on

theorem not_spared_nil : ¬ Spared on [] v := by
  rintro ⟨above, i, below, y, hpath, -⟩
  simp at hpath

theorem spared_cons {i : Nat} : Spared on (i :: path) v ↔
    v.isDelayed = on ∨ ∃ x, v.heirs[i]? = some x ∧ Spared on path x := by
  constructor
  · rintro ⟨above, j, below, y, hpath, hy, hmark⟩
    cases above with
    | nil =>
      obtain rfl := Option.some.inj hy
      exact .inl hmark
    | cons k above =>
      obtain ⟨rfl, rfl⟩ := List.cons.inj hpath
      obtain ⟨x, hx, hxy⟩ := Option.bind_eq_some_iff.1 hy
      exact .inr ⟨x, hx, above, j, below, y, rfl, hxy, hmark⟩
  · rintro (hmark | ⟨x, hx, above, j, below, y, rfl, hxy, hmark⟩)
    · exact ⟨[], i, path, v, rfl, rfl, hmark⟩
    · exact ⟨i :: above, j, below, y, rfl, Option.bind_eq_some_iff.2 ⟨x, hx, hxy⟩, hmark⟩

/-! ## Marking -/

/-- Marking a value without the mark marks its heirs. -/
theorem heirs_setDelayed (h : v.isDelayed ≠ on) :
    (v.setDelayed on).heirs = v.heirs.map (setDelayed on) := by
  cases v with
  | template t =>
    have hmark : ¬ t.delayed = on := h
    rw [setDelayed, if_neg hmark, setDelayedFragments_eq]
    exact t.parts_map (setDelayed on)
  | operation e =>
    have hmark : ¬ e.delayed = on := h
    rw [setDelayed, if_neg hmark]
    rfl
  | _ => rfl

theorem heir?_setDelayed_of_spared (h : Spared on path v) :
    (v.setDelayed on).heir? path = v.heir? path := by
  induction path generalizing v with
  | nil => exact absurd h not_spared_nil
  | cons i path ih =>
    by_cases hmark : v.isDelayed = on
    · rw [setDelayed_of_isDelayed hmark]
    · obtain ⟨x, hx, hspared⟩ := (spared_cons.1 h).resolve_left hmark
      simp only [heir?, heirs_setDelayed hmark, List.getElem?_map, hx, Option.map_some,
        Option.bind_some]
      exact ih hspared

theorem heir?_setDelayed_of_not_spared (h : ¬ Spared on path v) :
    (v.setDelayed on).heir? path = (v.heir? path).map (setDelayed on) := by
  induction path generalizing v with
  | nil => rfl
  | cons i path ih =>
    obtain ⟨hmark, hbelow⟩ := not_or.1 (mt spared_cons.2 h)
    simp only [heir?, heirs_setDelayed hmark, List.getElem?_map]
    cases hx : v.heirs[i]? with
    | none => rfl
    | some x => exact ih fun hspared => hbelow ⟨x, hx, hspared⟩

/-- No heir is moved. -/
theorem heir?_setDelayed_eq_none : (v.setDelayed on).heir? path = none ↔ v.heir? path = none := by
  by_cases h : Spared on path v
  · rw [heir?_setDelayed_of_spared h]
  · rw [heir?_setDelayed_of_not_spared h, Option.map_eq_none_iff]

/-- **Marking reaches every heir, save those below a value that had the mark**, which stay as they
were. So it is complete exactly when those have the mark as well. -/
theorem setDelayed_propagates (on : Bool) (v : Value) :
    (∀ path x, v.heir? path = some x →
      (¬ Spared on path v → (v.setDelayed on).heir? path = some (x.setDelayed on) ∧
        (x.carriesMark = true → (x.setDelayed on).isDelayed = on)) ∧
      (Spared on path v → (v.setDelayed on).heir? path = some x)) ∧
    (∀ path, (v.setDelayed on).heir? path = none ↔ v.heir? path = none) ∧
    ((∀ path y, (v.setDelayed on).heir? path = some y → y.carriesMark = true →
        y.isDelayed = on) ↔
      ∀ path x, Spared on path v → v.heir? path = some x → x.carriesMark = true →
        x.isDelayed = on) := by
  refine ⟨fun path x hx => ⟨fun hfree => ⟨?_, isDelayed_setDelayed⟩, fun hspared => ?_⟩,
    fun _ => heir?_setDelayed_eq_none, ?complete⟩
  · rw [heir?_setDelayed_of_not_spared hfree, hx, Option.map_some]
  · rw [heir?_setDelayed_of_spared hspared, hx]
  case complete =>
    constructor
    · intro hall path x hspared hx
      exact hall path x ((heir?_setDelayed_of_spared hspared).trans hx)
    · intro hbelow path y hy hcarries
      by_cases hspared : Spared on path v
      · exact hbelow path y hspared ((heir?_setDelayed_of_spared hspared).symm.trans hy) hcarries
      · rw [heir?_setDelayed_of_not_spared hspared] at hy
        obtain ⟨x, -, rfl⟩ := Option.map_eq_some_iff.1 hy
        exact isDelayed_setDelayed ((carriesMark_setDelayed on x).symm.trans hcarries)

/-- A sum that is not delayed, of a number that is and one that is not. -/
def sumOfDelayed : Value :=
  .operation { operand := { op := .add }
               left := .number { Number.plain .nowhere 1 with delayed := true }
               right := .number (.plain .nowhere 2)
               span := .nowhere }

/-- Marking the sum as not delayed leaves its left operand delayed. -/
theorem setDelayed_spares_operand :
    ¬ ∀ path y, (sumOfDelayed.setDelayed false).heir? path = some y → y.carriesMark = true →
      y.isDelayed = false := by
  intro h
  exact Bool.noConfusion (h [0] _ rfl rfl)

/-- The path to the left operand leads past the sum, which had the mark. -/
theorem setDelayed_propagates_sumOfDelayed :
    Spared false [0] sumOfDelayed ∧ ¬ Spared true [0] sumOfDelayed ∧
      (∃ x, (sumOfDelayed.setDelayed false).heir? [0] = some x ∧ x.isDelayed = true) ∧
      ∃ x, (sumOfDelayed.setDelayed true).heir? [1] = some x ∧ x.isDelayed = true := by
  have hspared : Spared false [0] sumOfDelayed := spared_cons.2 (.inl rfl)
  have hfree : ∀ i, ¬ Spared true [i] sumOfDelayed := fun i h => by
    rcases spared_cons.1 h with hmark | ⟨x, -, hbelow⟩
    · cases hmark
    · exact not_spared_nil hbelow
  refine ⟨hspared, hfree 0, ?_, ?_⟩
  · exact ⟨_, ((setDelayed_propagates false sumOfDelayed).1 [0] _ rfl).2 hspared, rfl⟩
  · obtain ⟨hthere, hmark⟩ := ((setDelayed_propagates true sumOfDelayed).1 [1] _ rfl).1 (hfree 1)
    exact ⟨_, hthere, hmark rfl⟩

end Stylesheet.Value
