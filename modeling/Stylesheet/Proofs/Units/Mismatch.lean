import Stylesheet.Number
import Stylesheet.Proofs.Units.Exponent

/-!
# Units that do not agree

Numbers fail to be compared or combined for one reason (`Units.Mismatched`): both are written with
units, and these measure different things. A conversion by itself asks only for the second
(`Quantity.valueIn?_eq_none`); the first is what every operation on two numbers asks before it
converts. Sums ask it to let a number without units take on those of the other, comparisons to
answer without looking at units at all.

**Theorems (`Quantity.combine?_eq_none`, `Number.equal?_eq_error`, `Number.compare?_eq_error`).**
Combining, equality and order fail for mismatched units, and there only.
-/

namespace Stylesheet

namespace Units

/-- Units on both sides that measure different things. -/
def Mismatched (u v : Units) : Prop :=
  u.isUnitless = false ∧ v.isUnitless = false ∧ ∃ b, u.exponent b ≠ v.exponent b

theorem isCompatible_eq_false {u v : Units} :
    u.isCompatible v = false ↔ ∃ b, u.exponent b ≠ v.exponent b := by
  rw [← Bool.not_eq_true, isCompatible_iff, not_forall]

instance (u v : Units) : Decidable (u.Mismatched v) :=
  decidable_of_iff (u.isUnitless = false ∧ v.isUnitless = false ∧ u.isCompatible v = false)
    (by rw [isCompatible_eq_false, Mismatched])

theorem eq_unitless {u : Units} (h : u.isUnitless = true) : u = .unitless := by
  obtain ⟨hnum, hden⟩ := Bool.and_eq_true_iff.1 h
  exact congrArg₂ Units.mk (List.isEmpty_iff.1 hnum) (List.isEmpty_iff.1 hden)

/-- Units that measure different things stand on both sides, if they stand on both or none. -/
theorem mismatched_of_exponent_ne {u v : Units} (h : u.isUnitless = v.isUnitless)
    (hne : ∃ b, u.exponent b ≠ v.exponent b) : u.Mismatched v := by
  cases hv : v.isUnitless with
  | false => exact ⟨h.trans hv, hv, hne⟩
  | true =>
    obtain ⟨b, hb⟩ := hne
    exact absurd (by rw [eq_unitless (h.trans hv), eq_unitless hv]) hb

end Units

/-! ## Quantities -/

namespace Quantity

variable {α : Type} [Scale α] {a b q : Quantity α} {f : α → α → α}

/-- A value has no conversion into units that measure something else. -/
theorem valueIn?_eq_none {units : Units} :
    q.valueIn? units = none ↔ ∃ b, q.units.exponent b ≠ units.exponent b := by
  rw [valueIn?, Option.map_eq_none_iff, Units.factorTo?_eq, ← Units.isCompatible_eq_false]
  cases q.units.isCompatible units <;> simp

theorem combine?_eq_none : a.combine? f b = none ↔ a.units.Mismatched b.units := by
  unfold combine? Units.Mismatched
  cases hb : b.units.isUnitless with
  | true => simp
  | false =>
    cases ha : a.units.isUnitless with
    | true => simp
    | false => simp [valueIn?_eq_none, ne_comm]

/-- The units of the left operand are kept, unless it has none. -/
theorem units_of_combine? (h : a.combine? f b = some q) :
    q.units = if a.units.isUnitless then b.units else a.units := by
  unfold combine? at h
  split_ifs at h with hb ha
  · cases h
    by_cases ha : a.units.isUnitless = true
    · rw [if_pos ha, Units.eq_unitless ha, Units.eq_unitless hb]
    · rw [if_neg ha]
  · cases h
    rw [if_pos ha]
  · obtain ⟨value, -, rfl⟩ := Option.map_eq_some_iff.1 h
    rw [if_neg ha]

end Quantity

/-! ## Numbers -/

namespace Number

variable {a b : Number} {e : EvalError}

/-- What is asked of a number in the units of another one fails with its conversion. -/
theorem convert_eq_error {β : Type} {f : Double → β} :
    (match b.valueIn? a.units with
      | some value => Except.ok (f value)
      | none => .error (a.incompatible b)) = .error e ↔
    (∃ base, a.units.exponent base ≠ b.units.exponent base) ∧ e = a.incompatible b := by
  have hnone : b.valueIn? a.units = none ↔ ∃ base, a.units.exponent base ≠ b.units.exponent base :=
    by simp [Quantity.valueIn?_eq_none, ne_comm]
  rw [← hnone]
  cases b.valueIn? a.units <;> simp [eq_comm]

theorem equal?_eq_error :
    a.equal? b = .error e ↔ a.units.Mismatched b.units ∧ e = a.incompatible b := by
  unfold equal?
  by_cases h : a.isUnitless = b.isUnitless
  · rw [if_neg (by simp [h])]
    refine (convert_eq_error (f := a.value.near)).trans (and_congr_left fun _ => ?_)
    exact ⟨Units.mismatched_of_exponent_ne h, fun hm => hm.2.2⟩
  · have hnot : ¬ a.units.Mismatched b.units := fun hm => h (hm.1.trans hm.2.1.symm)
    simp [h, hnot]

theorem compare?_eq_error :
    a.compare? b = .error e ↔ a.units.Mismatched b.units ∧ e = a.incompatible b := by
  unfold compare?
  by_cases h : a.isUnitless = false ∧ b.isUnitless = false
  · rw [if_neg (by simp [h])]
    refine (convert_eq_error (f := order a.value)).trans (and_congr_left fun _ => ?_)
    exact ⟨fun hne => ⟨h.1, h.2, hne⟩, fun hm => hm.2.2⟩
  · have hnot : ¬ a.units.Mismatched b.units := fun hm => h ⟨hm.1, hm.2.1⟩
    have hplain : (a.isUnitless || b.isUnitless) = true := by
      by_contra hnone
      exact h (by simpa using hnone)
    simp [hplain, hnot]

end Number

end Stylesheet
