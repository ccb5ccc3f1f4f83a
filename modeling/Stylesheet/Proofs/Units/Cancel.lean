import Mathlib.Data.List.Perm.Basic
import Stylesheet.Units.Conversion

/-!
# Cancelling units

Two units convert into each other exactly when they have one base (`CssUnit.isSome_factorTo?`):
the dimension of a unit with a fixed worth, the name of any other. Reducing a compound unit takes
away pairs of units of one base, one from each side, until no base stands on both sides.

**Theorem (`Units.reduce_cancels`).** Some list of pairs is what reducing takes away. Its factor
is the product of their ratios, and no further pair could be taken.

The two loops choose their pairs greedily, and identical units come first. What is said of compound
units afterwards needs the pairs only: a sum or a product over the units of one side is that over
the pairs and that over the rest (`Units.Cancels`), whichever pairs they are.
-/

namespace Stylesheet

variable {α : Type} [Scale α]

/-! ## Bases -/

/-- What a unit is counted by: its dimension if that is a known one, or else its name. -/
inductive Base where
  | known (dimension : Dimension)
  | named (name : String)
  deriving DecidableEq

/-- The dimension that a base measures. -/
def Base.dimension : Base → Dimension
  | .known d => d
  | .named _ => .incommensurable

namespace CssUnit

/-- What the unit is counted by. -/
def base : CssUnit → Base
  | .other name => .named name
  | u => .known u.dimension

theorem base_of_isKnown {u : CssUnit} (h : u.isKnown = true) : u.base = .known u.dimension := by
  cases u <;> simp_all [isKnown, base]

theorem exists_other_of_not_isKnown {u : CssUnit} (h : ¬ u.isKnown = true) :
    ∃ name, u = .other name := by
  cases u <;> simp_all [isKnown]

theorem isKnown_iff_dimension {u : CssUnit} :
    u.isKnown = true ↔ u.dimension ≠ .incommensurable := by
  cases u <;> simp [isKnown, dimension]

theorem base_canonical (u : CssUnit) : u.canonical.base = u.base := by
  cases u <;> rfl

theorem dimension_eq_of_base_eq {u v : CssUnit} (h : u.base = v.base) :
    u.dimension = v.dimension := by
  have hbase : ∀ w : CssUnit, w.dimension = w.base.dimension := fun w => by cases w <;> rfl
  rw [hbase u, h, ← hbase v]

theorem base_eq_base_iff {u v : CssUnit} :
    u.base = v.base ↔ u = v ∨ (u.isKnown = true ∧ u.dimension = v.dimension) := by
  constructor
  · intro h
    have hdim := dimension_eq_of_base_eq h
    by_cases hu : u.isKnown = true
    · exact .inr ⟨hu, hdim⟩
    · have hv : ¬ v.isKnown = true := by
        rwa [isKnown_iff_dimension, ← hdim, ← isKnown_iff_dimension]
      obtain ⟨a, rfl⟩ := exists_other_of_not_isKnown hu
      obtain ⟨b, rfl⟩ := exists_other_of_not_isKnown hv
      exact .inl (congrArg other (Base.named.inj h))
  · rintro (rfl | ⟨hu, hdim⟩)
    · rfl
    · have hv : v.isKnown = true := by rwa [isKnown_iff_dimension, ← hdim, ← isKnown_iff_dimension]
      rw [base_of_isKnown hu, base_of_isKnown hv, hdim]

/-- Units convert into each other exactly when they have one base. -/
theorem isSome_factorTo? {u v : CssUnit} :
    (u.factorTo? v : Option α).isSome = true ↔ u.base = v.base := by
  rw [base_eq_base_iff]
  unfold factorTo?
  split_ifs <;> simp_all

/-- How many of the second unit one of the first is. -/
def ratio (p : CssUnit × CssUnit) : α := (p.1.factorTo? p.2).getD 1

end CssUnit

namespace Units

/-! ## Taking pairs away -/

/-- What is left of `u` when the pairs, each of two units of one base, are taken away. -/
structure Cancels (u : Units) (pairs : List (CssUnit × CssUnit)) (v : Units) : Prop where
  numerators : u.numerators.Perm (pairs.map Prod.fst ++ v.numerators)
  denominators : u.denominators.Perm (pairs.map Prod.snd ++ v.denominators)
  base_eq : ∀ p ∈ pairs, p.1.base = p.2.base

/-- No base stands on both sides. -/
def Apart (u : Units) : Prop := ∀ n ∈ u.numerators, ∀ d ∈ u.denominators, n.base ≠ d.base

namespace Cancels

variable {u v w : Units} {pairs pairs' : List (CssUnit × CssUnit)} {ns ds : List CssUnit}
  {n d : CssUnit}

theorem refl (u : Units) : Cancels u [] u := ⟨.refl _, .refl _, fun _ h => by cases h⟩

theorem trans (h : Cancels u pairs v) (h' : Cancels v pairs' w) :
    Cancels u (pairs ++ pairs') w where
  numerators := by
    rw [List.map_append, List.append_assoc]
    exact h.numerators.trans (h'.numerators.append_left _)
  denominators := by
    rw [List.map_append, List.append_assoc]
    exact h.denominators.trans (h'.denominators.append_left _)
  base_eq p hp := (List.mem_append.1 hp).elim (h.base_eq p) (h'.base_eq p)

/-- One more numerator, with one of the denominators. -/
theorem cons (h : Cancels ⟨ns, ds⟩ pairs v) {ds' : List CssUnit} (hds : ds'.Perm (d :: ds))
    (hbase : n.base = d.base) : Cancels ⟨n :: ns, ds'⟩ ((n, d) :: pairs) v where
  numerators := h.numerators.cons n
  denominators := hds.trans (h.denominators.cons d)
  base_eq p hp := by
    rcases List.mem_cons.1 hp with rfl | hp
    · exact hbase
    · exact h.base_eq p hp

/-- One more numerator, which stays. -/
theorem keep (h : Cancels ⟨ns, ds⟩ pairs v) (n : CssUnit) :
    Cancels ⟨n :: ns, ds⟩ pairs ⟨n :: v.numerators, v.denominators⟩ where
  numerators := (h.numerators.cons n).trans List.perm_middle.symm
  denominators := h.denominators
  base_eq := h.base_eq

theorem mem_numerators (h : Cancels u pairs v) (hn : n ∈ v.numerators) : n ∈ u.numerators :=
  h.numerators.mem_iff.2 (List.mem_append_right _ hn)

theorem mem_denominators (h : Cancels u pairs v) (hd : d ∈ v.denominators) :
    d ∈ u.denominators :=
  h.denominators.mem_iff.2 (List.mem_append_right _ hd)

end Cancels

/-! ## The first loop -/

theorem cancelIdentical_cancels (ns ds : List CssUnit) :
    ∃ us : List CssUnit, Cancels ⟨ns, ds⟩ (us.map fun w => (w, w)) (cancelIdentical ns ds) := by
  induction ns generalizing ds with
  | nil => exact ⟨[], .refl _⟩
  | cons n ns ih =>
    unfold cancelIdentical
    by_cases hn : n ∈ ds
    · rw [if_pos hn]
      obtain ⟨us, h⟩ := ih (ds.erase n)
      exact ⟨n :: us, h.cons (List.perm_cons_erase hn) rfl⟩
    · rw [if_neg hn]
      obtain ⟨us, h⟩ := ih ds
      exact ⟨us, h.keep n⟩

/-! ## The second loop -/

theorem takeConvertible?_eq_some {n : CssUnit} {ds rest : List CssUnit} {f : α}
    (h : takeConvertible? n ds = some (f, rest)) :
    ∃ d, n.factorTo? d = some f ∧ ds.Perm (d :: rest) := by
  induction ds generalizing rest with
  | nil => cases h
  | cons d ds ih =>
    unfold takeConvertible? at h
    cases hd : (n.factorTo? d : Option α) with
    | some g =>
      rw [hd] at h
      cases h
      exact ⟨d, hd, .refl _⟩
    | none =>
      rw [hd] at h
      obtain ⟨⟨g, rest'⟩, hrest, heq⟩ := Option.map_eq_some_iff.1 h
      cases heq
      obtain ⟨d', hd', hperm⟩ := ih hrest
      exact ⟨d', hd', (hperm.cons d).trans (.swap d' d rest')⟩

theorem takeConvertible?_eq_none {n : CssUnit} {ds : List CssUnit}
    (h : takeConvertible? (α := α) n ds = none) : ∀ d ∈ ds, n.base ≠ d.base := by
  induction ds with
  | nil => exact fun _ hd => by cases hd
  | cons d ds ih =>
    unfold takeConvertible? at h
    cases hd : (n.factorTo? d : Option α) with
    | some g =>
      rw [hd] at h
      cases h
    | none =>
      rw [hd, Option.map_eq_none_iff] at h
      have hne : n.base ≠ d.base := fun hbase => by
        have := CssUnit.isSome_factorTo? (α := α).2 hbase
        rw [hd] at this
        cases this
      intro d' hd'
      rcases List.mem_cons.1 hd' with rfl | hd'
      · exact hne
      · exact ih h d' hd'

/-- The factor multiplied by the ratios of pairs, from the left. -/
def timesRatios (factor : α) (pairs : List (CssUnit × CssUnit)) : α :=
  pairs.foldl (fun f p => f * CssUnit.ratio p) factor

theorem cancelConvertible_cancels (factor : α) (ns ds : List CssUnit) :
    ∃ pairs, Cancels ⟨ns, ds⟩ pairs (cancelConvertible factor ns ds).2 ∧
      (cancelConvertible factor ns ds).1 = timesRatios factor pairs := by
  induction ns generalizing factor ds with
  | nil => exact ⟨[], .refl _, rfl⟩
  | cons n ns ih =>
    unfold cancelConvertible
    cases htake : takeConvertible? (α := α) n ds with
    | none =>
      obtain ⟨pairs, h, hfactor⟩ := ih factor ds
      exact ⟨pairs, h.keep n, hfactor⟩
    | some taken =>
      obtain ⟨f, rest⟩ := taken
      obtain ⟨d, hd, hperm⟩ := takeConvertible?_eq_some htake
      obtain ⟨pairs, h, hfactor⟩ := ih (factor * f) rest
      have hbase : n.base = d.base := CssUnit.isSome_factorTo? (α := α).1 (by rw [hd]; rfl)
      have hratio : CssUnit.ratio (n, d) = f := by rw [CssUnit.ratio, hd]; rfl
      refine ⟨(n, d) :: pairs, h.cons hperm hbase, ?_⟩
      rw [timesRatios, List.foldl_cons, hratio]
      exact hfactor

theorem cancelConvertible_apart (factor : α) (ns ds : List CssUnit) :
    (cancelConvertible factor ns ds).2.Apart := by
  induction ns generalizing factor ds with
  | nil => exact fun _ h => by cases h
  | cons n ns ih =>
    unfold cancelConvertible
    cases htake : takeConvertible? (α := α) n ds with
    | none =>
      -- The denominators that are left were there when `n` found none to convert to.
      obtain ⟨pairs, h, -⟩ := cancelConvertible_cancels factor ns ds
      intro m hm d hd
      rcases List.mem_cons.1 hm with rfl | hm
      · exact takeConvertible?_eq_none htake d (h.mem_denominators hd)
      · exact ih factor ds m hm d hd
    | some taken => exact ih (factor * taken.1) taken.2

/-! ## Reducing -/

/-- **Reducing takes pairs away until no base stands on both sides**, and its factor is the product
of the ratios of the pairs that are not identical. -/
theorem reduce_cancels (u : Units) :
    ∃ (us : List CssUnit) (pairs : List (CssUnit × CssUnit)),
      Cancels u ((us.map fun w => (w, w)) ++ pairs) (u.reduce (α := α)).2 ∧
      (u.reduce (α := α)).1 = timesRatios 1 pairs ∧ (u.reduce (α := α)).2.Apart := by
  obtain ⟨us, hidentical⟩ := cancelIdentical_cancels u.numerators u.denominators
  let once := cancelIdentical u.numerators u.denominators
  obtain ⟨pairs, hconvertible, hfactor⟩ :=
    cancelConvertible_cancels (1 : α) once.numerators once.denominators
  exact ⟨us, pairs, hidentical.trans hconvertible, hfactor, cancelConvertible_apart _ _ _⟩

end Units

end Stylesheet
