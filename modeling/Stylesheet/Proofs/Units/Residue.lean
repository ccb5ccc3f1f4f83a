import Mathlib.Data.Multiset.AddSub
import Stylesheet.Proofs.Units.Exponent

/-!
# What reducing leaves

**Theorem (`Units.reduce_residue`).** Reducing a compound unit leaves a part of each side, in the
order in which it was written, from which nothing more cancels. Exponents stay, a second reduction
does nothing, and there is a factor other than one only where identical units alone were not
enough.

The loops only ever drop units, so what they leave is a sublist, whichever units they drop. That a
second reduction does nothing needs no look at the pairs of the first: on units of which no base
stands on both sides (`Units.Apart`), each loop finds nothing to take, and the first reduction
leaves such units.

**The first loop.** It takes away what the two sides have in common. It goes through one side and
erases from the other, but how often a unit is left over is how much oftener it stands on its own
side than on the other one, so each side loses the other as a multiset
(`Units.coe_cancelIdentical`). The second loop gathers a factor only if these differences still
convert into each other.
-/

namespace Stylesheet

variable {α : Type} [Scale α]

theorem CssUnit.factorTo?_eq_none {u v : CssUnit} :
    (u.factorTo? v : Option α) = none ↔ u.base ≠ v.base := by
  rw [Ne, ← isSome_factorTo? (α := α), Option.not_isSome_iff_eq_none]

namespace Units

/-! ## Order -/

theorem cancelIdentical_sublist (ns ds : List CssUnit) :
    (cancelIdentical ns ds).numerators.Sublist ns ∧
      (cancelIdentical ns ds).denominators.Sublist ds := by
  induction ns generalizing ds with
  | nil => exact ⟨.refl _, .refl _⟩
  | cons n ns ih =>
    unfold cancelIdentical
    by_cases hn : n ∈ ds
    · rw [if_pos hn]
      obtain ⟨hnum, hden⟩ := ih (ds.erase n)
      exact ⟨hnum.cons n, hden.trans List.erase_sublist⟩
    · rw [if_neg hn]
      obtain ⟨hnum, hden⟩ := ih ds
      exact ⟨hnum.cons_cons n, hden⟩

theorem takeConvertible?_sublist {n : CssUnit} {ds rest : List CssUnit} {f : α}
    (h : takeConvertible? n ds = some (f, rest)) : rest.Sublist ds := by
  induction ds generalizing rest with
  | nil => cases h
  | cons d ds ih =>
    unfold takeConvertible? at h
    cases hd : (n.factorTo? d : Option α) with
    | some g =>
      rw [hd] at h
      cases h
      exact List.sublist_cons_self d ds
    | none =>
      rw [hd] at h
      obtain ⟨⟨g, rest'⟩, hrest, heq⟩ := Option.map_eq_some_iff.1 h
      cases heq
      exact (ih hrest).cons_cons d

theorem cancelConvertible_sublist (factor : α) (ns ds : List CssUnit) :
    (cancelConvertible factor ns ds).2.numerators.Sublist ns ∧
      (cancelConvertible factor ns ds).2.denominators.Sublist ds := by
  induction ns generalizing factor ds with
  | nil => exact ⟨.refl _, .refl _⟩
  | cons n ns ih =>
    unfold cancelConvertible
    cases htake : takeConvertible? (α := α) n ds with
    | none =>
      obtain ⟨hnum, hden⟩ := ih factor ds
      exact ⟨hnum.cons_cons n, hden⟩
    | some taken =>
      obtain ⟨f, rest⟩ := taken
      obtain ⟨hnum, hden⟩ := ih (factor * f) rest
      exact ⟨hnum.cons n, hden.trans (takeConvertible?_sublist htake)⟩

/-- What is left of each side stands in the order in which it was written. -/
theorem reduce_sublist (u : Units) :
    (u.reduce (α := α)).2.numerators.Sublist u.numerators ∧
      (u.reduce (α := α)).2.denominators.Sublist u.denominators := by
  obtain ⟨hnum, hden⟩ := cancelIdentical_sublist u.numerators u.denominators
  obtain ⟨hnum', hden'⟩ := cancelConvertible_sublist (1 : α)
    (cancelIdentical u.numerators u.denominators).numerators
    (cancelIdentical u.numerators u.denominators).denominators
  exact ⟨hnum'.trans hnum, hden'.trans hden⟩

/-! ## Units from which nothing cancels -/

theorem apart_reduce (u : Units) : (u.reduce (α := α)).2.Apart :=
  cancelConvertible_apart _ _ _

theorem cancelIdentical_of_disjoint {ns ds : List CssUnit} (h : ∀ n ∈ ns, n ∉ ds) :
    cancelIdentical ns ds = ⟨ns, ds⟩ := by
  induction ns with
  | nil => rfl
  | cons n ns ih =>
    have hrest := ih fun m hm => h m (List.mem_cons_of_mem n hm)
    rw [cancelIdentical, if_neg (h n List.mem_cons_self), hrest]

theorem takeConvertible?_of_base_ne {n : CssUnit} {ds : List CssUnit}
    (h : ∀ d ∈ ds, n.base ≠ d.base) : takeConvertible? (α := α) n ds = none := by
  induction ds with
  | nil => rfl
  | cons d ds ih =>
    have hrest := ih fun e he => h e (List.mem_cons_of_mem d he)
    have hd : (n.factorTo? d : Option α) = none :=
      CssUnit.factorTo?_eq_none.2 (h d List.mem_cons_self)
    rw [takeConvertible?, hd, hrest]
    rfl

theorem cancelConvertible_of_apart (factor : α) {ns ds : List CssUnit}
    (h : Apart ⟨ns, ds⟩) : cancelConvertible factor ns ds = (factor, ⟨ns, ds⟩) := by
  induction ns with
  | nil => rfl
  | cons n ns ih =>
    have htake : takeConvertible? (α := α) n ds = none :=
      takeConvertible?_of_base_ne (h n List.mem_cons_self)
    have hrest := ih fun m hm => h m (List.mem_cons_of_mem n hm)
    rw [cancelConvertible, htake, hrest]

/-- Reducing leaves units alone from which nothing cancels. -/
theorem reduce_of_apart {u : Units} (h : u.Apart) : u.reduce (α := α) = (1, u) := by
  have hdisjoint : ∀ n ∈ u.numerators, n ∉ u.denominators := fun n hn hd => h n hn n hd rfl
  rw [reduce, cancelIdentical_of_disjoint hdisjoint]
  exact cancelConvertible_of_apart 1 h

/-! ## What the sides have in common -/

/-- How often a unit is left over by the first loop. -/
theorem count_cancelIdentical (w : CssUnit) (ns ds : List CssUnit) :
    (cancelIdentical ns ds).numerators.count w = ns.count w - ds.count w ∧
      (cancelIdentical ns ds).denominators.count w = ds.count w - ns.count w := by
  induction ns generalizing ds with
  | nil => simp [cancelIdentical]
  | cons n ns ih =>
    unfold cancelIdentical
    by_cases hn : n ∈ ds
    · have hpos : 0 < ds.count n := List.count_pos_iff.2 hn
      obtain ⟨hnum, hden⟩ := ih (ds.erase n)
      rw [if_pos hn, hnum, hden]
      by_cases hw : n = w
      · subst hw
        simp only [List.count_erase_self, List.count_cons_self]
        omega
      · simp [List.count_erase_of_ne (Ne.symm hw), List.count_cons_of_ne hw]
    · have hzero : ds.count n = 0 := List.count_eq_zero_of_not_mem hn
      obtain ⟨hnum, hden⟩ := ih ds
      rw [if_neg hn]
      by_cases hw : n = w
      · subst hw
        simp only [List.count_cons_self, hnum, hden]
        omega
      · simp [List.count_cons_of_ne hw, hnum, hden]

/-- **The first loop takes from each side what the two have in common.** -/
theorem coe_cancelIdentical (ns ds : List CssUnit) :
    ((cancelIdentical ns ds).numerators : Multiset CssUnit) = (ns : Multiset CssUnit) - ds ∧
      ((cancelIdentical ns ds).denominators : Multiset CssUnit) =
        (ds : Multiset CssUnit) - ns := by
  constructor
  · ext w
    rw [Multiset.count_sub, Multiset.coe_count, Multiset.coe_count, Multiset.coe_count]
    exact (count_cancelIdentical w ns ds).1
  · ext w
    rw [Multiset.count_sub, Multiset.coe_count, Multiset.coe_count, Multiset.coe_count]
    exact (count_cancelIdentical w ns ds).2

/-- There is no factor where nothing converts once the common units are gone. -/
theorem reduce_fst_of_sub_apart {u : Units}
    (h : ∀ n ∈ (u.numerators : Multiset CssUnit) - u.denominators,
      ∀ d ∈ (u.denominators : Multiset CssUnit) - u.numerators, n.base ≠ d.base) :
    (u.reduce (α := α)).1 = 1 := by
  obtain ⟨hnum, hden⟩ := coe_cancelIdentical u.numerators u.denominators
  rw [← hnum, ← hden] at h
  have hapart : (cancelIdentical u.numerators u.denominators).Apart := fun n hn d hd =>
    h n (Multiset.mem_coe.2 hn) d (Multiset.mem_coe.2 hd)
  exact congrArg Prod.fst (cancelConvertible_of_apart (1 : α) hapart)

/-! ## The residue -/

/-- **Reducing cancels completely and keeps the rest**, over every type of scalars. -/
theorem reduce_residue (α : Type) [Scale α] (u : Units) :
    -- No numerator that is left converts into a denominator that is left.
    (∀ n ∈ (u.reduce (α := α)).2.numerators, ∀ d ∈ (u.reduce (α := α)).2.denominators,
      (n.factorTo? d : Option α) = none) ∧
    -- What is left stands in its order, and measures the same.
    (u.reduce (α := α)).2.numerators.Sublist u.numerators ∧
    (u.reduce (α := α)).2.denominators.Sublist u.denominators ∧
    (∀ b, (u.reduce (α := α)).2.exponent b = u.exponent b) ∧
    -- A second reduction does nothing.
    (u.reduce (α := α)).2.reduce = ((1 : α), (u.reduce (α := α)).2) ∧
    -- There is no factor where nothing converts once the common units are gone.
    ((∀ n ∈ (u.numerators : Multiset CssUnit) - u.denominators,
        ∀ d ∈ (u.denominators : Multiset CssUnit) - u.numerators,
          (n.factorTo? d : Option α) = none) →
      (u.reduce (α := α)).1 = 1) := by
  obtain ⟨hnum, hden⟩ := u.reduce_sublist (α := α)
  refine ⟨?complete, hnum, hden, exponent_reduce u, reduce_of_apart u.apart_reduce, ?factor⟩
  case complete => exact fun n hn d hd => CssUnit.factorTo?_eq_none.2 (u.apart_reduce n hn d hd)
  case factor =>
    intro h
    exact reduce_fst_of_sub_apart fun n hn d hd => CssUnit.factorTo?_eq_none.1 (h n hn d hd)

/-- Inches and pixels per pixel and second. The inch stands first, and would convert into the
pixel. -/
def inchesPerPixel : Units := ⟨[.inch, .px], [.px, .s]⟩

/-- The pixels cancel each other, so that the inch has nothing left to convert into. -/
theorem reduce_residue_inchesPerPixel :
    (∀ n ∈ (inchesPerPixel.numerators : Multiset CssUnit) - inchesPerPixel.denominators,
      ∀ d ∈ (inchesPerPixel.denominators : Multiset CssUnit) - inchesPerPixel.numerators,
        (n.factorTo? d : Option Double) = none) ∧
      inchesPerPixel.reduce = ((1 : Double), ⟨[.inch], [.s]⟩) := by
  have hnone : ∀ n ∈ (inchesPerPixel.numerators : Multiset CssUnit) - inchesPerPixel.denominators,
      ∀ d ∈ (inchesPerPixel.denominators : Multiset CssUnit) - inchesPerPixel.numerators,
        (n.factorTo? d : Option Double) = none := by
    decide +kernel
  have hfactor := (reduce_residue Double inchesPerPixel).2.2.2.2.2 hnone
  have hunits : (inchesPerPixel.reduce (α := Double)).2 = ⟨[.inch], [.s]⟩ := rfl
  exact ⟨hnone, Prod.ext hfactor hunits⟩

end Units

end Stylesheet
