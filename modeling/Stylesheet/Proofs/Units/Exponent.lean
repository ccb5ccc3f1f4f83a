import Mathlib.Data.List.Sort
import Mathlib.Data.Prod.Lex
import Mathlib.Data.String.Basic
import Stylesheet.Proofs.Units.Cancel

/-!
# Exponents and canonical units

The net exponent of a base in a compound unit is the number of its units that multiply less the
number of those that divide. Exponents are what a compound unit measures, whatever the words.

**Theorem (`Units.canonical_characterizes`).** Two compound units have the same canonical units
exactly when all their exponents agree, and convert into each other exactly then. Exponents add up
in a product and are taken off in a quotient, so everything that is said of products and quotients
up to compatibility follows from arithmetic of integers.

Taking pairs away changes no exponent (`Units.Cancels.exponent_eq`), and neither does writing the
canonical unit for a known one. What normalizing leaves has one unit for each base, on one side
only, in a fixed order (`Units.IsCanonical`). Such a list is determined by the exponents
(`Units.IsCanonical.eq_of_exponent_eq`): each unit stands as often as its exponent says, on the
side that the sign says, and the order leaves no choice. So nothing has to be known of the pairs
that the loops happen to choose.
-/

namespace Stylesheet

/-! ## Counting -/

/-- How many units of a base stand in a list. -/
def countBase (b : Base) (us : List CssUnit) : Nat := us.countP fun u => decide (u.base = b)

theorem countBase_append (b : Base) (us vs : List CssUnit) :
    countBase b (us ++ vs) = countBase b us + countBase b vs :=
  List.countP_append

theorem countBase_eq_of_perm {us vs : List CssUnit} (h : us.Perm vs) (b : Base) :
    countBase b us = countBase b vs :=
  h.countP_eq _

theorem countBase_map_canonical (b : Base) (us : List CssUnit) :
    countBase b (us.map CssUnit.canonical) = countBase b us := by
  unfold countBase
  rw [List.countP_map]
  refine List.countP_congr fun u _ => ?_
  rw [Function.comp_apply, CssUnit.base_canonical]

/-- The two sides of a list of pairs of one base have as many units of each base. -/
theorem countBase_pairs {pairs : List (CssUnit × CssUnit)} (h : ∀ p ∈ pairs, p.1.base = p.2.base)
    (b : Base) : countBase b (pairs.map Prod.fst) = countBase b (pairs.map Prod.snd) := by
  unfold countBase
  rw [List.countP_map, List.countP_map]
  refine List.countP_congr fun p hp => ?_
  rw [Function.comp_apply, Function.comp_apply, h p hp]

namespace Units

/-! ## Exponents -/

/-- The net exponent of a base: how many of its units multiply, less how many divide. -/
def exponent (u : Units) (b : Base) : Int :=
  (countBase b u.numerators : Int) - countBase b u.denominators

@[simp] theorem exponent_mul (u v : Units) (b : Base) :
    (u * v).exponent b = u.exponent b + v.exponent b := by
  show (countBase b (u.numerators ++ v.numerators) : Int) -
    countBase b (u.denominators ++ v.denominators) = _
  rw [countBase_append, countBase_append]
  unfold exponent
  omega

@[simp] theorem exponent_div (u v : Units) (b : Base) :
    (u / v).exponent b = u.exponent b - v.exponent b := by
  show (countBase b (u.numerators ++ v.denominators) : Int) -
    countBase b (u.denominators ++ v.numerators) = _
  rw [countBase_append, countBase_append]
  unfold exponent
  omega

/-- Taking pairs away changes no exponent. -/
theorem Cancels.exponent_eq {u v : Units} {pairs : List (CssUnit × CssUnit)}
    (h : Cancels u pairs v) (b : Base) : v.exponent b = u.exponent b := by
  have hnum := countBase_eq_of_perm h.numerators b
  have hden := countBase_eq_of_perm h.denominators b
  have hpairs := countBase_pairs h.base_eq b
  rw [countBase_append] at hnum hden
  unfold exponent
  omega

@[simp] theorem exponent_reduce {α : Type} [Scale α] (u : Units) (b : Base) :
    (u.reduce (α := α)).2.exponent b = u.exponent b := by
  obtain ⟨us, pairs, h, -, -⟩ := u.reduce_cancels (α := α)
  exact h.exponent_eq b

end Units

/-! ## The order of units -/

namespace CssUnit

/-- What the order of units compares. -/
def key (u : CssUnit) : ℕ ×ₗ String := toLex (u.rank, u.otherName)

/-- The unit of a key. -/
def ofKey (k : ℕ ×ₗ String) : CssUnit :=
  [inch, cm, pica, mm, point, px, q, deg, grad, rad, turn, s, ms, hz, khz, dpi, dpcm,
    dppx].getD (ofLex k).1 (.other (ofLex k).2)

theorem ofKey_key (u : CssUnit) : ofKey u.key = u := by
  cases u <;> rfl

theorem key_injective : Function.Injective key := Function.LeftInverse.injective ofKey_key

theorem ordered_iff_key_le {u v : CssUnit} : u.ordered v = true ↔ u.key ≤ v.key := by
  have hname : (compare u.otherName v.otherName).isLE = true ↔ u.otherName ≤ v.otherName :=
    Std.LawfulBCmp.isLE_iff_le
  rw [Prod.Lex.le_iff]
  show ((compare u.rank v.rank).then (compare u.otherName v.otherName)).isLE = true ↔ _
  rcases lt_trichotomy u.rank v.rank with h | h | h
  · simp [Nat.compare_eq_lt.2 h, key, h]
  · simp [h, key, hname]
  · simp [Nat.compare_eq_gt.2 h, key, h.ne', h.le]

instance : Std.Total fun u v : CssUnit => u.ordered v = true where
  total u v := by simpa only [ordered_iff_key_le] using le_total u.key v.key

instance : IsTrans CssUnit fun u v => u.ordered v = true where
  trans _ _ _ := by simpa only [ordered_iff_key_le] using le_trans

instance : Std.Antisymm fun u v : CssUnit => u.ordered v = true where
  antisymm _ _ huv hvu :=
    key_injective (le_antisymm (ordered_iff_key_le.1 huv) (ordered_iff_key_le.1 hvu))

end CssUnit

namespace Units

theorem insertOrdered_eq (u : CssUnit) (vs : List CssUnit) :
    insertOrdered u vs = vs.orderedInsert (fun v w => v.ordered w = true) u := by
  induction vs with
  | nil => rfl
  | cons v vs ih => rw [insertOrdered, List.orderedInsert, ih]

theorem sorted_eq (us : List CssUnit) :
    sorted us = us.insertionSort fun v w => v.ordered w = true := by
  unfold sorted List.insertionSort
  congr 1
  funext u vs
  exact insertOrdered_eq u vs

theorem perm_sorted (us : List CssUnit) : (sorted us).Perm us := by
  rw [sorted_eq]
  exact List.perm_insertionSort _ us

theorem pairwise_sorted (us : List CssUnit) :
    (sorted us).Pairwise fun v w => v.ordered w = true := by
  rw [sorted_eq]
  exact List.pairwise_insertionSort _ us

/-! ## Canonical form -/

/-- Units as normalizing leaves them: canonical units, and others without a fixed worth, none of
them on both sides, in their order. -/
structure IsCanonical (u : Units) : Prop where
  canonical : ∀ w ∈ u.numerators ++ u.denominators,
    w.dimension.canonical? = some w ∨ ∃ name, w = .other name
  disjoint : ∀ w ∈ u.numerators, w ∉ u.denominators
  numerators_sorted : u.numerators.Pairwise fun v w => v.ordered w = true
  denominators_sorted : u.denominators.Pairwise fun v w => v.ordered w = true

end Units

theorem CssUnit.canonical_canonical (u : CssUnit) :
    u.canonical.dimension.canonical? = some u.canonical ∨ ∃ name, u.canonical = .other name := by
  cases u with
  | other name => exact .inr ⟨name, rfl⟩
  | _ => exact .inl rfl

theorem CssUnit.canonical_eq_self {u : CssUnit}
    (h : u.dimension.canonical? = some u ∨ ∃ name, u = .other name) : u.canonical = u := by
  rcases h with h | ⟨name, rfl⟩
  · rw [canonical, h, Option.getD_some]
  · rfl

theorem CssUnit.canonical_eq_of_base_eq {u v : CssUnit} (h : u.base = v.base) :
    u.canonical = v.canonical := by
  rcases base_eq_base_iff.1 h with rfl | ⟨hu, hdim⟩
  · rfl
  · have hknown := isKnown_iff_dimension.1 hu
    unfold canonical
    rw [← hdim]
    cases hd : u.dimension <;> first | rfl | exact absurd hd hknown

namespace Units

/-- Among canonical units, a unit is counted by its base. -/
theorem countBase_eq_count {us : List CssUnit} {w : CssUnit} (hus : ∀ v ∈ us, v.canonical = v)
    (hw : w.canonical = w) : countBase w.base us = us.count w := by
  refine List.countP_congr fun v hv => ?_
  rw [decide_eq_true_iff, beq_iff_eq]
  refine ⟨fun h => ?_, congrArg CssUnit.base⟩
  rw [← hus v hv, CssUnit.canonical_eq_of_base_eq h, hw]

namespace IsCanonical

variable {u v : Units}

theorem canonical_eq_self (hu : u.IsCanonical) {w : CssUnit}
    (hw : w ∈ u.numerators ++ u.denominators) : w.canonical = w :=
  CssUnit.canonical_eq_self (hu.canonical w hw)

theorem exponent_eq_count (hu : u.IsCanonical) {w : CssUnit} (hw : w.canonical = w) :
    u.exponent w.base = (u.numerators.count w : Int) - u.denominators.count w := by
  have hnum : ∀ v ∈ u.numerators, v.canonical = v := fun v hv =>
    hu.canonical_eq_self (List.mem_append_left _ hv)
  have hden : ∀ v ∈ u.denominators, v.canonical = v := fun v hv =>
    hu.canonical_eq_self (List.mem_append_right _ hv)
  rw [exponent, countBase_eq_count hnum hw, countBase_eq_count hden hw]

theorem count_eq_zero (hu : u.IsCanonical) (w : CssUnit) :
    u.numerators.count w = 0 ∨ u.denominators.count w = 0 := by
  by_cases hw : w ∈ u.numerators
  · exact .inr (List.count_eq_zero_of_not_mem (hu.disjoint w hw))
  · exact .inl (List.count_eq_zero_of_not_mem hw)

/-- The exponents say how often each unit stands on each side. -/
theorem count_eq (hu : u.IsCanonical) (hv : v.IsCanonical)
    (h : ∀ b, u.exponent b = v.exponent b) (w : CssUnit) :
    u.numerators.count w = v.numerators.count w ∧
      u.denominators.count w = v.denominators.count w := by
  by_cases hw : w.canonical = w
  · have hexp := h w.base
    rw [hu.exponent_eq_count hw, hv.exponent_eq_count hw] at hexp
    rcases hu.count_eq_zero w with hu0 | hu0 <;> rcases hv.count_eq_zero w with hv0 | hv0 <;> omega
  · have hnot : ∀ {x : Units}, x.IsCanonical →
        x.numerators.count w = 0 ∧ x.denominators.count w = 0 := fun hx =>
      ⟨List.count_eq_zero_of_not_mem fun hmem =>
          hw (hx.canonical_eq_self (List.mem_append_left _ hmem)),
        List.count_eq_zero_of_not_mem fun hmem =>
          hw (hx.canonical_eq_self (List.mem_append_right _ hmem))⟩
    rw [(hnot hu).1, (hnot hu).2, (hnot hv).1, (hnot hv).2]
    exact ⟨rfl, rfl⟩

/-- Canonical units are determined by their exponents. -/
theorem eq_of_exponent_eq (hu : u.IsCanonical) (hv : v.IsCanonical)
    (h : ∀ b, u.exponent b = v.exponent b) : u = v := by
  have hnum : u.numerators = v.numerators := List.Perm.eq_of_pairwise' hu.numerators_sorted
    hv.numerators_sorted (List.perm_iff_count.2 fun w => (hu.count_eq hv h w).1)
  have hden : u.denominators = v.denominators := List.Perm.eq_of_pairwise' hu.denominators_sorted
    hv.denominators_sorted (List.perm_iff_count.2 fun w => (hu.count_eq hv h w).2)
  cases u
  cases v
  exact congrArg₂ Units.mk hnum hden

end IsCanonical

/-! ## Normalizing -/

section Normalize

variable {α : Type} [Scale α]

/-- The units with the canonical one in place of each. -/
def mapCanonical (u : Units) : Units :=
  ⟨u.numerators.map CssUnit.canonical, u.denominators.map CssUnit.canonical⟩

theorem normalize_snd (u : Units) : (u.normalize (α := α)).2 =
    ⟨sorted (u.mapCanonical.reduce (α := α)).2.numerators,
      sorted (u.mapCanonical.reduce (α := α)).2.denominators⟩ := rfl

@[simp] theorem exponent_normalize (u : Units) (b : Base) :
    (u.normalize (α := α)).2.exponent b = u.exponent b := by
  have hmap : u.mapCanonical.exponent b = u.exponent b := by
    show (countBase b (u.numerators.map _) : Int) - countBase b (u.denominators.map _) = _
    rw [countBase_map_canonical, countBase_map_canonical, exponent]
  rw [normalize_snd, ← hmap, ← exponent_reduce (α := α) u.mapCanonical]
  unfold exponent
  rw [countBase_eq_of_perm (perm_sorted _), countBase_eq_of_perm (perm_sorted _)]

theorem isCanonical_normalize (u : Units) : (u.normalize (α := α)).2.IsCanonical := by
  obtain ⟨us, pairs, hcancels, -, hapart⟩ := u.mapCanonical.reduce_cancels (α := α)
  rw [normalize_snd]
  refine ⟨fun w hw => ?_, fun w hnum hden => ?_, pairwise_sorted _, pairwise_sorted _⟩
  · -- What is left was there before, and all that was there is canonical.
    have hmem : w ∈ u.mapCanonical.numerators ++ u.mapCanonical.denominators := by
      rw [List.mem_append, (perm_sorted _).mem_iff, (perm_sorted _).mem_iff] at hw
      rw [List.mem_append]
      exact hw.imp hcancels.mem_numerators hcancels.mem_denominators
    obtain ⟨v, rfl⟩ : ∃ v : CssUnit, v.canonical = w := by
      rcases List.mem_append.1 hmem with h | h
      all_goals
        obtain ⟨v, -, hv⟩ := List.mem_map.1 h
        exact ⟨v, hv⟩
    exact v.canonical_canonical
  · exact hapart w ((perm_sorted _).mem_iff.1 hnum) w ((perm_sorted _).mem_iff.1 hden) rfl

/-- Units normalize to the same exactly when their exponents agree. -/
theorem normalize_eq_iff {u v : Units} :
    (u.normalize (α := α)).2 = (v.normalize (α := α)).2 ↔ ∀ b, u.exponent b = v.exponent b := by
  constructor
  · intro h b
    rw [← exponent_normalize (α := α) u b, h, exponent_normalize]
  · intro h
    refine (isCanonical_normalize u).eq_of_exponent_eq (isCanonical_normalize v) fun b => ?_
    rw [exponent_normalize, exponent_normalize, h b]

theorem isCompatible_iff {u v : Units} :
    u.isCompatible v = true ↔ ∀ b, u.exponent b = v.exponent b := by
  unfold isCompatible canonical
  rw [beq_iff_eq, normalize_eq_iff]

theorem factorTo?_eq (u v : Units) : (u.factorTo? v : Option α) =
    if u.isCompatible v = true then some ((u.normalize (α := α)).1 / (v.normalize (α := α)).1)
    else none := by
  simp only [factorTo?, isCompatible_iff, ← normalize_eq_iff (α := α)]

end Normalize

/-! ## What canonical units say -/

/-- **Canonical units characterize what compound units measure**: two compound units have the same
ones, and convert into each other, exactly when the exponents of every base agree. -/
theorem canonical_characterizes (α : Type) [Scale α] (u v : Units) :
    (u.isCompatible v = true ↔ ∀ b, u.exponent b = v.exponent b) ∧
      ((u.factorTo? v : Option α).isSome = true ↔ ∀ b, u.exponent b = v.exponent b) ∧
      u.canonical.IsCanonical ∧
      u.canonical.canonical = u.canonical ∧
      (u.reduce (α := α)).2.isCompatible u = true ∧
      (∀ b, (u * v).exponent b = u.exponent b + v.exponent b) ∧
      (∀ b, (u / v).exponent b = u.exponent b - v.exponent b) ∧
      (u * v).isCompatible (v * u) = true ∧
      (u * v / v).isCompatible u = true := by
  refine ⟨isCompatible_iff, ?factor, isCanonical_normalize u, ?idempotent, ?reduced,
    exponent_mul u v, exponent_div u v, ?comm, ?cancel⟩
  case factor =>
    rw [factorTo?_eq, ← isCompatible_iff]
    split_ifs with h <;> simp [h]
  case idempotent =>
    exact normalize_eq_iff.2 fun b => exponent_normalize u b
  case reduced => exact isCompatible_iff.2 fun b => exponent_reduce u b
  case comm =>
    refine isCompatible_iff.2 fun b => ?_
    rw [exponent_mul, exponent_mul, Int.add_comm]
  case cancel =>
    refine isCompatible_iff.2 fun b => ?_
    rw [exponent_div, exponent_mul, Int.add_sub_cancel]

/-- Milliseconds cancel with seconds, and the `em` has no worth in other units. -/
example : canonical ⟨[.ms, .inch], [.other "em", .s]⟩ = ⟨[.px], [.other "em"]⟩ := by
  decide +kernel

end Units

end Stylesheet
