import Mathlib.Data.List.Perm.Basic
import Stylesheet.Proofs.Map.Insertion

/-!
# Maps are equal when all lookups agree

**Theorem (`MapOf.beq_iff_lookups_agree`).** Two maps that pairs were put into are equal exactly
when every key finds equal values in both, or a value in neither. So the order in which pairs with
unequal keys are put makes no difference to equality, nor to the digest. It is so whatever digests
the keys and values carry.

Equality asks for equally many entries and looks up the keys of the left map only. That every other
key agrees too comes from the matching behind it (`Entries.beqBy_iff_matched`): an entry of the
right has a partner on the left. In the other direction the two counts have to be compared, and
each side finds as many entries on the other as it has keys (`Entries.length_le_of_all_found`).
-/

namespace Stylesheet

variable {α κ : Type}

namespace Entries

variable {test : κ → κ → Bool} {eq : α → α → Bool} {p : κ → Prop} {as bs : List (κ × α)}

/-! ## Lookups in entries -/

/-- Unequal keys that are all found find as many entries as they are. -/
theorem length_le_of_all_found
    (hdisjoint : as.Pairwise fun e f => ∀ g ∈ bs, test e.1 g.1 = true → test f.1 g.1 = false)
    (hfound : ∀ e ∈ as, (find? (test e.1) bs).isSome = true) : as.length ≤ bs.length := by
  have hany : ∀ e ∈ as, (find? (test e.1) bs).any (fun _ => true) = true := fun e he => by
    obtain ⟨v, hv⟩ := Option.isSome_iff_exists.1 (hfound e he)
    rw [hv]
    rfl
  obtain ⟨cs, rest, hperm, heq⟩ : ∃ cs rest, (cs ++ rest).Perm bs ∧
      as.isEqv cs (entryBeq test fun _ _ => true) = true :=
    exists_perm_of_all_found hdisjoint hany
  have hsides := hperm.length_eq
  rw [List.length_append, ← (isEqv_iff_forall₂.1 heq).length_eq] at hsides
  omega

/-- A key finds its own entry, where no other key equals it. -/
theorem find?_self (hK : KeyEq test p) (has : ∀ e ∈ as, p e.1) (hapart : Apart test as)
    {e : κ × α} (he : e ∈ as) : find? (test e.1) as = some e.2 := by
  have hself : test e.1 e.1 = true := hK.self e.1 (has e he)
  cases hfind : find? (test e.1) as with
  | none => exact absurd hself (List.find?_eq_none.1 (Option.map_eq_none_iff.1 hfind) e he)
  | some v =>
    obtain ⟨l, f, r, has', hef, rfl, -⟩ := find?_eq_some hfind
    have hf : f ∈ as := by simp [has']
    have hfe : test f.1 e.1 = true := (hK.comm (has f hf) (has e he)).trans hef
    rw [hapart.eq_of_test he hf hef hfe]

/-- **Entries are equal in any order exactly when all lookups agree.** -/
theorem beqBy_iff_find? (hK : KeyEq test p) (has : ∀ e ∈ as, p e.1) (hbs : ∀ e ∈ bs, p e.1)
    (hapart : Apart test as) (hapart' : Apart test bs) :
    beqBy test eq as bs = true ↔
      ∀ k, p k → Option.Rel (fun v w => eq v w = true) (find? (test k) as) (find? (test k) bs) := by
  have hexas : ∀ e ∈ as, Exchanges test p e.1 := fun e he => hK.exchanges e.1 (has e he)
  have hexbs : ∀ e ∈ bs, Exchanges test p e.1 := fun e he => hK.exchanges e.1 (hbs e he)
  constructor
  · intro hbeq k hk
    have hmatched := (beqBy_iff_matched hexas has hbs hapart hapart').1 hbeq
    cases hfind : find? (test k) as with
    | some v =>
      obtain ⟨l, e, r, has', hke, rfl, -⟩ := find?_eq_some hfind
      have he : e ∈ as := by simp [has']
      obtain ⟨w, hw, hvw⟩ := (Option.any_eq_true _ _).1
        (List.all_eq_true.1 (Bool.and_eq_true_iff.1 hbeq).2 e he)
      -- `k` equals the key of the entry, so it finds the same on the right.
      rw [find?_congr fun f hf => hK.congr hk (has e he) hke (hbs f hf), hw]
      exact .some hvw
    | none =>
      cases hother : find? (test k) bs with
      | none => exact .none
      | some w =>
        -- The partner of what is found on the right would be found on the left.
        obtain ⟨l, f, r, hbs', hkf, rfl, -⟩ := find?_eq_some hother
        have hf : f ∈ bs := by simp [hbs']
        obtain ⟨e, he, hef, -⟩ := hmatched.exists_of_mem hf
        have hke : test k e.1 = true := by
          rw [hK.congr hk (hbs f hf) hkf (has e he), hK.comm (hbs f hf) (has e he), hef]
        exact absurd hke (List.find?_eq_none.1 (Option.map_eq_none_iff.1 hfind) e he)
  · intro hagree
    have hfound : ∀ e ∈ as, (find? (test e.1) bs).any (eq e.2) = true := fun e he => by
      have h := hagree e.1 (has e he)
      rw [find?_self hK has hapart he] at h
      cases hfind : find? (test e.1) bs with
      | none => rw [hfind] at h; cases h
      | some w => rw [hfind] at h; cases h with | some hvw => exact hvw
    have hback : ∀ f ∈ bs, (find? (test f.1) as).isSome = true := fun f hf => by
      have h := hagree f.1 (hbs f hf)
      rw [find?_self hK hbs hapart' hf] at h
      cases hfind : find? (test f.1) as with
      | none => rw [hfind] at h; cases h
      | some v => rfl
    have hle := length_le_of_all_found (hapart.disjoint hexas has hbs) fun e he => by
      obtain ⟨w, hw, -⟩ := (Option.any_eq_true _ _).1 (hfound e he)
      rw [hw]
      rfl
    have hge := length_le_of_all_found (hapart'.disjoint hexbs hbs has) hback
    exact Bool.and_eq_true_iff.2
      ⟨beq_iff_eq.2 (Nat.le_antisymm hle hge), List.all_eq_true.2 hfound⟩

/-- Keys that are pairwise unequal are so in every order. -/
theorem Apart.perm (hK : KeyEq test p) (has : ∀ e ∈ as, p e.1) (hperm : as.Perm bs)
    (hapart : Apart test as) : Apart test bs := by
  have hboth : as.Pairwise fun e f => test e.1 f.1 = false ∧ test f.1 e.1 = false :=
    hapart.imp_of_mem fun {e f} he hf hne => ⟨hne, (hK.comm (has f hf) (has e he)).trans hne⟩
  exact ((hperm.pairwise_iff fun h => h.symm).1 hboth).imp fun h => h.1

/-- A list of entries equals itself in every order. -/
theorem beqBy_of_perm (hK : KeyEq test p) (has : ∀ e ∈ as, p e.1 ∧ eq e.2 e.2 = true)
    (hapart : Apart test as) (hperm : as.Perm bs) : beqBy test eq as bs = true := by
  have hkeys : ∀ e ∈ as, p e.1 := fun e he => (has e he).1
  refine (beqBy_iff_matched (fun e he => hK.exchanges e.1 (hkeys e he)) hkeys
    (fun e he => hkeys e (hperm.mem_iff.2 he)) hapart (hapart.perm hK hkeys hperm)).2 ?_
  obtain ⟨cs, hcs, heq⟩ : Matched test eq as as :=
    .refl fun e he => ⟨hK.self e.1 (hkeys e he), (has e he).2⟩
  exact ⟨cs, hcs.trans hperm, heq⟩

end Entries

/-! ## Maps -/

section Hashed

variable [Hasher]

namespace MapOf

/-- Well-formed maps are equal exactly when all lookups agree. -/
theorem beq_iff_get? {a b : MapOf Value} (ha : (Value.map a).WellFormed)
    (hb : (Value.map b).WellFormed) : (Value.map a).beq (.map b) = true ↔
      ∀ k : Value, k.WellFormed →
        Option.Rel (fun v w => v.beq w = true) (a.get? k) (b.get? k) := by
  rw [Value.beq_eq_beqBy_node]
  exact Entries.beqBy_iff_find? Value.keyEq_meets (fun e he => ha.part e.1 (key_mem_parts he))
    (fun e he => hb.part e.1 (key_mem_parts he)) ha.here hb.here

/-- The digest of a map does not show the order of its entries. -/
theorem digest_eq_of_perm {a b : MapOf Value} (ha : a.memo = none) (hb : b.memo = none)
    (hperm : a.entries.Perm b.entries) : (Value.map a).digest = (Value.map b).digest := by
  have hsum : Digest.sum (a.entries.map (entryDigest Value.digest)) =
      Digest.sum (b.entries.map (entryDigest Value.digest)) := (hperm.map _).foldr_eq 0
  rw [Value.digest_map, Value.digest_map, digest, digest, ha, hb, Memo.read_none, Memo.read_none,
    Value.words_map, Value.words_map, wordsBy, wordsBy, hperm.length_eq, hsum]

/-- **Maps that pairs were put into are equal exactly when every key finds equal values in both, or
none in both.** Put in another order, pairs with unequal keys make an equal map of equal digest. -/
theorem beq_iff_lookups_agree (span span' : Span) {pairs pairs' : List (Value × Value)}
    (h : ∀ e ∈ pairs, e.1.WellFormed ∧ e.2.WellFormed)
    (h' : ∀ e ∈ pairs', e.1.WellFormed ∧ e.2.WellFormed) :
    let a := ofPairs span pairs
    let b := ofPairs span' pairs'
    ((Value.map a).beq (.map b) = true ↔ ∀ k : Value, k.WellFormed →
      Option.Rel (fun v w => v.beq w = true) (a.get? k) (b.get? k)) ∧
    (pairs.Perm pairs' → Entries.Apart Value.beq pairs →
      (Value.map a).beq (.map b) = true ∧ (Value.map a).digest = (Value.map b).digest) := by
  intro a b
  refine ⟨beq_iff_get? (Value.wellFormed_ofPairs span h) (Value.wellFormed_ofPairs span' h'), ?_⟩
  intro hperm hunequal
  have hkeys : ∀ e ∈ pairs, e.1.WellFormed := fun e he => (h e he).1
  have hkeys' : ∀ e ∈ pairs', e.1.WellFormed := fun e he => (h' e he).1
  -- Unequal keys do not meet, so the maps hold the pairs as they were put.
  have hapart : Entries.Apart Value.meets pairs :=
    hunequal.imp fun hne => Bool.eq_false_iff.2 fun hmeets =>
      Bool.eq_false_iff.1 hne (Value.beq_of_meets hmeets)
  have hapart' : Entries.Apart Value.meets pairs' := hapart.perm Value.keyEq_meets hkeys hperm
  have hentries : a.entries = pairs := by
    rw [entries_ofPairs span hkeys, Entries.association_of_apart Value.keyEq_meets hkeys hapart]
  have hentries' : b.entries = pairs' := by
    rw [entries_ofPairs span' hkeys', Entries.association_of_apart Value.keyEq_meets hkeys' hapart']
  constructor
  · rw [Value.beq_eq_beqBy_node]
    show Entries.beqBy Value.meets Value.beq a.entries b.entries = true
    rw [hentries, hentries']
    exact Entries.beqBy_of_perm Value.keyEq_meets
      (fun e he => ⟨hkeys e he, e.2.beq_self (h e he).2⟩) hapart hperm
  · refine digest_eq_of_perm (memo_ofPairs span pairs) (memo_ofPairs span' pairs') ?_
    rw [hentries, hentries']
    exact hperm

end MapOf

end Hashed

namespace MapOf

/-- Texts under an inch, under a list of the inch and under a map. -/
def nestedKeys : List (Value × Value) :=
  [(inch, .text .nowhere "a"), (.commaList .nowhere [inch], .text .nowhere "b"),
    (.map (ofPairs .nowhere respelled), .text .nowhere "c")]

theorem wellFormed_nestedKeys : ∀ e ∈ nestedKeys, e.1.WellFormed ∧ e.2.WellFormed := by
  have hleaf : ∀ {v : Value}, v.node.leaf?.isSome = true → v.node.memo = none → v.WellFormed :=
    fun hleaf hmemo => (Value.Sound.leaf hleaf hmemo).wellFormed
  have hlist : (Value.commaList .nowhere [inch]).WellFormed := by
    refine .intro List.Pairwise.nil fun x hx => ?_
    obtain rfl := List.mem_singleton.1 hx
    exact hleaf rfl rfl
  have hmap : (Value.map (ofPairs .nowhere respelled)).WellFormed := by
    refine Value.wellFormed_ofPairs .nowhere fun e he => ⟨(sound_respelled e he).wellFormed, ?_⟩
    simp only [respelled, List.mem_cons, List.not_mem_nil, or_false] at he
    rcases he with rfl | rfl | rfl | rfl <;> exact hleaf rfl rfl
  simp only [nestedKeys, List.forall_mem_cons, List.not_mem_nil, false_implies, implies_true,
    and_true]
  exact ⟨⟨hleaf rfl rfl, hleaf rfl rfl⟩, ⟨hlist, hleaf rfl rfl⟩, ⟨hmap, hleaf rfl rfl⟩⟩

/-- The pairs put from the end make an equal map of equal digest, and the inch in pixels finds
equal values in both. -/
theorem beq_iff_lookups_agree_nestedKeys :
    let a := ofPairs .nowhere nestedKeys
    let b := ofPairs .nowhere nestedKeys.reverse
    (∀ e ∈ nestedKeys, e.1.WellFormed ∧ e.2.WellFormed) ∧
      (Value.map a).beq (.map b) = true ∧ (Value.map a).digest = (Value.map b).digest ∧
      Option.Rel (fun v w : Value => v.beq w = true) (a.get? inchInPixels)
        (b.get? inchInPixels) := by
  intro a b
  obtain ⟨hiff, horder⟩ := beq_iff_lookups_agree .nowhere .nowhere wellFormed_nestedKeys
    fun e he => wellFormed_nestedKeys e (List.mem_reverse.1 he)
  have hapart : Entries.Apart Value.beq nestedKeys := by
    simp only [Entries.Apart, nestedKeys, List.pairwise_cons, List.forall_mem_cons,
      List.not_mem_nil, false_implies, implies_true, and_true, List.Pairwise.nil]
    exact ⟨⟨rfl, rfl⟩, rfl⟩
  obtain ⟨hbeq, hdigest⟩ := horder (List.reverse_perm nestedKeys).symm hapart
  have hinch : inchInPixels.WellFormed := .intro trivial fun x hx => by cases hx
  exact ⟨wellFormed_nestedKeys, hbeq, hdigest, hiff.1 hbeq inchInPixels hinch⟩

end MapOf

end Stylesheet
