import Stylesheet.Proofs.Digest.History
import Stylesheet.Proofs.Map.Insertion
import Stylesheet.Proofs.Reduction.Outcome

/-!
# Keys that meet after reduction

**Theorem (`MapOf.reduce_ofPairs`).** A map that pairs were put into, all of which reduce, is
rejected for a duplicate key exactly when two of its keys meet: as they were written, or as they
are reduced. Otherwise it reduces to the map of the reduced pairs, in the order they were written.
Keys that carry no old digest meet exactly when they are equal.

Keys are compared twice, and neither comparison follows from the other. A variable meets the
number it stands for only after it is reduced. Two operations that differ in the blanks around the
operator are equal as they are written, but the texts they reduce to keep the blanks, so they meet
and their reduced keys do not (`MapOf.keysMeet_respaced`).

A key that carries an old digest does not meet an equal one, so a map can hold both, and a result of
a reduction can be a map that is rejected when it is reduced again (`MapOf.reduce_oldAndNew`).

A map whose written keys meet has lost a pair, and what is left of it still reduces
(`MapOf.exists_reduced_entries`), so the error it gives is the duplicate key.
-/

namespace Stylesheet

open Entries

section Hashed

variable [Hasher] {env : Environment} {pairs reduced : List (Value × Value)}

namespace MapOf

/-- What is left of pairs that reduce, reduces. -/
theorem exists_reduced_entries (span : Span)
    (h : List.Forall₂ (Value.EntryReduces env) pairs reduced) :
    ∃ entries, List.Forall₂ (Value.EntryReduces env) (ofPairs span pairs).entries entries := by
  have hpart : ∀ x ∈ (ofPairs span pairs).parts, ∃ y, Value.reduce env x = .ok y := fun x hx => by
    obtain ⟨e, he, hxe⟩ := mem_parts_ofPairs hx
    obtain ⟨i, hi, rfl⟩ := List.mem_iff_getElem.1 he
    obtain ⟨hkey, hval⟩ := h.get hi (h.length_eq ▸ hi)
    rcases hxe with rfl | rfl
    · exact ⟨_, hkey⟩
    · exact ⟨_, hval⟩
  have hentry : ∀ e ∈ (ofPairs span pairs).entries, ∃ f, Value.EntryReduces env e f :=
    fun e he => by
      obtain ⟨key, hkey⟩ := hpart e.1 (key_mem_parts he)
      obtain ⟨value, hval⟩ := hpart e.2 (value_mem_parts he)
      exact ⟨(key, value), hkey, hval⟩
  choose! f hf using hentry
  exact ⟨(ofPairs span pairs).entries.map f,
    List.forall₂_map_right_iff.2 (List.forall₂_same.2 hf)⟩

end MapOf

/-- A map whose entries reduce is rebuilt from what they reduce to. -/
theorem Value.reduce_map_of_entries {m : MapOf Value} {entries : List (Value × Value)}
    (h : List.Forall₂ (EntryReduces env) m.entries entries) :
    reduce env (.map m) = rebuildMap m entries := by
  rw [reduce, reduceEntries_eq_ok.2 h]
  rfl

namespace MapOf

theorem exists_duplicate_of_keysMeet (span : Span) (h : KeysMeet Value.meets pairs) :
    ∃ key, (ofPairs span pairs).duplicate? = some key :=
  Option.ne_none_iff_exists'.1 fun hnone => (duplicate?_eq_none_iff span).1 hnone h

/-- Reduced pairs are put into a map where the written keys do not meet. -/
theorem reduce_ofPairs_of_not_keysMeet (span : Span)
    (h : List.Forall₂ (Value.EntryReduces env) pairs reduced)
    (hpairs : ¬ KeysMeet Value.meets pairs) :
    Value.reduce env (.map (ofPairs span pairs)) =
      match (ofPairs span reduced).duplicate? with
      | some key => .error (EvalError.placed { cause := .duplicateKey key.inspect } span)
      | none => .ok (.map (ofPairs span reduced)) := by
  rw [ofPairs_of_not_keysMeet span hpairs]
  exact Value.reduce_map_of_entries h

/-- **The error names the key that was met when the map was written**, or else the first one that
is met when the reduced pairs are put. -/
theorem reduce_ofPairs_of_keysMeet (span : Span)
    (h : List.Forall₂ (Value.EntryReduces env) pairs reduced)
    (hmeet : KeysMeet Value.meets pairs ∨ KeysMeet Value.meets reduced) :
    ∃ key, (ofPairs span pairs).duplicate?.or (ofPairs span reduced).duplicate? = some key ∧
      Value.reduce env (.map (ofPairs span pairs)) =
        .error (EvalError.placed { cause := .duplicateKey key.inspect } span) := by
  by_cases hpairs : KeysMeet Value.meets pairs
  · obtain ⟨key, hkey⟩ := exists_duplicate_of_keysMeet span hpairs
    obtain ⟨entries, hentries⟩ := exists_reduced_entries span h
    refine ⟨key, by rw [hkey, Option.some_or], ?_⟩
    rw [Value.reduce_map_of_entries hentries, Value.rebuildMap, hkey, span_ofPairs]
    rfl
  · obtain ⟨key, hkey⟩ := exists_duplicate_of_keysMeet span (hmeet.resolve_left hpairs)
    refine ⟨key, ?_, ?_⟩
    · rw [(duplicate?_eq_none_iff span).2 hpairs, Option.none_or, hkey]
    · rw [reduce_ofPairs_of_not_keysMeet span h hpairs, hkey]

theorem reduce_ofPairs_of_apart (span : Span)
    (h : List.Forall₂ (Value.EntryReduces env) pairs reduced)
    (hmeet : ¬ (KeysMeet Value.meets pairs ∨ KeysMeet Value.meets reduced)) :
    Value.reduce env (.map (ofPairs span pairs)) = .ok (.map { entries := reduced, span }) := by
  obtain ⟨hpairs, hreduced⟩ := not_or.1 hmeet
  rw [reduce_ofPairs_of_not_keysMeet span h hpairs, ofPairs_of_not_keysMeet span hreduced]

/-- A map is rejected for a duplicate key exactly when keys meet. -/
theorem reduce_ofPairs_eq_error_iff (span : Span)
    (h : List.Forall₂ (Value.EntryReduces env) pairs reduced) :
    (∃ e key, Value.reduce env (.map (ofPairs span pairs)) = .error e ∧
      e.cause = .duplicateKey key) ↔
      KeysMeet Value.meets pairs ∨ KeysMeet Value.meets reduced := by
  constructor
  · rintro ⟨e, key, herr, -⟩
    by_contra hmeet
    rw [reduce_ofPairs_of_apart span h hmeet] at herr
    cases herr
  · intro hmeet
    obtain ⟨key, -, herr⟩ := reduce_ofPairs_of_keysMeet span h hmeet
    exact ⟨_, key.inspect, herr, rfl⟩

/-- Sound keys meet exactly when they are equal. -/
theorem keysMeet_iff_of_sound (hkeys : ∀ e ∈ pairs, e.1.Sound) :
    KeysMeet Value.meets pairs ↔ KeysMeet Value.beq pairs :=
  keysMeet_congr (meets_eq_beq_of_sound hkeys)

/-- Keys of which no two are equal do not meet, whatever digests they carry. -/
theorem not_keysMeet_of_unequal (h : ¬ KeysMeet Value.beq pairs) : ¬ KeysMeet Value.meets pairs :=
  fun hmeet => h (hmeet.mono fun _ _ => Value.beq_of_meets)

/-- **A map that pairs were put into, all of which reduce, has a duplicate key exactly when two
keys are equal**, as they were written or as they are reduced, provided that no key carries an old
digest. If no two keys are equal, it reduces to the map of the reduced pairs in the order they were
written. -/
theorem reduce_ofPairs (env : Environment) (span : Span) {pairs reduced : List (Value × Value)}
    (h : List.Forall₂ (Value.EntryReduces env) pairs reduced) :
    let result := Value.reduce env (.map (ofPairs span pairs))
    -- Equality decides for keys without old digests.
    ((∀ e ∈ pairs, e.1.Sound) → (∀ e ∈ reduced, e.1.Sound) →
      ((∃ e key, result = .error e ∧ e.cause = .duplicateKey key) ↔
        KeysMeet Value.beq pairs ∨ KeysMeet Value.beq reduced)) ∧
    (¬ (KeysMeet Value.beq pairs ∨ KeysMeet Value.beq reduced) →
      result = .ok (.map { entries := reduced, span })) ∧
    -- A table of any keys decides by digest and equality, and names the key that it met first.
    (KeysMeet Value.meets pairs ∨ KeysMeet Value.meets reduced →
      ∃ key, (ofPairs span pairs).duplicate?.or (ofPairs span reduced).duplicate? = some key ∧
        result = .error (EvalError.placed { cause := .duplicateKey key.inspect } span)) ∧
    (¬ (KeysMeet Value.meets pairs ∨ KeysMeet Value.meets reduced) →
      result = .ok (.map { entries := reduced, span })) := by
  intro result
  refine ⟨fun hpairs hreduced => ?_, fun hunequal => ?_, reduce_ofPairs_of_keysMeet span h,
    reduce_ofPairs_of_apart span h⟩
  · rw [← keysMeet_iff_of_sound hpairs, ← keysMeet_iff_of_sound hreduced]
    exact reduce_ofPairs_eq_error_iff span h
  · obtain ⟨hpairs, hreduced⟩ := not_or.1 hunequal
    exact reduce_ofPairs_of_apart span h
      (not_or.2 ⟨not_keysMeet_of_unequal hpairs, not_keysMeet_of_unequal hreduced⟩)

/-! ## Keys with old digests -/

/-- Every variable stands for the list of one null in brackets, and `old` for the one that was put
into brackets after its digest was taken. -/
def oldAndNew : Environment where
  lookup? name :=
    some (.list ((if name = "old" then nullListDigested else nullList).withBracketed true))
  call? _ _ _ := none
  host _ _ span := .null span

/-- **A key with an old digest is no duplicate of an equal one until it is rebuilt.** A map whose
keys are variables reduces to a map of two equal keys, and that one does not reduce. -/
theorem reduce_oldAndNew (hash : Hasher.Discerning) (span : Span) :
    let old : Value := .list (nullListDigested.withBracketed true)
    let new : Value := .list (nullList.withBracketed true)
    let m : MapOf Value := { entries := [(old, .null span), (new, .null span)], span }
    old.beq new = true ∧
      Value.reduce oldAndNew (.map (ofPairs span
        [(.variable ⟨"old", span⟩, .null span), (.variable ⟨"new", span⟩, .null span)])) =
          .ok (.map m) ∧
      ∃ key, Value.reduce oldAndNew (.map m) =
        .error (EvalError.placed { cause := .duplicateKey key } span) := by
  intro old new m
  have hwritten : ¬ KeysMeet Value.meets
      [(Value.variable ⟨"old", span⟩, Value.null span), (.variable ⟨"new", span⟩, .null span)] :=
    not_keysMeet_of_unequal (not_keysMeet_iff.2 (List.pairwise_pair.2 rfl))
  have hdigest : new.digest ≠ old.digest := (digest_nullListDigested_bracketed_ne hash).symm
  have hkept : ¬ KeysMeet Value.meets m.entries := by
    refine not_keysMeet_iff.2 (List.pairwise_pair.2 ?_)
    show (new.digest == old.digest && new.beq old) = false
    rw [beq_eq_false_iff_ne.2 hdigest, Bool.false_and]
  have hstored : ofPairs span m.entries = m := ofPairs_of_not_keysMeet span hkept
  refine ⟨rfl, reduce_ofPairs_of_apart span (.cons ⟨rfl, rfl⟩ (.cons ⟨rfl, rfl⟩ .nil))
    (not_or.2 ⟨hwritten, hkept⟩), ?_⟩
  -- Both lists are rebuilt as one.
  have hrebuilt : List.Forall₂ (Value.EntryReduces oldAndNew) m.entries
      [(new, .null span), (new, .null span)] := .cons ⟨rfl, rfl⟩ (.cons ⟨rfl, rfl⟩ .nil)
  have hnew : new.meets new = true := (Value.meets_of_digest_eq rfl).trans rfl
  obtain ⟨key, -, herr⟩ := reduce_ofPairs_of_keysMeet span hrebuilt
    (.inr ⟨0, 1, _, _, by decide, rfl, rfl, hnew⟩)
  exact ⟨key.inspect, hstored ▸ herr⟩

end MapOf

end Hashed

namespace MapOf

/-- The variable `a` stands for 1, and there are no functions. -/
def aIsOne : Environment where
  lookup? name := if name = "a" then some (.number (.plain .nowhere 1)) else none
  call? _ _ _ := none
  host _ _ _ := .null .nowhere

/-- Texts under 1 and under a variable. -/
def oneAndVariable : List (Value × Value) :=
  [(.number (.plain .nowhere 1), .text .nowhere "x"),
    (.variable ⟨"a", .nowhere⟩, .text .nowhere "y")]

/-- The keys are not equal as they are written, and the reduced ones are. -/
theorem reduce_ofPairs_oneAndVariable :
    ¬ KeysMeet Value.beq oneAndVariable ∧
      ∃ e key, Value.reduce aIsOne (.map (ofPairs .nowhere oneAndVariable)) = .error e ∧
        e.cause = .duplicateKey key := by
  have hpairs : ¬ KeysMeet Value.beq oneAndVariable :=
    not_keysMeet_iff.2 (List.pairwise_pair.2 rfl)
  have hreduces : List.Forall₂ (Value.EntryReduces aIsOne) oneAndVariable
      [(.number (.plain .nowhere 1), .text .nowhere "x"),
        (.number (.plain .nowhere 1), .text .nowhere "y")] :=
    .cons ⟨rfl, rfl⟩ (.cons ⟨rfl, rfl⟩ .nil)
  refine ⟨hpairs, ((reduce_ofPairs aIsOne .nowhere hreduces).1 ?_ ?_).2
    (.inr ⟨0, 1, _, _, by decide, rfl, rfl, Number.beq_iff_identity.2 rfl⟩)⟩
  all_goals
    simp only [oneAndVariable, List.forall_mem_cons, List.not_mem_nil, false_implies,
      implies_true, and_true]
    exact ⟨.leaf rfl rfl, .leaf rfl rfl⟩

/-- The difference of two names, with blanks around the minus or without. -/
def difference (blanks : Bool) : Value :=
  .operation { operand := { op := .sub, spaceBefore := blanks, spaceAfter := blanks },
               left := .text .nowhere "a", right := .text .nowhere "b", span := .nowhere }

/-- Texts under the difference with blanks and under the one without. -/
def respaced : List (Value × Value) :=
  [(difference true, .text .nowhere "x"), (difference false, .text .nowhere "y")]

/-- The same texts under what the differences reduce to. -/
def respacedTexts : List (Value × Value) :=
  [(.text .nowhere "a - b", .text .nowhere "x"), (.text .nowhere "a-b", .text .nowhere "y")]

/-- The keys meet as they are written, so the map is rejected though no reduced keys meet. -/
theorem keysMeet_respaced :
    List.Forall₂ (Value.EntryReduces aIsOne) respaced respacedTexts ∧
      ¬ KeysMeet Value.beq respacedTexts ∧
      Value.reduce aIsOne (.map (ofPairs .nowhere respaced)) =
        .error (EvalError.placed { cause := .duplicateKey "\"a\"-\"b\"" } .nowhere) :=
  ⟨.cons ⟨rfl, rfl⟩ (.cons ⟨rfl, rfl⟩ .nil), not_keysMeet_iff.2 (List.pairwise_pair.2 rfl), rfl⟩

end MapOf

end Stylesheet
