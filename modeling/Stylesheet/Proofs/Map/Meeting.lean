import Mathlib.Data.List.Induction
import Stylesheet.Proofs.Map.Association
import Stylesheet.Proofs.Value.Node

/-!
# Keys that meet

Pairs are put into a map one by one. A key that meets a stored one is a duplicate, and the first of
them is remembered.

Putting a pair under a new key adds it at the end. So as long as no keys meet (`Entries.KeysMeet`),
the map holds the pairs as they were put (`MapOf.ofPairs_of_not_keysMeet`), and a new key is
compared with all keys before it. One more pair does not change which key was the first to meet
another one (`Entries.firstToMeet_concat`). **The duplicate is the key of the first pair to meet one
before it, and there is none exactly if no keys meet (`MapOf.duplicate?_eq_some_iff`,
`MapOf.duplicate?_eq_none_iff`)**, whatever the keys are.
-/

namespace Stylesheet

/-! ## Keys of pairs in order -/

namespace Entries

variable {κ β : Type} {test test' : κ → κ → Bool} {p : κ → Prop} {pairs : List (κ × β)} {key : κ}

/-- Of the keys at two positions, the later one meets the earlier. -/
def KeysMeet (test : κ → κ → Bool) (pairs : List (κ × β)) : Prop :=
  ∃ (i j : Nat) (e f : κ × β), i < j ∧ pairs[i]? = some e ∧ pairs[j]? = some f ∧
    test f.1 e.1 = true

/-- `key` is the key of the first pair whose key meets one of the keys before it. -/
def FirstToMeet (test : κ → κ → Bool) (key : κ) (pairs : List (κ × β)) : Prop :=
  ∃ before value after, pairs = before ++ (key, value) :: after ∧ ¬ KeysMeet test before ∧
    ∃ e ∈ before, test key e.1 = true

theorem not_keysMeet_iff : ¬ KeysMeet test pairs ↔
    pairs.Pairwise fun e f => test f.1 e.1 = false := by
  rw [List.pairwise_iff_getElem]
  constructor
  · intro h i j hi hj hij
    exact Bool.eq_false_iff.2 fun hmeet => h ⟨i, j, pairs[i], pairs[j], hij,
      List.getElem?_eq_getElem hi, List.getElem?_eq_getElem hj, hmeet⟩
  · rintro h ⟨i, j, e, f, hij, he, hf, hmeet⟩
    obtain ⟨hi, rfl⟩ := List.getElem?_eq_some_iff.1 he
    obtain ⟨hj, rfl⟩ := List.getElem?_eq_some_iff.1 hf
    rw [h i j hi hj hij] at hmeet
    exact Bool.false_ne_true hmeet

/-- No keys meet when one more pair is added, if none did and the new key meets none. -/
theorem not_keysMeet_concat {e : κ × β} : ¬ KeysMeet test (pairs ++ [e]) ↔
    ¬ KeysMeet test pairs ∧ (keys pairs).any (test e.1) = false := by
  rw [not_keysMeet_iff, not_keysMeet_iff, List.pairwise_append, keys, List.any_map,
    List.any_eq_false]
  simp

/-- The last pair is the first to meet one before it, or the first was there already. -/
theorem firstToMeet_concat {e : κ × β} : FirstToMeet test key (pairs ++ [e]) ↔
    FirstToMeet test key pairs ∨
      key = e.1 ∧ ¬ KeysMeet test pairs ∧ (keys pairs).any (test e.1) = true := by
  rw [keys, List.any_map, List.any_eq_true]
  constructor
  · rintro ⟨before, value, after, hsplit, hapart, hmet⟩
    rcases List.eq_nil_or_concat after with rfl | ⟨after', last, rfl⟩
    · obtain ⟨rfl, rfl⟩ := List.append_singleton_inj.1 hsplit
      exact .inr ⟨rfl, hapart, hmet⟩
    · rw [List.concat_eq_append, ← List.cons_append, ← List.append_assoc] at hsplit
      obtain ⟨rfl, -⟩ := List.append_singleton_inj.1 hsplit
      exact .inl ⟨before, value, after', rfl, hapart, hmet⟩
  · rintro (⟨before, value, after, rfl, hapart, hmet⟩ | ⟨rfl, hapart, hmet⟩)
    · exact ⟨before, value, after ++ [e], by simp, hapart, hmet⟩
    · exact ⟨pairs, e.2, [], rfl, hapart, hmet⟩

/-- Where the test can be turned round, no keys meet exactly if they are apart. -/
theorem not_keysMeet_iff_apart (hK : KeyEq test p) (hp : ∀ e ∈ pairs, p e.1) :
    ¬ KeysMeet test pairs ↔ Apart test pairs := by
  rw [not_keysMeet_iff]
  exact List.Pairwise.iff_of_mem fun {e f} he hf => by rw [hK.comm (hp f hf) (hp e he)]

/-- Tests that agree on the keys have the same keys meet. -/
theorem keysMeet_congr (h : ∀ e ∈ pairs, ∀ f ∈ pairs, test e.1 f.1 = test' e.1 f.1) :
    KeysMeet test pairs ↔ KeysMeet test' pairs := by
  rw [← not_iff_not, not_keysMeet_iff, not_keysMeet_iff]
  exact List.Pairwise.iff_of_mem fun {e f} he hf => by rw [h f hf e he]

theorem firstToMeet_congr (h : ∀ e ∈ pairs, ∀ f ∈ pairs, test e.1 f.1 = test' e.1 f.1) :
    FirstToMeet test key pairs ↔ FirstToMeet test' key pairs := by
  refine exists_congr fun before => exists_congr fun value => exists_congr fun after =>
    and_congr_right ?_
  rintro rfl
  have hbefore : ∀ e ∈ before, e ∈ before ++ (key, value) :: after := fun e he =>
    List.mem_append_left _ he
  have hkey : (key, value) ∈ before ++ (key, value) :: after := by simp
  refine and_congr (not_congr (keysMeet_congr fun e he f hf =>
    h e (hbefore e he) f (hbefore f hf))) (exists_congr fun e => and_congr_right fun he => ?_)
  rw [h (key, value) hkey e (hbefore e he)]

/-- A test that accepts less has fewer keys meet. -/
theorem KeysMeet.mono (h : ∀ x y, test x y = true → test' x y = true)
    (hmeet : KeysMeet test pairs) : KeysMeet test' pairs := by
  obtain ⟨i, j, e, f, hij, he, hf, htest⟩ := hmeet
  exact ⟨i, j, e, f, hij, he, hf, h f.1 e.1 htest⟩

end Entries

/-! ## Maps that pairs were put into -/

namespace MapOf

open Entries

variable [Hasher] {pairs : List (Value × Value)} {key : Value}

theorem ofPairs_concat (span : Span) (pairs : List (Value × Value)) (e : Value × Value) :
    ofPairs span (pairs ++ [e]) = (ofPairs span pairs).insert e.1 e.2 :=
  List.foldl_concat _ _ _ _

@[simp] theorem span_ofPairs (span : Span) (pairs : List (Value × Value)) :
    (ofPairs span pairs).span = span := by
  induction pairs using List.reverseRecOn with
  | nil => rfl
  | append_singleton pairs e ih => rw [ofPairs_concat]; exact ih

theorem mem_parts_ofPairs {span : Span} {x : Value}
    (h : x ∈ (ofPairs span pairs).parts) : ∃ e ∈ pairs, x = e.1 ∨ x = e.2 := by
  induction pairs using List.reverseRecOn with
  | nil => cases h
  | append_singleton pairs e ih =>
    rw [ofPairs_concat] at h
    rcases mem_parts_insert h with h | h
    · obtain ⟨f, hf, hx⟩ := ih h
      exact ⟨f, List.mem_append_left _ hf, hx⟩
    · exact ⟨e, List.mem_append_right _ (List.mem_singleton.2 rfl), h⟩

theorem memo_ofPairs (span : Span) (pairs : List (Value × Value)) :
    (ofPairs span pairs).memo = none := by
  induction pairs using List.reverseRecOn with
  | nil => rfl
  | append_singleton pairs e _ => rw [ofPairs_concat]; rfl

theorem contains_eq_any (m : MapOf Value) (key : Value) :
    m.contains key = (keys m.entries).any key.meets := by
  unfold contains get? find? keys
  rw [Option.isSome_map, List.any_map, List.isSome_find?]
  rfl

/-- Pairs whose keys do not meet stay as they were put. -/
theorem ofPairs_of_not_keysMeet (span : Span) (h : ¬ KeysMeet Value.meets pairs) :
    ofPairs span pairs = { entries := pairs, span } := by
  induction pairs using List.reverseRecOn with
  | nil => rfl
  | append_singleton pairs e ih =>
    obtain ⟨hpairs, hnew⟩ := not_keysMeet_concat.1 h
    rw [ofPairs_concat, ih hpairs, insert, contains_eq_any, hnew, put_eq_concat _ _ hnew]
    rfl

/-- **A map has met no duplicate key exactly when no keys meet.** -/
theorem duplicate?_eq_none_iff (span : Span) :
    (ofPairs span pairs).duplicate? = none ↔ ¬ KeysMeet Value.meets pairs := by
  constructor
  · induction pairs using List.reverseRecOn with
    | nil => exact fun _ => not_keysMeet_iff.2 List.Pairwise.nil
    | append_singleton pairs e ih =>
      intro hnone
      rw [ofPairs_concat, insert, Option.or_eq_none_iff, contains_eq_any] at hnone
      obtain ⟨hold, hnew⟩ := hnone
      rw [ofPairs_of_not_keysMeet span (ih hold)] at hnew
      exact not_keysMeet_concat.2 ⟨ih hold, by simpa using hnew⟩
  · intro h
    rw [ofPairs_of_not_keysMeet span h]

/-- **A map remembers the first key that met another one.** -/
theorem duplicate?_eq_some_iff (span : Span) :
    (ofPairs span pairs).duplicate? = some key ↔ FirstToMeet Value.meets key pairs := by
  induction pairs using List.reverseRecOn with
  | nil =>
    refine ⟨nofun, ?_⟩
    rintro ⟨before, value, after, hsplit, -⟩
    exact absurd hsplit.symm (by simp)
  | append_singleton pairs e ih =>
    rw [firstToMeet_concat, ← ih, ofPairs_concat, insert, contains_eq_any]
    cases hold : (ofPairs span pairs).duplicate? with
    | some other =>
      have hmeet : KeysMeet Value.meets pairs := by
        by_contra h
        rw [(duplicate?_eq_none_iff span).2 h] at hold
        cases hold
      simp [hmeet]
    | none =>
      -- The pairs are there as they were put, and the last key is compared with all of them.
      have hapart := (duplicate?_eq_none_iff span).1 hold
      rw [ofPairs_of_not_keysMeet span hapart]
      cases hany : (keys pairs).any e.1.meets <;> simp [hapart, eq_comm]

end MapOf

end Stylesheet
