import Stylesheet.Value.Query
import Stylesheet.Proofs.Digest.Agreement
import Stylesheet.Proofs.Map.Meeting

/-!
# Maps are association lists

**Theorem (`MapOf.ofPairs_refines_association`).** A map that pairs were put into is the
association list of the pairs, with values as keys: every class of equal keys has one entry, in
the order of the first puts, with the key of the first put and the value of the last. Lookups
answer by the class of the key, every put gives back what was there under an equal key, and the
first put that met an equal key leaves its own key as the duplicate.

The entries come from the association list of any equivalence of keys
(`Entries.putAll_eq_association`), and meeting is one on well-formed keys (`Value.keyEq_meets`). So
the map is the association list of the keys that meet, whatever digests they carry
(`MapOf.entries_ofPairs`). Sound keys meet exactly if they are equal (`Value.Sound.meets_eq_beq`),
and only there equality alone decides.
-/

namespace Stylesheet

section Hashed

variable [Hasher]

namespace Value

theorem keyEq : Entries.KeyEq beq WellFormed := ⟨beq_self, exchanges⟩

theorem keyEq_meets : Entries.KeyEq meets WellFormed := ⟨meets_self, exchanges_meets⟩

end Value

namespace MapOf

variable {pairs : List (Value × Value)} {key k : Value}

/-! ## Keys that meet -/

theorem entries_ofPairs_eq_putAll (span : Span) (pairs : List (Value × Value)) :
    (ofPairs span pairs).entries = Entries.putAll Value.meets pairs := by
  induction pairs using List.reverseRecOn with
  | nil => rfl
  | append_singleton pairs e ih =>
    rw [ofPairs_concat, Entries.putAll_concat, ← ih]
    rfl

theorem entries_ofPairs (span : Span) (hkeys : ∀ e ∈ pairs, e.1.WellFormed) :
    (ofPairs span pairs).entries = Entries.association Value.meets pairs := by
  rw [entries_ofPairs_eq_putAll, Entries.putAll_eq_association Value.keyEq_meets hkeys]

/-- A lookup finds the last value that was put under a key that is met. -/
theorem get?_ofPairs (span : Span) (hkeys : ∀ e ∈ pairs, e.1.WellFormed) (hk : k.WellFormed) :
    (ofPairs span pairs).get? k = Entries.findLast? k.meets pairs := by
  rw [get?, entries_ofPairs span hkeys]
  exact Entries.find?_association Value.keyEq_meets hkeys hk

section SoundKeys

variable (hkeys : ∀ e ∈ pairs, e.1.Sound)

include hkeys

theorem meets_eq_beq_of_sound : ∀ e ∈ pairs, ∀ f ∈ pairs, e.1.meets f.1 = e.1.beq f.1 :=
  fun e he f hf => (hkeys e he).meets_eq_beq (hkeys f hf)

theorem entries_ofPairs_of_sound (span : Span) :
    (ofPairs span pairs).entries = Entries.association Value.beq pairs := by
  rw [entries_ofPairs_eq_putAll, Entries.putAll_congr (meets_eq_beq_of_sound hkeys),
    Entries.putAll_eq_association Value.keyEq fun e he => (hkeys e he).wellFormed]

/-- A lookup finds the last value that was put under an equal key. -/
theorem get?_ofPairs_of_sound (span : Span) (hk : k.Sound) :
    (ofPairs span pairs).get? k = Entries.findLast? k.beq pairs := by
  rw [get?_ofPairs span (fun e he => (hkeys e he).wellFormed) hk.wellFormed]
  exact Entries.find?_congr fun e he => hk.meets_eq_beq (hkeys e (List.mem_reverse.1 he))

theorem contains_ofPairs (span : Span) (hk : k.Sound) :
    (ofPairs span pairs).contains k = true ↔ ∃ e ∈ pairs, k.beq e.1 = true := by
  rw [contains, get?_ofPairs_of_sound hkeys span hk]
  exact Entries.isSome_findLast?

/-- **The duplicate is the key of the first put that met an equal key**, if there was one. -/
theorem duplicate?_ofPairs (span : Span) :
    (∀ key, (ofPairs span pairs).duplicate? = some key ↔
      Entries.FirstToMeet Value.beq key pairs) ∧
      ((ofPairs span pairs).duplicate? = none ↔ Entries.Apart Value.beq pairs) := by
  have hsame := meets_eq_beq_of_sound hkeys
  constructor
  · exact fun key => (duplicate?_eq_some_iff span).trans (Entries.firstToMeet_congr hsame)
  · rw [duplicate?_eq_none_iff, Entries.keysMeet_congr hsame]
    exact Entries.not_keysMeet_iff_apart Value.keyEq fun e he => (hkeys e he).wellFormed

end SoundKeys

/-! ## The refinement -/

/-- **A map that pairs were put into refines their association list**, with values as keys. -/
theorem ofPairs_refines_association (span : Span) {pairs : List (Value × Value)}
    (hkeys : ∀ e ∈ pairs, e.1.Sound) :
    let m := ofPairs span pairs
    let entries := Entries.association Value.beq pairs
    -- One entry for each class, with its first key and its last value.
    (Entries.Apart Value.beq entries ∧
      entries.map Prod.fst = (Entries.keys pairs).eraseDupsBy Value.beq ∧
      ∀ e ∈ entries, Entries.findLast? e.1.beq pairs = some e.2) ∧
    -- The map lists these entries in this order.
    (m.entries = entries ∧ m.keys = entries.map Prod.fst ∧ m.values = entries.map Prod.snd ∧
      (∀ i, m.pairAt? i = entries[i]?) ∧
      (∀ i, (Value.map m).item? i = entries[i]?.map (Value.pair span)) ∧
      ∀ listSpan, (m.toList listSpan).items = entries.map (Value.pair listSpan)) ∧
    -- Lookups answer by the class of the key.
    (∀ k : Value, k.Sound →
      m.get? k = Entries.findLast? k.beq pairs ∧
      (m.contains k = true ↔ ∃ e ∈ pairs, k.beq e.1 = true) ∧
      ∀ k' : Value, k'.Sound → k.beq k' = true → m.get? k = m.get? k') ∧
    -- Every put gives back what was there.
    (∀ before key value after, pairs = before ++ (key, value) :: after →
      (ofPairs span before).getThenInsert? key value =
        (Entries.findLast? key.beq before, ofPairs span (before ++ [(key, value)]))) ∧
    -- The first put that met an equal key is recorded.
    (∀ key, m.duplicate? = some key ↔ Entries.FirstToMeet Value.beq key pairs) ∧
      (m.duplicate? = none ↔ Entries.Apart Value.beq pairs) := by
  intro m entries
  have hwf : ∀ e ∈ pairs, e.1.WellFormed := fun e he => (hkeys e he).wellFormed
  have hentries : m.entries = entries := entries_ofPairs_of_sound hkeys span
  refine ⟨⟨?apart, ?firsts, ?lasts⟩, ⟨hentries, ?keys, ?values, ?entry, ?item, ?list⟩,
    ?lookups, ?puts, duplicate?_ofPairs hkeys span⟩
  case apart => exact Entries.apart_association Value.keyEq hwf
  case firsts => exact Entries.keys_association Value.keyEq hwf
  case lasts => exact fun e he => (Entries.mem_association.1 he).2
  case keys => rw [MapOf.keys, hentries]; rfl
  case values => rw [MapOf.values, hentries]
  case entry => intro i; rw [pairAt?, hentries]
  case item =>
    intro i
    show (m.pairAt? i).map (Value.pair m.span) = _
    rw [pairAt?, hentries, span_ofPairs]
  case list => intro listSpan; rw [← hentries]; rfl
  case lookups =>
    intro k hk
    refine ⟨get?_ofPairs_of_sound hkeys span hk, contains_ofPairs hkeys span hk, ?_⟩
    intro k' hk' hkk'
    rw [get?_ofPairs_of_sound hkeys span hk, get?_ofPairs_of_sound hkeys span hk']
    exact Entries.findLast?_congr Value.keyEq hwf hk.wellFormed hk'.wellFormed hkk'
  case puts =>
    rintro before key value after rfl
    have hbefore : ∀ e ∈ before, e.1.Sound := fun e he => hkeys e (List.mem_append_left _ he)
    have hkey : key.Sound := hkeys (key, value) (List.mem_append_right _ List.mem_cons_self)
    rw [getThenInsert?, get?_ofPairs_of_sound hbefore span hkey, ofPairs_concat]

end MapOf

end Hashed

namespace MapOf

/-- An inch. -/
def inch : Value := .number (.ofText .nowhere 1 "in")

/-- The inch in pixels. -/
def inchInPixels : Value := .number (.ofText .nowhere 96 "px")

/-- An inch, red, the inch in pixels and red by its hue, with a text each. -/
def respelled : List (Value × Value) :=
  [(inch, .text .nowhere "a"), (.color (.ofRgb .nowhere 255 0 0 1), .text .nowhere "b"),
    (inchInPixels, .text .nowhere "c"),
    (.color (.ofHsl .nowhere 0 1 0.5 1), .text .nowhere "d")]

theorem sound_respelled : ∀ e ∈ respelled, e.1.Sound := by
  simp only [respelled, List.forall_mem_cons, List.not_mem_nil, false_implies, implies_true,
    and_true]
  exact ⟨.leaf rfl rfl, .leaf rfl rfl, .leaf rfl rfl, .leaf rfl rfl⟩

/-- Two entries stay, the text of the pixels is found under the inch, and the pixels are the
duplicate. -/
theorem ofPairs_refines_association_respelled :
    (∀ e ∈ respelled, e.1.Sound) ∧
      (ofPairs .nowhere respelled).entries.length = 2 ∧
      (ofPairs .nowhere respelled).get? inch = some (.text .nowhere "c") ∧
      (ofPairs .nowhere respelled).duplicate? = some inchInPixels := by
  obtain ⟨-, ⟨hentries, -⟩, hlookups, -, hduplicate, -⟩ :=
    ofPairs_refines_association .nowhere sound_respelled
  have hequal : inch.beq inchInPixels = true := by decide +kernel
  have hother : inch.beq (.color (.ofHsl .nowhere 0 1 0.5 1)) = false := rfl
  refine ⟨sound_respelled, ?_, ?_, ?_⟩
  · rw [hentries]
    decide +kernel
  · rw [(hlookups inch (.leaf rfl rfl)).1]
    simp [Entries.findLast?, Entries.find?, respelled, hother, hequal]
  · rw [hduplicate]
    refine ⟨respelled.take 2, _, respelled.drop 3, rfl,
      Entries.not_keysMeet_iff.2 (List.pairwise_pair.2 rfl), ?_⟩
    exact ⟨_, List.mem_cons_self, by decide +kernel⟩

end MapOf

end Stylesheet
