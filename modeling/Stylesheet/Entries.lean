/-!
# Entries in order

A list of pairs in which each key was put once: keywords of an argument list, and the pairs of a
map. Putting a pair under a key that is there keeps the key and its place and replaces the value.
The test for a key is passed as a predicate, because the keys of a map are compared by a weaker
equality than identity.

**Putting never moves an entry (`keys_put_of_any`, `keys_put_of_not_any`)**: the keys stay as they
are, or the new one comes last.
-/

namespace Stylesheet.Entries

variable {κ β : Type}

/-- The value of the first key that the test accepts. -/
def find? (test : κ → Bool) (entries : List (κ × β)) : Option β :=
  (entries.find? fun entry => test entry.1).map Prod.snd

/-- The entries with `value` under the first key that the test accepts, or with a new entry at the
end. -/
def put (test : κ → Bool) (key : κ) (value : β) : List (κ × β) → List (κ × β)
  | [] => [(key, value)]
  | entry :: rest =>
    if test entry.1 then (entry.1, value) :: rest else entry :: put test key value rest

/-- The keys in order. -/
def keys (entries : List (κ × β)) : List κ := entries.map Prod.fst

theorem keys_put_of_any {test : κ → Bool} {entries : List (κ × β)} (key : κ) (value : β)
    (h : (keys entries).any test = true) : keys (put test key value entries) = keys entries := by
  induction entries with
  | nil => simp [keys] at h
  | cons entry rest ih =>
    unfold put
    split
    · rfl
    · next hne =>
      have hrest : (keys rest).any test = true := by simpa [keys, hne] using h
      simpa [keys] using ih hrest

theorem keys_put_of_not_any {test : κ → Bool} {entries : List (κ × β)} (key : κ) (value : β)
    (h : (keys entries).any test = false) :
    keys (put test key value entries) = keys entries ++ [key] := by
  induction entries with
  | nil => rfl
  | cons entry rest ih =>
    simp only [keys, List.map_cons, List.any_cons, Bool.or_eq_false_iff] at h
    unfold put
    rw [if_neg (by simp [h.1])]
    simpa [keys] using ih h.2

/-- Putting brings in no key and no value but its own. -/
theorem mem_put {test : κ → Bool} {key : κ} {value : β} {entries : List (κ × β)} {e : κ × β}
    (h : e ∈ put test key value entries) :
    e ∈ entries ∨ (e.2 = value ∧ (e.1 = key ∨ ∃ f ∈ entries, f.1 = e.1)) := by
  induction entries with
  | nil =>
    obtain rfl := List.mem_singleton.1 h
    exact .inr ⟨rfl, .inl rfl⟩
  | cons f rest ih =>
    unfold put at h
    split at h
    · rcases List.mem_cons.1 h with rfl | h
      · exact .inr ⟨rfl, .inr ⟨f, List.mem_cons_self, rfl⟩⟩
      · exact .inl (List.mem_cons_of_mem f h)
    · rcases List.mem_cons.1 h with rfl | h
      · exact .inl List.mem_cons_self
      · rcases ih h with h | ⟨hv, hk | ⟨g, hg, hk⟩⟩
        · exact .inl (List.mem_cons_of_mem f h)
        · exact .inr ⟨hv, .inl hk⟩
        · exact .inr ⟨hv, .inr ⟨g, List.mem_cons_of_mem f hg, hk⟩⟩

end Stylesheet.Entries
