import Mathlib.Data.List.Induction
import Stylesheet.Proofs.Equality.Exchange

/-!
# Association lists by classes of keys

Entries are put one after another under keys that are compared by a weaker equality than identity.
What a run of puts leaves behind is described without the run: one entry for each class of equal
keys, in the order in which the classes first occur, with the first key of the class and the last
value (`Entries.association`).

**Theorem (`Entries.putAll_eq_association`).** If the comparison is an equivalence on the keys,
putting all pairs gives their association list, and looking up any key finds the last value that
was put under an equal one (`Entries.find?_association`).

One more pair changes the association list as a put does (`Entries.association_concat`): the keys
in it are pairwise unequal, so the put that replaces the value of the first equal key replaces the
value of every equal key.
-/

namespace Stylesheet

variable {κ β : Type}

/-! ## First occurrences -/

section FirstOccurrences

variable (r : κ → κ → Bool)

theorem eraseDupsBy_loop_concat (as seen : List κ) (a : κ) :
    List.eraseDupsBy.loop r (as ++ [a]) seen =
      if (List.eraseDupsBy.loop r as seen).any (r a) then List.eraseDupsBy.loop r as seen
      else List.eraseDupsBy.loop r as seen ++ [a] := by
  induction as generalizing seen with
  | nil =>
    simp only [List.nil_append, List.eraseDupsBy.loop, List.any_reverse]
    cases seen.any (r a) <;> simp
  | cons b as ih =>
    cases hb : seen.any (r b) with
    | true => simpa only [List.cons_append, List.eraseDupsBy.loop, hb] using ih seen
    | false => simpa only [List.cons_append, List.eraseDupsBy.loop, hb] using ih (b :: seen)

theorem eraseDupsBy_concat (as : List κ) (a : κ) :
    (as ++ [a]).eraseDupsBy r =
      if (as.eraseDupsBy r).any (r a) then as.eraseDupsBy r else as.eraseDupsBy r ++ [a] :=
  eraseDupsBy_loop_concat r as [] a

variable {r}

theorem mem_of_mem_eraseDupsBy {as : List κ} {a : κ} (h : a ∈ as.eraseDupsBy r) : a ∈ as := by
  induction as using List.reverseRecOn with
  | nil => exact h
  | append_singleton as b ih =>
    rw [eraseDupsBy_concat] at h
    split at h
    · exact List.mem_append_left _ (ih h)
    · rw [List.mem_append] at h ⊢
      exact h.imp_left ih

/-- No first occurrence equals one before it. -/
theorem pairwise_eraseDupsBy (as : List κ) :
    (as.eraseDupsBy r).Pairwise fun a b => r b a = false := by
  induction as using List.reverseRecOn with
  | nil => exact List.Pairwise.nil
  | append_singleton as b ih =>
    rw [eraseDupsBy_concat]
    split
    · exact ih
    · next hnone =>
      rw [List.pairwise_append]
      refine ⟨ih, List.pairwise_singleton _ _, fun a ha c hc => ?_⟩
      rw [List.mem_singleton.1 hc]
      exact Bool.eq_false_iff.2 fun hba => hnone (List.any_eq_true.2 ⟨a, ha, hba⟩)

/-- Every member has a first occurrence. -/
theorem exists_mem_eraseDupsBy {as : List κ} (hself : ∀ a ∈ as, r a a = true) :
    ∀ a ∈ as, ∃ b ∈ as.eraseDupsBy r, r a b = true := by
  induction as using List.reverseRecOn with
  | nil => exact fun a ha => by cases ha
  | append_singleton as c ih =>
    intro a ha
    have hc := hself c (List.mem_append_right _ (List.mem_singleton.2 rfl))
    rw [eraseDupsBy_concat]
    split
    · next hsome =>
      rcases List.mem_append.1 ha with ha | ha
      · exact ih (fun x hx => hself x (List.mem_append_left _ hx)) a ha
      · rw [List.mem_singleton.1 ha]
        exact List.any_eq_true.1 hsome
    · rcases List.mem_append.1 ha with ha | ha
      · obtain ⟨b, hb, hab⟩ := ih (fun x hx => hself x (List.mem_append_left _ hx)) a ha
        exact ⟨b, List.mem_append_left _ hb, hab⟩
      · rw [List.mem_singleton.1 ha]
        exact ⟨c, List.mem_append_right _ (List.mem_singleton.2 rfl), hc⟩

end FirstOccurrences

namespace Entries

/-! ## Equivalence of keys -/

/-- A comparison of keys that is an equivalence among those that satisfy `p`. -/
structure KeyEq (test : κ → κ → Bool) (p : κ → Prop) : Prop where
  self : ∀ a, p a → test a a = true
  exchanges : ∀ a, p a → Exchanges test p a

namespace KeyEq

variable {test : κ → κ → Bool} {p : κ → Prop} {a b c : κ}

theorem comm (h : KeyEq test p) (ha : p a) (hb : p b) : test a b = test b a := by
  rw [Bool.eq_iff_iff]
  exact ⟨fun hab => (h.exchanges a ha b hb hab).1, fun hba => (h.exchanges b hb a ha hba).1⟩

/-- Equal keys are equal to the same keys. -/
theorem congr (h : KeyEq test p) (ha : p a) (hb : p b) (hab : test a b = true) (hc : p c) :
    test a c = test b c :=
  ((h.exchanges a ha b hb hab).2 c hc).symm

/-- Equal keys can be exchanged on both sides. -/
theorem congr₂ {a' b' : κ} (h : KeyEq test p) (ha : p a) (ha' : p a') (hb : p b) (hb' : p b')
    (haa' : test a a' = true) (hbb' : test b b' = true) : test a b = test a' b' := by
  rw [h.congr ha ha' haa' hb, h.comm ha' hb, h.congr hb hb' hbb' ha', h.comm hb' ha']

end KeyEq

/-! ## Puts -/

/-- A put replaces the value of every key that the test accepts, where it accepts one only. -/
theorem put_eq_map {t : κ → Bool} {entries : List (κ × β)} (key : κ) (value : β)
    (hone : entries.Pairwise fun e f => t e.1 = true → t f.1 = false)
    (hany : (keys entries).any t = true) :
    put t key value entries = entries.map fun e => if t e.1 then (e.1, value) else e := by
  induction entries with
  | nil => cases hany
  | cons e rest ih =>
    rw [List.pairwise_cons] at hone
    by_cases he : t e.1 = true
    · have hrest : rest.map (fun f => if t f.1 then (f.1, value) else f) = rest := by
        refine (List.map_congr_left fun f hf => ?_).trans (List.map_id rest)
        simp [hone.1 f hf he]
      rw [put, if_pos he, List.map_cons, if_pos he, hrest]
    · have hany' : (keys rest).any t = true := by simpa [keys, he] using hany
      rw [put, if_neg he, List.map_cons, if_neg he, ih hone.2 hany']

/-- A put of a new key adds an entry at the end. -/
theorem put_eq_concat {t : κ → Bool} {entries : List (κ × β)} (key : κ) (value : β)
    (hnone : (keys entries).any t = false) :
    put t key value entries = entries ++ [(key, value)] := by
  induction entries with
  | nil => rfl
  | cons e rest ih =>
    simp only [keys, List.map_cons, List.any_cons, Bool.or_eq_false_iff] at hnone
    rw [put, if_neg (by simp [hnone.1]), ih hnone.2, List.cons_append]

theorem put_congr {t t' : κ → Bool} {entries : List (κ × β)} (key : κ) (value : β)
    (h : ∀ e ∈ entries, t e.1 = t' e.1) : put t key value entries = put t' key value entries := by
  induction entries with
  | nil => rfl
  | cons e rest ih =>
    rw [put, put, h e List.mem_cons_self, ih fun f hf => h f (List.mem_cons_of_mem e hf)]

/-- A put into entries whose keys and values were replaced. -/
theorem put_map {κ' β' : Type} (k : κ → κ') (f : β → β') (t : κ' → Bool) (key : κ) (value : β)
    (entries : List (κ × β)) : put t (k key) (f value) (entries.map (Prod.map k f)) =
      (put (fun stored => t (k stored)) key value entries).map (Prod.map k f) := by
  induction entries with
  | nil => rfl
  | cons e entries ih =>
    rw [List.map_cons, put, put, ih, apply_ite (List.map (Prod.map k f))]
    rfl

/-- The entries after all pairs were put in order. -/
def putAll (test : κ → κ → Bool) (pairs : List (κ × β)) : List (κ × β) :=
  pairs.foldl (fun entries e => put (test e.1) e.1 e.2 entries) []

theorem putAll_concat (test : κ → κ → Bool) (pairs : List (κ × β)) (e : κ × β) :
    putAll test (pairs ++ [e]) = put (test e.1) e.1 e.2 (putAll test pairs) :=
  List.foldl_concat _ _ _ _

theorem key_of_mem_putAll {test : κ → κ → Bool} {pairs : List (κ × β)} {e : κ × β}
    (h : e ∈ putAll test pairs) : ∃ f ∈ pairs, f.1 = e.1 := by
  induction pairs using List.reverseRecOn generalizing e with
  | nil => cases h
  | append_singleton pairs g ih =>
    have hlast : g ∈ pairs ++ [g] := List.mem_append_right _ (List.mem_singleton.2 rfl)
    have hold : (∃ f ∈ putAll test pairs, f.1 = e.1) → ∃ f ∈ pairs ++ [g], f.1 = e.1 := by
      rintro ⟨f, hf, hfe⟩
      obtain ⟨f', hf', hff⟩ := ih hf
      exact ⟨f', List.mem_append_left _ hf', hff.trans hfe⟩
    rw [putAll_concat] at h
    rcases mem_put h with h | ⟨-, h | h⟩
    · exact hold ⟨e, h, rfl⟩
    · exact ⟨g, hlast, h.symm⟩
    · exact hold h

/-- Tests that agree on the keys put the pairs in the same way. -/
theorem putAll_congr {test test' : κ → κ → Bool} {pairs : List (κ × β)}
    (h : ∀ e ∈ pairs, ∀ f ∈ pairs, test e.1 f.1 = test' e.1 f.1) :
    putAll test pairs = putAll test' pairs := by
  induction pairs using List.reverseRecOn with
  | nil => rfl
  | append_singleton pairs g ih =>
    have hold : ∀ e ∈ pairs, e ∈ pairs ++ [g] := fun e he => List.mem_append_left _ he
    have hlast : g ∈ pairs ++ [g] := List.mem_append_right _ (List.mem_singleton.2 rfl)
    rw [putAll_concat, putAll_concat, ih fun e he f hf => h e (hold e he) f (hold f hf)]
    refine put_congr g.1 g.2 fun e he => ?_
    obtain ⟨f, hf, hfe⟩ := key_of_mem_putAll he
    rw [← hfe]
    exact h g hlast f (hold f hf)

/-! ## The association list -/

/-- The value of the last key that the test accepts. -/
def findLast? (t : κ → Bool) (pairs : List (κ × β)) : Option β := find? t pairs.reverse

/-- One entry for each class of equal keys, in the order in which the classes first occur: the
first key of the class with the last value of the class. -/
def association (test : κ → κ → Bool) (pairs : List (κ × β)) : List (κ × β) :=
  ((keys pairs).eraseDupsBy test).filterMap fun key =>
    (findLast? (test key) pairs).map fun value => (key, value)

theorem findLast?_concat (t : κ → Bool) (pairs : List (κ × β)) (e : κ × β) :
    findLast? t (pairs ++ [e]) = if t e.1 then some e.2 else findLast? t pairs := by
  unfold findLast? find?
  rw [List.reverse_append, List.reverse_singleton, List.singleton_append, List.find?_cons]
  cases t e.1 <;> rfl

theorem isSome_findLast? {t : κ → Bool} {pairs : List (κ × β)} :
    (findLast? t pairs).isSome = true ↔ ∃ e ∈ pairs, t e.1 = true := by
  simp [findLast?, find?]

variable {test : κ → κ → Bool} {p : κ → Prop} {pairs : List (κ × β)}

/-- Every key of a pair has a last value. -/
theorem exists_findLast?_eq (hK : KeyEq test p) (hp : ∀ e ∈ pairs, p e.1) {key : κ}
    (hkey : key ∈ keys pairs) : ∃ value, findLast? (test key) pairs = some value := by
  obtain ⟨e, he, rfl⟩ := List.mem_map.1 hkey
  exact Option.isSome_iff_exists.1 (isSome_findLast?.2 ⟨e, he, hK.self e.1 (hp e he)⟩)

/-- Equal keys have one last value. -/
theorem findLast?_congr (hK : KeyEq test p) (hp : ∀ e ∈ pairs, p e.1) {a b : κ} (ha : p a)
    (hb : p b) (hab : test a b = true) : findLast? (test a) pairs = findLast? (test b) pairs := by
  induction pairs using List.reverseRecOn with
  | nil => rfl
  | append_singleton pairs e ih =>
    have he := hp e (List.mem_append_right _ (List.mem_singleton.2 rfl))
    rw [findLast?_concat, findLast?_concat, hK.congr ha hb hab he,
      ih fun f hf => hp f (List.mem_append_left _ hf)]

theorem mem_association {e : κ × β} : e ∈ association test pairs ↔
    e.1 ∈ (keys pairs).eraseDupsBy test ∧ findLast? (test e.1) pairs = some e.2 := by
  unfold association
  rw [List.mem_filterMap]
  constructor
  · rintro ⟨key, hkey, h⟩
    obtain ⟨value, hvalue, rfl⟩ := Option.map_eq_some_iff.1 h
    exact ⟨hkey, hvalue⟩
  · rintro ⟨hkey, hvalue⟩
    exact ⟨e.1, hkey, Option.map_eq_some_iff.2 ⟨e.2, hvalue, rfl⟩⟩

/-- The keys are the first ones of their classes. -/
theorem keys_association (hK : KeyEq test p) (hp : ∀ e ∈ pairs, p e.1) :
    keys (association test pairs) = (keys pairs).eraseDupsBy test := by
  unfold association keys
  rw [List.map_filterMap]
  refine (List.filterMap_congr fun key hkey => ?_).trans (List.filterMap_some)
  obtain ⟨value, hvalue⟩ := exists_findLast?_eq hK hp (mem_of_mem_eraseDupsBy hkey)
  rw [hvalue]
  rfl

theorem key_of_mem_association (hp : ∀ e ∈ pairs, p e.1) {e : κ × β}
    (he : e ∈ association test pairs) : p e.1 := by
  obtain ⟨f, hf, hkey⟩ := List.mem_map.1 (mem_of_mem_eraseDupsBy (mem_association.1 he).1)
  exact hkey ▸ hp f hf

/-- The keys are pairwise unequal. -/
theorem apart_association (hK : KeyEq test p) (hp : ∀ e ∈ pairs, p e.1) :
    Apart test (association test pairs) := by
  have hkeys : (keys (association test pairs)).Pairwise fun a b => test b a = false := by
    rw [keys_association hK hp]
    exact pairwise_eraseDupsBy (keys pairs)
  unfold Apart
  refine (List.pairwise_map.1 hkeys).imp_of_mem fun {e f} he hf hne => ?_
  rw [hK.comm (key_of_mem_association hp he) (key_of_mem_association hp hf)]
  exact hne

/-- **Looking up any key finds the last value that was put under an equal one.** -/
theorem find?_association (hK : KeyEq test p) (hp : ∀ e ∈ pairs, p e.1) {key : κ}
    (hkey : p key) : find? (test key) (association test pairs) = findLast? (test key) pairs := by
  cases hfind : find? (test key) (association test pairs) with
  | some value =>
    obtain ⟨l, e, r, hes, htest, rfl, -⟩ := find?_eq_some hfind
    have he : e ∈ association test pairs := by simp [hes]
    rw [findLast?_congr hK hp hkey (key_of_mem_association hp he) htest,
      (mem_association.1 he).2]
  | none =>
    have hnone : ∀ e ∈ association test pairs, ¬ test key e.1 = true :=
      List.find?_eq_none.1 (Option.map_eq_none_iff.1 hfind)
    refine (Option.not_isSome_iff_eq_none.1 fun hsome => ?_).symm
    -- The class of a pair that was put has a first key, and that one would have been found.
    obtain ⟨e, he, htest⟩ := isSome_findLast?.1 hsome
    have hself : ∀ a ∈ keys pairs, test a a = true := fun a ha => by
      obtain ⟨f, hf, rfl⟩ := List.mem_map.1 ha
      exact hK.self f.1 (hp f hf)
    obtain ⟨first, hfirst, hefirst⟩ := exists_mem_eraseDupsBy hself e.1 (List.mem_map_of_mem he)
    rw [← keys_association hK hp] at hfirst
    obtain ⟨f, hf, rfl⟩ := List.mem_map.1 hfirst
    have hpf := key_of_mem_association hp hf
    exact hnone f hf ((hK.congr hkey (hp e he) htest hpf).trans hefirst)

/-- **One more pair changes the association list as a put does.** -/
theorem association_concat (hK : KeyEq test p) (hp : ∀ e ∈ pairs, p e.1) {e : κ × β}
    (he : p e.1) : association test (pairs ++ [e]) =
      put (test e.1) e.1 e.2 (association test pairs) := by
  have hfirsts := keys_association hK hp
  have hfound : ∀ f ∈ association test pairs, findLast? (test f.1) pairs = some f.2 :=
    fun f hf => (mem_association.1 hf).2
  have hcomm : ∀ f ∈ association test pairs, test f.1 e.1 = test e.1 f.1 := fun f hf =>
    hK.comm (key_of_mem_association hp hf) he
  -- What the new pair makes of the entries that are there.
  have hold : ((keys pairs).eraseDupsBy test).filterMap (fun key =>
      (findLast? (test key) (pairs ++ [e])).map fun value => (key, value)) =
      (association test pairs).map fun f => if test e.1 f.1 then (f.1, e.2) else f := by
    rw [← hfirsts, keys, List.filterMap_map, ← List.filterMap_eq_map]
    refine List.filterMap_congr fun f hf => ?_
    show (findLast? (test f.1) (pairs ++ [e])).map (fun value => (f.1, value)) =
      some (if test e.1 f.1 then (f.1, e.2) else f)
    rw [findLast?_concat, hcomm f hf, hfound f hf]
    split <;> rfl
  have hkeys : keys (pairs ++ [e]) = keys pairs ++ [e.1] := List.map_append
  rw [association, hkeys, eraseDupsBy_concat]
  cases hany : ((keys pairs).eraseDupsBy test).any (test e.1) with
  | true =>
    rw [if_pos rfl, hold, put_eq_map e.1 e.2 ?_ (hfirsts ▸ hany)]
    refine (apart_association hK hp).imp_of_mem fun {f g} hf hg hne hef => ?_
    rw [hK.congr he (key_of_mem_association hp hf) hef (key_of_mem_association hp hg)]
    exact hne
  | false =>
    rw [if_neg Bool.false_ne_true, List.filterMap_append, hold,
      put_eq_concat e.1 e.2 (hfirsts ▸ hany)]
    congr 1
    · refine (List.map_congr_left fun f hf => ?_).trans (List.map_id _)
      have hne : test e.1 f.1 = false := Bool.eq_false_iff.2
        (List.any_eq_false.1 hany f.1 (hfirsts ▸ List.mem_map_of_mem hf))
      rw [hne]
      rfl
    · show ((findLast? (test e.1) (pairs ++ [e])).map fun value => (e.1, value)).toList = _
      rw [findLast?_concat, if_pos (hK.self e.1 he)]
      rfl

/-- **Putting all pairs gives their association list.** -/
theorem putAll_eq_association (hK : KeyEq test p) (hp : ∀ e ∈ pairs, p e.1) :
    putAll test pairs = association test pairs := by
  induction pairs using List.reverseRecOn with
  | nil => rfl
  | append_singleton pairs e ih =>
    have hpairs : ∀ f ∈ pairs, p f.1 := fun f hf => hp f (List.mem_append_left _ hf)
    have he : p e.1 := hp e (List.mem_append_right _ (List.mem_singleton.2 rfl))
    rw [putAll_concat, association_concat hK hpairs he, ih hpairs]

/-- Pairs with pairwise unequal keys are their own association list. -/
theorem association_of_apart (hK : KeyEq test p) (hp : ∀ e ∈ pairs, p e.1)
    (h : Apart test pairs) : association test pairs = pairs := by
  induction pairs using List.reverseRecOn with
  | nil => rfl
  | append_singleton pairs e ih =>
    have hpairs : ∀ f ∈ pairs, p f.1 := fun f hf => hp f (List.mem_append_left _ hf)
    have he : p e.1 := hp e (List.mem_append_right _ (List.mem_singleton.2 rfl))
    obtain ⟨hapart, -, hlast⟩ := List.pairwise_append.1 h
    have hnone : (keys pairs).any (test e.1) = false := by
      rw [List.any_eq_false]
      intro key hkey
      obtain ⟨f, hf, rfl⟩ := List.mem_map.1 hkey
      rw [hK.comm he (hpairs f hf), hlast f hf e (List.mem_singleton.2 rfl)]
      exact Bool.false_ne_true
    rw [association_concat hK hpairs he, ih hpairs hapart, put_eq_concat e.1 e.2 hnone]

end Entries

end Stylesheet
