import Stylesheet.Proofs.Text.Acceptance

/-!
# Escapes inside and outside quotes

**Theorem (`unquote_eq_readEscapes`).** A text in which every backslash is followed by a digit is
read the same way between quote marks and without them. Without them a text stays as it is exactly
if no backslash in it is followed by a digit.

The readers differ at a backslash that no digit follows. Between marks it is left out and the
character behind it is taken as it is; without marks it stays. At any other place they do the same
and go on with the same rest, so the one is compared with the other along its recursion
(`unescapeBody?_eq_decodeEscapes`). What an escape leaves is an end of the text, so it has no
backslashes of its own (`suffix_of_hexEscape?`). For the same reason no escape is passed over: each
makes the text shorter, and nothing that is read makes it longer (`length_decodeEscapes_le`).
-/

namespace Stylesheet.Text

/-! ## Backslashes of a text -/

/-- What stands behind each backslash of the text has the property. -/
def EachBackslash (P : List Char → Prop) (cs : List Char) : Prop :=
  ∀ rest, '\\' :: rest <:+ cs → P rest

section Backslashes

variable {P : List Char → Prop} {cs rest : List Char}

theorem EachBackslash.of_suffix (h : EachBackslash P cs) (hsuffix : rest <:+ cs) :
    EachBackslash P rest :=
  fun behind hbehind => h behind (hbehind.trans hsuffix)

theorem eachBackslash_cons_iff {c : Char} :
    EachBackslash P (c :: cs) ↔ (c = '\\' → P cs) ∧ EachBackslash P cs := by
  refine ⟨fun h => ⟨?_, h.of_suffix (List.suffix_cons c cs)⟩, fun h rest hrest => ?_⟩
  · rintro rfl
    exact h cs List.suffix_rfl
  · rcases List.suffix_cons_iff.1 hrest with heq | hrest
    · obtain ⟨rfl, rfl⟩ := List.cons.inj heq
      exact h.1 rfl
    · exact h.2 rest hrest

/-- Whether each backslash is followed by what it should be can be tested from the left. -/
instance EachBackslash.decidable [DecidablePred P] :
    (cs : List Char) → Decidable (EachBackslash P cs)
  | [] => .isTrue fun _ h => by simp at h
  | _ :: cs =>
    have := decidable cs
    decidable_of_iff _ eachBackslash_cons_iff.symm

end Backslashes

/-- What an escape leaves is an end of the text it was read from. -/
theorem suffix_of_hexEscape? {cs rest : List Char} {c : Char} (h : hexEscape? cs = some (c, rest)) :
    rest <:+ cs := by
  obtain ⟨d, ds, rfl, -⟩ := exists_eq_cons_of_hexEscape? h
  exact ⟨d :: ds, rfl⟩

/-! ## Outside quotes -/

/-- No character stands for more than one. -/
theorem length_decodeEscapes_le (cs : List Char) : (decodeEscapes cs).length ≤ cs.length := by
  fun_induction decodeEscapes cs with
  | case1 => exact le_rfl
  | case2 cs decoded rest hread ih =>
    have := hexEscape?_length hread
    simp only [List.length_cons]
    omega
  | case3 cs hread ih => exact Nat.succ_le_succ ih
  | case4 c cs hc ih => exact Nat.succ_le_succ ih

/-- A text stays as it is exactly if there is no escape in it. -/
theorem decodeEscapes_eq_self_iff (cs : List Char) :
    decodeEscapes cs = cs ↔ EachBackslash (fun rest => rest.head?.any isHexDigit = false) cs := by
  fun_induction decodeEscapes cs with
  | case1 => simp [EachBackslash]
  | case2 cs decoded rest hread ih =>
    have hdigit : cs.head?.any isHexDigit = true := by rw [← isSome_hexEscape?, hread]; rfl
    refine iff_of_false (fun h => ?_) (fun h => ?_)
    · have hlength := congrArg List.length (List.cons.inj h).2
      have := length_decodeEscapes_le rest
      have := hexEscape?_length hread
      omega
    · have := h cs List.suffix_rfl
      simp [hdigit] at this
  | case3 cs hread ih =>
    have hdigit : cs.head?.any isHexDigit = false := by rw [← isSome_hexEscape?, hread]; rfl
    simp [eachBackslash_cons_iff, hdigit, ih]
  | case4 c cs hc ih => simp [eachBackslash_cons_iff, hc, ih]

/-! ## Inside quotes -/

/-- Between marks the text is read as without them, if every backslash in it begins an escape. -/
theorem unescapeBody?_eq_decodeEscapes {how : Reading} (hkeep : how.keepEscapes = false) {q : Char}
    {cs : List Char} (hmark : how.strict = true → q ∉ cs)
    (h : EachBackslash (fun rest => rest.head?.any isHexDigit = true) cs) :
    unescapeBody? how q false cs = some (decodeEscapes cs) := by
  fun_induction decodeEscapes cs with
  | case1 => simp [unescapeBody?]
  | case2 cs decoded rest hread ih =>
    have hsuffix := (suffix_of_hexEscape? hread).trans (List.suffix_cons '\\' cs)
    rw [unescapeBody?_of_hexEscape? hkeep q hread,
      ih (fun hstrict hq => hmark hstrict (hsuffix.subset hq)) (h.of_suffix hsuffix)]
    rfl
  | case3 cs hread ih =>
    have hdigit := h cs List.suffix_rfl
    simp [← isSome_hexEscape?, hread] at hdigit
  | case4 c cs hc ih =>
    have hcs := ih (fun hstrict hq => hmark hstrict (List.mem_cons_of_mem c hq))
      (eachBackslash_cons_iff.1 h).2
    have hplain : ¬ (how.strict = true ∧ false = false ∧ c = q) := fun hq =>
      hmark hq.1 (hq.2.2 ▸ List.mem_cons_self)
    rw [unescapeBody?, if_neg (by simp [hc]), if_neg hplain, hcs]
    rfl

/-- **Escapes are read the same way inside and outside quotes.** A text whose backslashes all stand
in front of a digit is read between marks as it is read without them; a strict reader takes only
marks that are not in the text. Without marks a text changes exactly if a backslash in it stands in
front of a digit. -/
theorem unquote_eq_readEscapes (s : String) :
    (∀ q strict, q = single ∨ q = double → (strict = true → q ∉ s.toList) →
      EachBackslash (fun rest => rest.head?.any isHexDigit = true) s.toList →
        unquote (q.toString ++ s ++ q.toString) { keepEscapes := false, strict } =
          (readEscapes s, some q)) ∧
    (readEscapes s = s ↔
      EachBackslash (fun rest => rest.head?.any isHexDigit = false) s.toList) := by
  constructor
  · intro q strict hq hmark hdigits
    have henclosed : enclosed? (q.toString ++ s ++ q.toString).toList = some (q, s.toList) :=
      enclosed?_eq_some_iff.2 ⟨by simpa [isMark] using hq, by simp⟩
    rw [unquote_of_enclosed? henclosed, unescapeBody?_eq_decodeEscapes rfl hmark hdigits]
    rfl
  · rw [← decodeEscapes_eq_self_iff, ← String.toList_inj, readEscapes, String.toList_ofList]

/-- Two escapes side by side, and one whose space is the last character before the mark. A backslash
in front of a letter past the digits stays. -/
theorem unquote_eq_readEscapes_adjacent :
    unquote "'\\41\\42 c\\64 '" { keepEscapes := false } =
        (readEscapes "\\41\\42 c\\64 ", some single) ∧
      readEscapes "C:\\new\\" = "C:\\new\\" :=
  ⟨(unquote_eq_readEscapes "\\41\\42 c\\64 ").1 single true (.inl rfl) (by decide) (by decide),
    (unquote_eq_readEscapes "C:\\new\\").2.2 (by decide)⟩

end Stylesheet.Text
