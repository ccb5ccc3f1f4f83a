import Mathlib.Data.List.TakeWhile
import Stylesheet.Proofs.Text.RoundTrip

/-!
# Which texts are quoted strings

A quoted string begins and ends with one mark, and every backslash between the marks pairs up with
the character after it (`Paired`). When reading strictly, no mark of the same kind stands outside
such a pair.

**Theorem (`unquote_mark_iff`).** These are the texts that the reader takes the marks off, and it
does not matter whether it decodes escapes. Any other text comes back as it is, and a reader that
keeps escapes gives what stands between the marks.

A reader that keeps escapes goes on by one character, and one that decodes them goes on by whole
escapes, so the two are at different places. Both are compared with the pairs. The flag of the
reader stands for a backslash that it has taken and not yet paired (`isSome_unescapeBody?_iff`).
Behind the digit that pairs with its backslash an escape has only further digits and a space, and
none of them is a backslash or a mark, so leaving them out changes no pair (`paired_of_hexEscape?`).
-/

namespace Stylesheet.Text

/-! ## Paired backslashes -/

/-- From the left, every backslash has a character after it to pair up with, and, if it is strict,
no mark `q` stands outside these pairs. -/
inductive Paired (strict : Bool) (q : Char) : List Char → Prop
  | nil : Paired strict q []
  | escape (c : Char) {cs : List Char} : Paired strict q cs → Paired strict q ('\\' :: c :: cs)
  | plain {c : Char} {cs : List Char} (hback : c ≠ '\\') (hmark : strict = true → c ≠ q) :
      Paired strict q cs → Paired strict q (c :: cs)

section Pairs

variable {strict : Bool} {q c : Char} {cs : List Char}

theorem not_paired_backslash : ¬ Paired strict q ['\\'] := by
  intro h
  cases h with
  | plain hback => exact hback rfl

theorem paired_backslash_iff : Paired strict q ('\\' :: c :: cs) ↔ Paired strict q cs := by
  refine ⟨fun h => ?_, .escape c⟩
  cases h with
  | escape _ hcs => exact hcs
  | plain hback => exact absurd rfl hback

theorem paired_cons_iff (hback : c ≠ '\\') :
    Paired strict q (c :: cs) ↔ (strict = true → c ≠ q) ∧ Paired strict q cs := by
  refine ⟨fun h => ?_, fun h => .plain hback h.1 h.2⟩
  cases h with
  | escape => exact absurd rfl hback
  | plain _ hmark hcs => exact ⟨hmark, hcs⟩

/-- Characters that are neither backslashes nor marks change no pair behind them. -/
theorem paired_append_iff {ds : List Char} (h : ∀ d ∈ ds, d ≠ '\\' ∧ d ≠ q) :
    Paired strict q (ds ++ cs) ↔ Paired strict q cs := by
  induction ds with
  | nil => rfl
  | cons d ds ih =>
    have hd := h d List.mem_cons_self
    have hds := ih fun e he => h e (List.mem_cons_of_mem d he)
    simp [paired_cons_iff hd.1, hd.2, hds]

end Pairs

/-! ## Escapes inside pairs -/

theorem exists_eq_append_dropSpace (cs : List Char) :
    ∃ blank, cs = blank ++ dropSpace cs ∧ ∀ c ∈ blank, c = ' ' := by
  cases cs with
  | nil => exact ⟨[], rfl, by simp⟩
  | cons c cs =>
    by_cases hc : c = ' '
    · exact ⟨[' '], by simp [hc, dropSpace], by simp⟩
    · exact ⟨[], (dropSpace_of_head? (by simpa using hc)).symm, by simp⟩

/-- An escape is a digit, then further digits and perhaps a space. -/
theorem exists_eq_cons_of_hexEscape? {cs rest : List Char} {c : Char}
    (h : hexEscape? cs = some (c, rest)) :
    ∃ d ds, cs = d :: (ds ++ rest) ∧ ∀ e ∈ ds, isHexDigit e = true ∨ e = ' ' := by
  obtain ⟨blank, hblank, hspace⟩ := exists_eq_append_dropSpace (cs.dropWhile isHexDigit)
  have hsplit := List.takeWhile_append_dropWhile (p := isHexDigit) (l := cs)
  have hdigits : ∀ e ∈ cs.takeWhile isHexDigit, isHexDigit e = true :=
    fun e he => List.mem_takeWhile_imp he
  unfold hexEscape? at h
  cases htake : cs.takeWhile isHexDigit with
  | nil => simp [htake] at h
  | cons d ds =>
    obtain ⟨-, hrest⟩ : _ ∧ dropSpace (cs.dropWhile isHexDigit) = rest := by
      simpa [htake] using h
    rw [htake] at hsplit hdigits
    refine ⟨d, ds ++ blank, ?_, fun e he => ?_⟩
    · rw [← hsplit, hblank, hrest]
      simp
    · rcases List.mem_append.1 he with he | he
      · exact .inl (hdigits e (List.mem_cons_of_mem d he))
      · exact .inr (hspace e he)

/-- Reading a whole escape at once leaves the pairs behind it as they are. -/
theorem paired_of_hexEscape? {strict : Bool} {q c : Char} {cs rest : List Char}
    (hq : isMark q = true) (h : hexEscape? cs = some (c, rest)) :
    Paired strict q ('\\' :: cs) ↔ Paired strict q rest := by
  obtain ⟨d, ds, rfl, hds⟩ := exists_eq_cons_of_hexEscape? h
  rw [paired_backslash_iff]
  refine paired_append_iff fun e he => ?_
  rcases hds e he with hdigit | rfl
  · refine ⟨?_, ?_⟩ <;> rintro rfl
    · exact absurd hdigit (by decide)
    · exact absurd hdigit (by simp [isHexDigit_of_isMark hq])
  · exact ⟨by decide, ne_of_isMark hq (by decide)⟩

/-! ## The reader -/

section Reader

variable {q : Char}

/-- The reader gives a result exactly if the backslashes pair up, where its flag stands for a
backslash in front of the text. -/
theorem isSome_unescapeBody?_iff (how : Reading) (hq : isMark q = true) (escaped : Bool)
    (cs : List Char) :
    (unescapeBody? how q escaped cs).isSome = true ↔
      Paired how.strict q (if escaped = true then '\\' :: cs else cs) := by
  have hback : q ≠ '\\' := (ne_of_isMark hq (by decide)).symm
  fun_induction unescapeBody? how q escaped cs with
  | case1 => simp [not_paired_backslash]
  | case2 escaped hescaped => simp [hescaped, Paired.nil]
  | case3 escaped c cs hc hkeep ih => simpa [hc] using ih
  | case4 escaped c cs hc hkeep decoded rest hread ih =>
    simpa [hc, paired_of_hexEscape? hq hread] using ih
  | case5 escaped c cs hc hkeep hread ih => simpa [hc] using ih
  | case6 escaped c cs hc hmark =>
    obtain ⟨hstrict, rfl, rfl⟩ := hmark
    simp [paired_cons_iff hback, hstrict]
  | case7 escaped c cs hc hmark ih =>
    cases escaped with
    | true => simpa [paired_backslash_iff] using ih
    | false =>
      have hplain : c ≠ '\\' := by simpa using hc
      have hother : how.strict = true → c ≠ q := by simpa using hmark
      simpa [paired_cons_iff hplain, and_iff_right hother] using ih

/-- A reader that keeps escapes gives what it read. -/
theorem eq_of_unescapeBody? {how : Reading} (hkeep : how.keepEscapes = true) {escaped : Bool}
    {cs out : List Char} (h : unescapeBody? how q escaped cs = some out) : out = cs := by
  fun_induction unescapeBody? how q escaped cs generalizing out with
  | case1 => cases h
  | case2 => simpa using h.symm
  | case3 _ c cs _ _ ih | case7 _ c cs _ _ ih =>
    obtain ⟨rest, hrest, rfl⟩ := Option.map_eq_some_iff.1 h
    rw [ih hrest]
  | case4 _ _ _ _ hnot | case5 _ _ _ _ hnot => exact absurd hkeep hnot
  | case6 => cases h

end Reader

/-! ## Whole texts -/

theorem enclosed?_eq_some_iff {cs inner : List Char} {q : Char} :
    enclosed? cs = some (q, inner) ↔ isMark q = true ∧ cs = q :: (inner ++ [q]) := by
  constructor
  · intro h
    unfold enclosed? at h
    split at h
    · next first second rest =>
      split_ifs at h with hmark
      obtain ⟨rfl, rfl⟩ : first = q ∧ (second :: rest).dropLast = inner := by simpa using h
      refine ⟨hmark.1, ?_⟩
      rw [List.dropLast_append_getLast? first hmark.2]
    · cases h
  · rintro ⟨hmark, rfl⟩
    cases inner with
    | nil => simp [enclosed?, hmark]
    | cons c inner => simp [enclosed?, hmark, List.getLast?_cons, List.dropLast_cons_of_ne_nil]

/-- What the reader makes of a text between marks. -/
theorem unquote_of_enclosed? {s : String} {q : Char} {inner : List Char}
    (h : enclosed? s.toList = some (q, inner)) (how : Reading) :
    unquote s how =
      match unescapeBody? how q false inner with
      | some out => (String.ofList out, some q)
      | none => (s, none) := by
  simp only [unquote, unquoteChars?, h]
  cases unescapeBody? how q false inner <;> rfl

/-- A mark comes off exactly if it stands at both ends and the backslashes between pair up. -/
theorem unquote_snd_eq_some_iff (s : String) (how : Reading) (q : Char) :
    (unquote s how).2 = some q ↔
      isMark q = true ∧ ∃ inner, s.toList = q :: (inner ++ [q]) ∧ Paired how.strict q inner := by
  constructor
  · intro h
    cases henclosed : enclosed? s.toList with
    | none => simp [unquote, unquoteChars?, henclosed] at h
    | some ends =>
      obtain ⟨mark, inner⟩ := ends
      obtain ⟨hmark, hs⟩ := enclosed?_eq_some_iff.1 henclosed
      rw [unquote_of_enclosed? henclosed] at h
      cases hread : unescapeBody? how mark false inner with
      | none => simp [hread] at h
      | some out =>
        obtain rfl : mark = q := by simpa [hread] using h
        have hpaired := (isSome_unescapeBody?_iff how hmark false inner).1 (by simp [hread])
        exact ⟨hmark, inner, hs, hpaired⟩
  · rintro ⟨hmark, inner, hs, hpaired⟩
    have henclosed := enclosed?_eq_some_iff.2 ⟨hmark, hs⟩
    obtain ⟨out, hread⟩ := Option.isSome_iff_exists.1
      ((isSome_unescapeBody?_iff how hmark false inner).2 hpaired)
    rw [unquote_of_enclosed? henclosed, hread]

theorem unquote_fst_of_snd_eq_none {s : String} {how : Reading} (h : (unquote s how).2 = none) :
    (unquote s how).1 = s := by
  unfold unquote at h ⊢
  cases hread : unquoteChars? how s.toList with
  | none => rfl
  | some result => simp [hread] at h

theorem unquote_fst_of_keepEscapes {s : String} {how : Reading} (hkeep : how.keepEscapes = true)
    {q : Char} {inner : List Char} (hs : s.toList = q :: (inner ++ [q]))
    (h : (unquote s how).2 = some q) : (unquote s how).1 = String.ofList inner := by
  have hmark := ((unquote_snd_eq_some_iff s how q).1 h).1
  have henclosed := enclosed?_eq_some_iff.2 ⟨hmark, hs⟩
  rw [unquote_of_enclosed? henclosed] at h ⊢
  cases hread : unescapeBody? how q false inner with
  | none => simp [hread] at h
  | some out => rw [eq_of_unescapeBody? hkeep hread]

/-- **The reader takes the same texts for quoted strings, whether or not it decodes escapes.** It
takes off a mark that stands at both ends of a text of two characters or more, if every backslash
between has a character to pair up with and, when reading strictly, no such mark stands outside a
pair. Without a mark the text stays as it is, and with escapes kept it is what stood between. -/
theorem unquote_mark_iff (s : String) (strict : Bool) :
    (∀ keepEscapes q, (unquote s { keepEscapes, strict }).2 = some q ↔
        (q = single ∨ q = double) ∧
          ∃ inner, s.toList = q :: (inner ++ [q]) ∧ Paired strict q inner) ∧
      (unquote s { keepEscapes := true, strict }).2 =
        (unquote s { keepEscapes := false, strict }).2 ∧
      (∀ keepEscapes, (unquote s { keepEscapes, strict }).2 = none →
        (unquote s { keepEscapes, strict }).1 = s) ∧
      ∀ q inner, s.toList = q :: (inner ++ [q]) →
        (unquote s { keepEscapes := true, strict }).2 = some q →
          (unquote s { keepEscapes := true, strict }).1 = String.ofList inner := by
  refine ⟨fun keepEscapes q => ?_, ?_, fun _ => unquote_fst_of_snd_eq_none,
    fun q inner => unquote_fst_of_keepEscapes rfl⟩
  · simpa [isMark] using unquote_snd_eq_some_iff s { keepEscapes, strict } q
  · refine Option.ext fun q => ?_
    rw [unquote_snd_eq_some_iff, unquote_snd_eq_some_iff]

/-- The escape `\\22 ` says a double mark, and the space that ends it belongs to it. Both readers
take the marks off, and one that keeps escapes leaves the escape in the text. -/
theorem unquote_mark_iff_escapedMark :
    (unquote "\"a\\22 b\"" { keepEscapes := false }).2 = some '"' ∧
      unquote "\"a\\22 b\"" { keepEscapes := true } = ("a\\22 b", some '"') := by
  have hpaired : Paired true '"' ['a', '\\', '2', '2', ' ', 'b'] :=
    .plain (by decide) (by decide) <| .escape '2' <| .plain (by decide) (by decide) <|
      .plain (by decide) (by decide) <| .plain (by decide) (by decide) .nil
  have hspec := unquote_mark_iff "\"a\\22 b\"" true
  have htoken := (hspec.1 true '"').2 ⟨.inr rfl, _, by decide, hpaired⟩
  refine ⟨(hspec.1 false '"').2 ⟨.inr rfl, _, by decide, hpaired⟩, Prod.ext ?_ htoken⟩
  exact hspec.2.2.2 '"' _ (by decide) htoken

end Stylesheet.Text
