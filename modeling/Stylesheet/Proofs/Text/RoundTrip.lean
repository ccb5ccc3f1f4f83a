import Mathlib.Data.List.Infix
import Stylesheet.Text.Quoted

/-!
# Reading back quoted text

Quoting a text and reading the quotes again gives the text, except that a carriage return and the
line break after it come back as one line break (`joinBreaks`).

**Theorem (`unquote_quote`).** For every text, every preferred mark and both ways of reading, the
quoted text reads back as the joined text with the mark that was chosen. Nothing is lost exactly
when no carriage return stands before a line break. The quoted text holds no line break, and the
chosen mark occurs in the text only when both marks do.

The writer looks one character ahead and the reader keeps a flag and reads escapes of any length.
They agree because an escape for a line break always ends where the writer ended it: the character
after it is no digit, and a space after it is one that the writer put there
(`head?_escapeBody`, `hexEscape?_newlineEscape`).
-/

namespace Stylesheet.Text

/-! ## Joined line breaks -/

/-- The text with each carriage return that a line break follows left out, from the left. -/
def joinBreaks : List Char → List Char
  | [] => []
  | '\r' :: '\n' :: cs => '\n' :: joinBreaks cs
  | c :: cs => c :: joinBreaks cs

theorem length_joinBreaks_le (cs : List Char) : (joinBreaks cs).length ≤ cs.length := by
  fun_induction joinBreaks cs with
  | case1 => exact le_rfl
  | case2 cs ih => simp only [List.length_cons]; omega
  | case3 c cs _ ih => exact Nat.succ_le_succ ih

/-- Joining loses nothing exactly where there is nothing to join. -/
theorem joinBreaks_eq_self_iff (cs : List Char) :
    joinBreaks cs = cs ↔ ¬ ['\r', '\n'] <:+: cs := by
  fun_induction joinBreaks cs with
  | case1 => simp
  | case2 cs ih =>
    have hlt : ('\n' :: joinBreaks cs).length < ('\r' :: '\n' :: cs).length := by
      have := length_joinBreaks_le cs
      simp only [List.length_cons]
      omega
    -- The joined text is shorter, so it is not the text.
    refine iff_of_false (fun h => ?_) (not_not.2 ⟨[], cs, rfl⟩)
    rw [h] at hlt
    exact lt_irrefl _ hlt
  | case3 c cs hpair ih =>
    rw [List.cons.injEq, List.infix_cons_iff, ih]
    have hstart : ¬ ['\r', '\n'] <+: c :: cs := by
      rintro ⟨rest, hrest⟩
      obtain ⟨rfl, rfl⟩ := List.cons.inj hrest
      exact hpair rest rfl rfl
    simp [hstart]

/-! ## The chosen mark -/

theorem isMark_bestMark (cs : List Char) (fallback : Char) :
    isMark (bestMark cs fallback) = true := by
  unfold bestMark
  split_ifs with hs hd hf
  · rfl
  · rfl
  · exact hf
  · rfl

/-- The chosen mark needs an escape only where both marks would. -/
theorem bestMark_mem_iff (cs : List Char) (fallback : Char) :
    bestMark cs fallback ∈ cs ↔ single ∈ cs ∧ double ∈ cs := by
  unfold bestMark
  split_ifs with hs hd hf
  · simp [hs]
  · simp [hs]
  · have : fallback = single ∨ fallback = double := by simpa [isMark] using hf
    rcases this with rfl | rfl <;> simp [hs, hd]
  · simp [hd]

theorem ne_of_isMark {q c : Char} (hq : isMark q = true) (hc : isMark c = false) : c ≠ q := by
  rintro rfl
  simp [hq] at hc

theorem isHexDigit_of_isMark {q : Char} (hq : isMark q = true) : isHexDigit q = false := by
  have : q = single ∨ q = double := by simpa [isMark] using hq
  rcases this with rfl | rfl <;> decide

/-! ## Escapes that the writer makes -/

/-- Behind an escape for a line break that no space ends, the written text goes on with a
character that does not belong to the escape. -/
theorem head?_escapeBody {q : Char} {cs : List Char}
    (h : (cs.head?.any fun c => isHexDigit c || isAsciiBlank c) = false) :
    ∀ c ∈ (escapeBody q cs).head?, isHexDigit c = false ∧ c ≠ ' ' := by
  fun_cases escapeBody q cs with
  | case1 => simp
  | case2 cs => simp [isAsciiBlank] at h
  | case3 cs => simp [isAsciiBlank] at h
  | case4 | case5 =>
    intro c hc
    obtain rfl : '\\' = c := by simpa using hc
    decide
  | case6 c cs =>
    intro d hd
    obtain rfl : c = d := by simpa using hd
    have hplain : isHexDigit c = false ∧ isAsciiBlank c = false := by simpa using h
    refine ⟨hplain.1, ?_⟩
    rintro rfl
    exact absurd hplain.2 (by decide)

theorem hexEscape?_of_not_digit {c : Char} (hc : isHexDigit c = false) (cs : List Char) :
    hexEscape? (c :: cs) = none := by
  simp [hexEscape?, hc]

/-- The digit of a line break, where no further digit follows. -/
theorem hexEscape?_a {cs : List Char} (h : ∀ c ∈ cs.head?, isHexDigit c = false) :
    hexEscape? ('a' :: cs) = some ('\n', dropSpace cs) := by
  have hdigit : ∀ d ∈ ['a'], isHexDigit d = true := List.forall_mem_singleton.2 (by decide)
  exact hexEscape?_append (List.cons_ne_nil 'a' []) hdigit h

theorem dropSpace_of_head? {cs : List Char} (h : ∀ c ∈ cs.head?, c ≠ ' ') : dropSpace cs = cs := by
  cases cs with
  | nil => rfl
  | cons c cs =>
    unfold dropSpace
    split
    · next heq => exact absurd (List.head_eq_of_cons_eq heq) (h c rfl)
    · rfl

/-- The reader ends an escape for a line break where the writer ended it. -/
theorem hexEscape?_newlineEscape (q : Char) (cs : List Char) :
    ∃ rest, newlineEscape cs ++ escapeBody q cs = '\\' :: rest ∧
      hexEscape? rest = some ('\n', escapeBody q cs) := by
  unfold newlineEscape
  split_ifs with h
  · refine ⟨'a' :: ' ' :: escapeBody q cs, rfl, ?_⟩
    refine hexEscape?_a fun c hc => ?_
    obtain rfl : ' ' = c := by simpa using hc
    decide
  · have hhead := head?_escapeBody (q := q) (by simpa using h)
    refine ⟨'a' :: escapeBody q cs, rfl, ?_⟩
    rw [hexEscape?_a fun c hc => (hhead c hc).1, dropSpace_of_head? fun c hc => (hhead c hc).2]

/-! ## One step of the reader -/

section Reader

variable {how : Reading} (hkeep : how.keepEscapes = false) (q : Char)

include hkeep

theorem unescapeBody?_of_hexEscape? {cs rest : List Char} {c : Char}
    (h : hexEscape? cs = some (c, rest)) :
    unescapeBody? how q false ('\\' :: cs) = (unescapeBody? how q false rest).map (c :: ·) := by
  rw [unescapeBody?, if_pos ⟨rfl, rfl⟩, if_neg (by simp [hkeep])]
  split
  · next heq =>
    obtain ⟨rfl, rfl⟩ : _ ∧ _ := by simpa [h] using heq
    rfl
  · next heq => simp [h] at heq

/-- A backslash in front of a character that is no digit stands for the character. -/
theorem unescapeBody?_backslash {c : Char} (hc : isHexDigit c = false) (cs : List Char) :
    unescapeBody? how q false ('\\' :: c :: cs) =
      (unescapeBody? how q false cs).map (c :: ·) := by
  have hnone := hexEscape?_of_not_digit hc cs
  rw [unescapeBody?, if_pos ⟨rfl, rfl⟩, if_neg (by simp [hkeep])]
  split
  · next heq => simp [hnone] at heq
  · rw [unescapeBody?, if_neg (by simp), if_neg (by simp)]

omit hkeep in
theorem unescapeBody?_plain {c : Char} (hback : c ≠ '\\') (hmark : c ≠ q) (cs : List Char) :
    unescapeBody? how q false (c :: cs) = (unescapeBody? how q false cs).map (c :: ·) := by
  rw [unescapeBody?, if_neg (by simp [hback]), if_neg (by simp [hmark])]

/-- Reading what was written between two marks gives the joined text. -/
theorem unescapeBody?_escapeBody {q : Char} (hq : isMark q = true) (cs : List Char) :
    unescapeBody? how q false (escapeBody q cs) = some (joinBreaks cs) := by
  fun_induction joinBreaks cs with
  | case1 => simp [escapeBody, unescapeBody?]
  | case2 cs ih =>
    obtain ⟨rest, hrest, hread⟩ := hexEscape?_newlineEscape q cs
    rw [escapeBody, hrest, unescapeBody?_of_hexEscape? hkeep q hread, ih]
    rfl
  | case3 c cs hpair ih =>
    -- A lone line break is written like a joined one; any other character with at most a backslash.
    by_cases hbreak : c = '\n'
    · subst hbreak
      obtain ⟨rest, hrest, hread⟩ := hexEscape?_newlineEscape q cs
      rw [escapeBody, hrest, unescapeBody?_of_hexEscape? hkeep q hread, ih]
      rfl
    · rw [escapeBody.eq_4 q c cs hpair hbreak]
      split_ifs with hback hmark
      · rw [unescapeBody?_backslash hkeep q (by decide), ih, hback]
        rfl
      · rw [unescapeBody?_backslash hkeep q (hmark ▸ isHexDigit_of_isMark hq), ih]
        rfl
      · rw [unescapeBody?_plain q hback hmark, ih]
        rfl

end Reader

/-! ## Marks around a text -/

theorem enclosed?_quoteWith {q : Char} (hq : isMark q = true) (cs : List Char) :
    enclosed? (quoteWith q cs) = some (q, escapeBody q cs) := by
  unfold quoteWith
  cases escapeBody q cs with
  | nil => simp [enclosed?, hq]
  | cons c body =>
    have hlast : (c :: (body ++ [q])).getLast? = some q := by
      rw [← List.cons_append, List.getLast?_concat]
    have hdrop : (c :: (body ++ [q])).dropLast = c :: body := by
      rw [← List.cons_append, List.dropLast_concat]
    rw [List.cons_append, enclosed?, if_pos ⟨hq, hlast⟩, hdrop]

/-- Nothing that is written between marks is a line break. -/
theorem newline_not_mem_escapeBody (q : Char) (cs : List Char) : '\n' ∉ escapeBody q cs := by
  have hescape (rest : List Char) : '\n' ∉ newlineEscape rest := by
    unfold newlineEscape
    split_ifs <;> decide
  fun_induction escapeBody q cs with
  | case1 => exact List.not_mem_nil
  | case2 cs ih | case3 cs ih => simp [hescape, ih]
  | case4 cs _ _ ih => simp [ih]
  | case5 cs _ hbreak _ ih => simp [ih, Ne.symm hbreak]
  | case6 c cs _ hbreak _ _ ih => simp [ih, Ne.symm hbreak]

theorem newline_not_mem_quoteWith {q : Char} (hq : isMark q = true) (cs : List Char) :
    '\n' ∉ quoteWith q cs := by
  have hne : '\n' ≠ q := ne_of_isMark hq (by decide)
  simp [quoteWith, newline_not_mem_escapeBody, hne]

/-- **Reading undoes quoting.** The quoted text reads back as the text with joined line breaks and
with the chosen mark. Joining changes only texts in which a carriage return stands before a line
break. The quoted text has no line break, and the chosen mark has to be escaped only in a text with
both marks. -/
theorem unquote_quote (s : String) (preferred : Option Char) (strict : Bool) :
    unquote (quote s preferred) { keepEscapes := false, strict } =
        (String.ofList (joinBreaks s.toList),
          some (bestMark s.toList (preferred.getD double))) ∧
      (joinBreaks s.toList = s.toList ↔ ¬ ['\r', '\n'] <:+: s.toList) ∧
      '\n' ∉ (quote s preferred).toList ∧
      (bestMark s.toList (preferred.getD double) ∈ s.toList ↔
        single ∈ s.toList ∧ double ∈ s.toList) := by
  have hmark := isMark_bestMark s.toList (preferred.getD double)
  refine ⟨?_, joinBreaks_eq_self_iff s.toList, ?_, bestMark_mem_iff _ _⟩
  · have hread : unescapeBody? { keepEscapes := false, strict } _ false _ = _ :=
      unescapeBody?_escapeBody rfl hmark s.toList
    simp only [unquote, quote, unquoteChars?, String.toList_ofList, enclosed?_quoteWith hmark,
      hread, Option.map_some]
  · rw [quote, String.toList_ofList]
    exact newline_not_mem_quoteWith hmark s.toList

end Stylesheet.Text
