import Mathlib.Data.List.Induction
import Mathlib.Data.Nat.Digits.Defs
import Stylesheet.Text.Escape

/-!
# The number of an escape

**Theorem (`hexEscape?_run`).** An escape takes the whole run of digits behind its backslash, and
one space after the run. The digits write a number, of any length and with any zeros in front
(`hexNumber`), and the escape stands for the character with this code point. Where there is no such
character, and for zero, it stands for the replacement character.

The reader adds the digits up from the left and holds the sum at a bound. The exact number, held at
the bound once and at the end, is the same (`codePoint_eq_min`): a digit more never makes a number
smaller, so a sum that has reached the bound stays there. The bound itself is no code point, and
neither is any number above it, so what is held there is read as a number with no character
(`charOfCode_min`).
-/

namespace Stylesheet.Text

/-- The number that a run of hexadecimal digits writes. -/
def hexNumber (digits : List Char) : Nat := Nat.ofDigits 16 (digits.reverse.map hexValue)

theorem hexNumber_concat (digits : List Char) (d : Char) :
    hexNumber (digits ++ [d]) = hexNumber digits * 16 + hexValue d := by
  simp only [hexNumber, List.reverse_append, List.reverse_singleton, List.singleton_append,
    List.map_cons, Nat.ofDigits_cons]
  omega

/-- Holding the sum at the bound all along is holding the number there at the end. -/
theorem codePoint_eq_min (digits : List Char) :
    codePoint digits = min (hexNumber digits) codeBound := by
  induction digits using List.reverseRecOn with
  | nil => rfl
  | append_singleton digits d ih =>
    rw [hexNumber_concat, codePoint, List.foldl_append, ← codePoint, ih]
    simp only [List.foldl_cons, List.foldl_nil]
    omega

/-- From the bound on there are no characters. -/
theorem charOfCode_of_codeBound_le {n : Nat} (h : codeBound ≤ n) : charOfCode n = replacement := by
  have hn : ¬ n.isValidChar := by
    unfold codeBound at h
    unfold Nat.isValidChar
    omega
  simp [charOfCode, hn]

theorem charOfCode_min (n : Nat) : charOfCode (min n codeBound) = charOfCode n := by
  rcases Nat.le_total n codeBound with h | h
  · rw [Nat.min_eq_left h]
  · rw [Nat.min_eq_right h, charOfCode_of_codeBound_le h, charOfCode_of_codeBound_le le_rfl]

theorem toNat_charOfCode {n : Nat} (hpos : n ≠ 0) (hn : n.isValidChar) :
    (charOfCode n).toNat = n := by
  rw [charOfCode, if_neg hpos, if_pos hn, Char.ofNat, dif_pos hn]
  rfl

theorem charOfCode_eq_replacement {n : Nat} (h : n = 0 ∨ ¬ n.isValidChar) :
    charOfCode n = replacement := by
  rcases h with rfl | h
  · rfl
  · simp [charOfCode, h]

theorem dropSpace_eq_drop (cs : List Char) :
    dropSpace cs = cs.drop (if cs.head? = some ' ' then 1 else 0) := by
  unfold dropSpace
  split
  · rfl
  · next hspace =>
    rw [if_neg, List.drop_zero]
    intro h
    obtain ⟨rest, rfl⟩ := List.head?_eq_some_iff.1 h
    exact hspace rest rfl

/-- **An escape stands for the exact number of its digits.** It is read wherever its backslash is in
a text. The digits are all those that follow the backslash, and a space behind them is read
along. -/
theorem hexEscape?_run (before digits after : List Char) (hne : digits ≠ [])
    (hdigits : ∀ d ∈ digits, isHexDigit d = true)
    (hafter : ∀ c ∈ after.head?, isHexDigit c = false) :
    let text := before ++ '\\' :: (digits ++ after)
    let consumed := 1 + digits.length + if after.head? = some ' ' then 1 else 0
    ∃ c, hexEscape? (text.drop (before.length + 1)) =
        some (c, text.drop (before.length + consumed)) ∧
      (hexNumber digits ≠ 0 → (hexNumber digits).isValidChar → c.toNat = hexNumber digits) ∧
      (hexNumber digits = 0 ∨ ¬ (hexNumber digits).isValidChar → c = '\ufffd') := by
  intro text consumed
  have hstart : text.drop (before.length + 1) = digits ++ after :=
    List.drop_length_add_append 1
  have hend : text.drop (before.length + consumed) = dropSpace after := by
    show text.drop (before.length + (1 + digits.length + _)) = _
    rw [dropSpace_eq_drop, List.drop_length_add_append, Nat.add_assoc, Nat.add_comm 1,
      List.drop_succ_cons, List.drop_length_add_append]
  have hread := hexEscape?_append hne hdigits hafter
  rw [codePoint_eq_min, charOfCode_min] at hread
  exact ⟨charOfCode (hexNumber digits), by rw [hstart, hend, hread], toNat_charOfCode,
    charOfCode_eq_replacement⟩

/-- Zeros in front do not count, and a number past 32 bits does not start again from zero. -/
theorem hexEscape?_run_longRuns :
    (∃ c, hexEscape? ("a\\00000000001F600 !".toList.drop 2) = some (c, "!".toList) ∧
      c.toNat = 0x1f600) ∧
      hexEscape? ("\\100000041!".toList.drop 1) = some ('\ufffd', "!".toList) := by
  have hzeros : ∀ d ∈ "00000000001F600".toList, isHexDigit d = true := List.all_eq_true.1 rfl
  have hpast : ∀ d ∈ "100000041".toList, isHexDigit d = true := List.all_eq_true.1 rfl
  obtain ⟨c, hread, hc, -⟩ := hexEscape?_run "a".toList _ " !".toList (by decide) hzeros
    (by rintro c ⟨⟩; rfl)
  obtain ⟨d, hreadPast, -, hd⟩ := hexEscape?_run [] _ "!".toList (by decide) hpast
    (by rintro c ⟨⟩; rfl)
  obtain rfl := hd (.inr (by decide))
  exact ⟨⟨c, hread, hc (by decide) (by decide)⟩, hreadPast⟩

end Stylesheet.Text
