import Stylesheet.Text.Fields

/-!
# Blanks

Two sets of blank characters. A stylesheet's own blanks are five ASCII characters, and trailing
ones can be trimmed from a text (`trimEnd`). Compressed output collapses runs of the larger set of
the Unicode property `White_Space` (`collapse`).

**Trimming agrees with its query (`endsBlank_eq_false_iff`)**: a text does not end in a blank
exactly when trimming keeps it.
-/

namespace Stylesheet.Text

/-! ## The blanks of a stylesheet -/

/-- The blank characters of a stylesheet: space, tab, line feed, carriage return, form feed. -/
def isCssBlank (c : Char) : Bool :=
  c == ' ' || c == '\t' || c == '\n' || c == '\r' || c == '\x0c'

/-- The text without the blanks at its end. -/
def trimEnd (s : String) : String :=
  String.ofList (s.toList.reverse.dropWhile isCssBlank).reverse

/-- Whether the text ends in a blank. -/
def endsBlank (s : String) : Bool :=
  s.toList.getLast?.any isCssBlank

/-! ## The property `White_Space` -/

/-- The ranges of code points with the property `White_Space`. -/
def whiteSpace : List (Nat × Nat) :=
  [(0x09, 0x0d), (0x20, 0x20), (0x85, 0x85), (0xa0, 0xa0), (0x1680, 0x1680), (0x2000, 0x200a),
    (0x2028, 0x2029), (0x202f, 0x202f), (0x205f, 0x205f), (0x3000, 0x3000)]

/-- Whether a character has the property `White_Space`. -/
def isWhiteSpace (c : Char) : Bool :=
  whiteSpace.any fun (lo, hi) => decide (lo ≤ c.toNat) && decide (c.toNat ≤ hi)

/-- The runs of characters between white space, with one space between neighbours. -/
def collapse (s : String) : String :=
  " ".intercalate ((fields isWhiteSpace s.toList).map String.ofList)

/-! ## Laws -/

theorem dropWhile_eq_self_iff (p : Char → Bool) (cs : List Char) :
    cs.dropWhile p = cs ↔ cs.head?.any p = false := by
  cases cs with
  | nil => simp
  | cons c cs =>
    cases h : p c with
    | false => simp [h]
    | true =>
      simp only [List.dropWhile_cons_of_pos h, List.head?_cons, Option.any_some, h]
      refine ⟨fun e => ?_, fun e => by cases e⟩
      have := congrArg List.length e
      have := (List.dropWhile_sublist p (l := cs)).length_le
      simp at *
      omega

/-- A text does not end in a blank exactly when trimming keeps it. -/
theorem endsBlank_eq_false_iff (s : String) : endsBlank s = false ↔ trimEnd s = s := by
  have key : trimEnd s = s ↔
      s.toList.reverse.dropWhile isCssBlank = s.toList.reverse := by
    rw [trimEnd, ← String.toList_inj, String.toList_ofList, ← List.reverse_inj,
      List.reverse_reverse]
  rw [key, dropWhile_eq_self_iff, List.head?_reverse, endsBlank]

end Stylesheet.Text
