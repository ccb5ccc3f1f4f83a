/-!
# Hexadecimal escapes

A backslash and the run of hexadecimal digits after it stand for the character of that code point.
One space after the run ends the escape and belongs to it. Code point zero, a surrogate and a
number past the last code point stand for the replacement character.

**Every escape is longer than what it stands for (`hexEscape?_length`)**, so a reader of escapes
comes to an end.
-/

namespace Stylesheet.Text

/-- Whether a character is a hexadecimal digit. -/
def isHexDigit (c : Char) : Bool :=
  c.isDigit || (decide ('a' ≤ c) && decide (c ≤ 'f')) || (decide ('A' ≤ c) && decide (c ≤ 'F'))

/-- The value of a hexadecimal digit, and zero for any other character. -/
def hexValue (c : Char) : Nat :=
  if c.isDigit then c.toNat - '0'.toNat
  else if 'a' ≤ c ∧ c ≤ 'f' then c.toNat - 'a'.toNat + 10
  else if 'A' ≤ c ∧ c ≤ 'F' then c.toNat - 'A'.toNat + 10
  else 0

/-- The largest number a code point is read as; larger ones stay at this bound. -/
def codeBound : Nat := 0xffffffff

/-- The value of a run of digits, or the bound where the run goes past it. -/
def codePoint (digits : List Char) : Nat :=
  digits.foldl (fun n c => min (min (n * 16) codeBound + hexValue c) codeBound) 0

/-- What stands in for a character that cannot be written. -/
def replacement : Char := '\ufffd'

/-- The character of a code point, or the replacement character where there is none. -/
def charOfCode (n : Nat) : Char :=
  if n = 0 then replacement
  else if n.isValidChar then Char.ofNat n
  else replacement

/-- The text after one leading space, if there is one. -/
def dropSpace : List Char → List Char
  | ' ' :: cs => cs
  | cs => cs

/-- Reads an escape whose backslash has been read: the character and the text after the escape.
There is no escape without a digit. -/
def hexEscape? (cs : List Char) : Option (Char × List Char) :=
  match cs.takeWhile isHexDigit with
  | [] => none
  | digits => some (charOfCode (codePoint digits), dropSpace (cs.dropWhile isHexDigit))

theorem dropSpace_length (cs : List Char) : (dropSpace cs).length ≤ cs.length := by
  unfold dropSpace
  split <;> simp

/-- What is left after an escape is shorter than the text it was read from. -/
theorem hexEscape?_length {cs rest : List Char} {c : Char} (h : hexEscape? cs = some (c, rest)) :
    rest.length < cs.length := by
  unfold hexEscape? at h
  split at h
  · cases h
  · next digits hne =>
    simp only [Option.some.injEq, Prod.mk.injEq] at h
    have hsplit := congrArg List.length
      (List.takeWhile_append_dropWhile (p := isHexDigit) (l := cs))
    have hpos : 0 < (cs.takeWhile isHexDigit).length := List.length_pos_iff.2 hne
    have := dropSpace_length (cs.dropWhile isHexDigit)
    rw [List.length_append] at hsplit
    rw [← h.2]
    omega

/-- There is an escape exactly if there is a digit. -/
theorem isSome_hexEscape? (cs : List Char) :
    (hexEscape? cs).isSome = cs.head?.any isHexDigit := by
  cases cs with
  | nil => rfl
  | cons c cs => cases hc : isHexDigit c <;> simp [hexEscape?, hc]

/-- An escape takes the whole run of digits, and a space behind it. -/
theorem hexEscape?_append {digits after : List Char} (hne : digits ≠ [])
    (hdigits : ∀ d ∈ digits, isHexDigit d = true)
    (hafter : ∀ c ∈ after.head?, isHexDigit c = false) :
    hexEscape? (digits ++ after) = some (charOfCode (codePoint digits), dropSpace after) := by
  have hrun : after.takeWhile isHexDigit = [] ∧ after.dropWhile isHexDigit = after := by
    cases after with
    | nil => exact ⟨rfl, rfl⟩
    | cons c after => simp [hafter c rfl]
  rw [hexEscape?, List.takeWhile_append_of_pos hdigits, List.dropWhile_append_of_pos hdigits,
    hrun.1, hrun.2, List.append_nil]
  cases digits with
  | nil => exact absurd rfl hne
  | cons d digits => rfl

/-- Decodes the escapes of a text that stands outside quotes. A backslash that no digit follows
stays as it is. -/
def decodeEscapes : List Char → List Char
  | [] => []
  | c :: cs =>
    if c = '\\' then
      match _read : hexEscape? cs with
      | some (decoded, rest) => decoded :: decodeEscapes rest
      | none => c :: decodeEscapes cs
    else c :: decodeEscapes cs
termination_by cs => cs.length
decreasing_by
  · have := hexEscape?_length _read
    simp only [List.length_cons]
    omega
  · simp
  · simp

/-- Decodes the escapes of a text that stands outside quotes. -/
def readEscapes (s : String) : String :=
  String.ofList (decodeEscapes s.toList)

end Stylesheet.Text
