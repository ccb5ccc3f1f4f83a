import Stylesheet.Proofs.Operation.Fallback

/-!
# Sums with a string

**Theorem (`Operand.apply_add_assoc`).** A sum of three values with a string in the middle is the
same from the left and from the right. It is the string of the three texts, in the order of the
values, and it has the mark of the left value if that is a string, or else the mark of the middle
one. A map, null and a function are no values to sum; all others may stand at the ends.

Without a string in the middle, two numbers may meet, and `+` would add them. A string makes `+`
join texts, whatever is on its other side (`Operand.apply_add`), and gives a string again. What a
string adds to a sum is its decoded text, so the texts are only appended, and one that is taken up
twice stays as it is. A sum with a string on its left has the mark of that string
(`Operand.apply_string_add`), and so hands on what the first sum chose.
-/

namespace Stylesheet

/-- The mark that a string is written with, if the value is a string. -/
def Value.mark? (v : Value) : Option (Option Char) := v.string?.map (·.quote?)

variable {operand : Operand} {left right : Value} {span : Span}

/-- The mark of joined texts is that of the first string. -/
theorem Arithmetic.joinedQuote_eq (left right : Value) :
    joinedQuote left right = (left.mark?.or right.mark?).join := by
  unfold joinedQuote Value.mark?
  cases left.string? <;> cases right.string? <;> rfl

theorem Arithmetic.computesOn_string (op : Arithmetic) {k k' : Kind}
    (h : k = .string ∨ k' = .string) : op.computesOn k k' = false := by
  rcases h with rfl | rfl
  · rfl
  · cases k <;> rfl

namespace Operand

/-- A sum with a string joins texts. -/
theorem apply_add [Hasher] (hop : operand.op = .add) (hleft : left.kind.isTextless = false)
    (hright : right.kind.isTextless = false) (hstring : left.kind = .string ∨ right.kind = .string)
    (span : Span) :
    operand.apply left right span = .ok (.quoted span (left.interpolated ++ right.interpolated)
      (left.mark?.or right.mark?).join) := by
  have hadd : operand.op = Arithmetic.add.operator := hop
  rw [apply, applyBare_of_arithmetic hadd,
    Arithmetic.apply_of_not_computesOn (Arithmetic.computesOn_string .add hstring),
    Arithmetic.onOthers, Value.rejects_eq, Value.rejects_eq, hleft, hright,
    ← Arithmetic.joinedQuote_eq]
  rfl

/-- A string on the left gives its mark to the sum. -/
theorem apply_string_add [Hasher] (hop : operand.op = .add) (s : StringValue)
    (hright : right.kind.isTextless = false) (span : Span) :
    operand.apply (.string s) right span =
      .ok (.quoted span (s.text ++ right.interpolated) s.quote?) :=
  apply_add hop rfl hright (.inl rfl) span

/-- A string on the right gives its mark to the sum if there is none on the left. -/
theorem apply_add_string [Hasher] (hop : operand.op = .add) (hleft : left.kind.isTextless = false)
    (s : StringValue) (span : Span) :
    operand.apply left (.string s) span =
      .ok (.quoted span (left.interpolated ++ s.text) (left.mark?.getD s.quote?)) := by
  have hmark : (left.mark?.or (Value.string s).mark?).join = left.mark?.getD s.quote? := by
    show (left.mark?.or (some s.quote?)).join = _
    cases left.mark? <;> rfl
  rw [apply_add hop hleft rfl (.inr rfl) span, hmark]
  rfl

/-- **A sum around a string is associative.** -/
theorem apply_add_assoc [Hasher] {first second : Operand} (hfirst : first.op = .add)
    (hsecond : second.op = .add) {x z : Value} (hx : x.kind ∉ [Kind.map, .null, .function])
    (hz : z.kind ∉ [Kind.map, .null, .function]) (b : StringValue) (span : Span) :
    let sum := Value.quoted span (x.interpolated ++ b.text ++ z.interpolated)
      (x.mark?.getD b.quote?)
    (do second.apply (← first.apply x (.string b) span) z span) = .ok sum ∧
      (do first.apply x (← second.apply (.string b) z span) span) = .ok sum := by
  intro sum
  have hx := Kind.isTextless_eq_false_iff.2 hx
  have hz := Kind.isTextless_eq_false_iff.2 hz
  rw [apply_add_string hfirst hx, apply_string_add hsecond b hz]
  constructor
  · exact apply_string_add hsecond _ hz span
  · refine (apply_add_string hfirst hx _ span).trans ?_
    rw [← String.append_assoc]

/-- A sum with the blanks that a stylesheet has around it. -/
def plus : Operand := ⟨.add, true, true⟩

/-- A string with a double mark, in which a single mark and a backslash stand. -/
def markedText : StringValue := { text := "'\\", quote? := some '"', span := .nowhere }

/-- A truth value takes the mark of the string behind it, and a string without a mark takes none.
Nothing in the texts is escaped. -/
theorem apply_add_assoc_markedText :
    let yes : Value := .bool true .nowhere
    let bare : Value := .text .nowhere "a"
    let mark : Value := .quoted .nowhere "\"" (some '\'')
    (do plus.apply (← plus.apply yes (.string markedText) .nowhere) mark .nowhere) =
        .ok (.quoted .nowhere "true'\\\"" (some '"')) ∧
      (do plus.apply bare (← plus.apply (.string markedText) yes .nowhere) .nowhere) =
        .ok (.text .nowhere "a'\\true") := by
  intro yes bare mark
  have hyes : yes.kind ∉ [Kind.map, .null, .function] := by decide
  have hbare : bare.kind ∉ [Kind.map, .null, .function] := by decide
  have hmark : mark.kind ∉ [Kind.map, .null, .function] := by decide
  exact ⟨(apply_add_assoc rfl rfl hyes hmark markedText .nowhere).1,
    (apply_add_assoc rfl rfl hbare hyes markedText .nowhere).2⟩

end Operand

end Stylesheet
