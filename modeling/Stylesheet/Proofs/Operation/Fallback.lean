import Stylesheet.Proofs.Operation.Failure

/-!
# Operators that are written out

**Theorem (`Operand.apply_eq_string_iff`).** Where `-` and `/` have nothing to compute with, the
result is a string without quotes, and its text is the CSS of the operation that was not evaluated.
They give a string nowhere else: numbers and colours that they compute with give numbers and
colours, and an operand without a text gives an error.

There are two printers. The operators write a string in its quotes and any other value as CSS
(`Arithmetic.beside`), with the operator and the blanks it was written with between them; the CSS of
an operation prints both operands one level down. They agree because a string that is printed as an
operand keeps its quotes (`Value.beside_eq_css`), whatever has to be escaped in it.
-/

namespace Stylesheet

/-- An operand that is written out is printed as it is in an operation. -/
theorem Value.beside_eq_css (v : Value) : Arithmetic.beside v = v.css := by
  cases v <;> rfl

/-- The CSS of an operation is that of its operands, around the operator. -/
theorem Value.css_operation (e : Operation Value) :
    (operation e).css = e.left.css ++ e.operand.separator ++ e.right.css := rfl

theorem Kind.isTextless_eq_false_iff {k : Kind} :
    k.isTextless = false ↔ k ∉ [Kind.map, .null, .function] := by
  cases k <;> simp [isTextless]

namespace Arithmetic

variable {op : Arithmetic} {left right : Value} {span : Span} {s : StringValue}

/-- An operator other than `+` and `*` computes with two numbers, two colours, or a colour and a
number. -/
theorem computesOn_eq_false_iff (hop : op = .sub ∨ op = .div) {k k' : Kind} :
    op.computesOn k k' = false ↔
      (k, k') ∉ [(Kind.number, Kind.number), (.color, .color), (.color, .number)] := by
  have hsum : (op == .add || op == .mul) = false := by rcases hop with rfl | rfl <;> rfl
  unfold computesOn
  split <;> simp_all

/-- What is computed is no text. -/
theorem apply_ne_string_of_computesOn {operand : Operand}
    (h : op.computesOn left.kind right.kind = true) :
    op.apply operand left right span ≠ .ok (.string s) := by
  rcases operands_of_computesOn h with ⟨a, b, rfl, rfl⟩ | ⟨a, b, rfl, rfl⟩ | ⟨c, n, rfl, rfl⟩ |
    ⟨n, c, rfl, rfl, hop⟩
  · rw [apply, onNumbers]
    split <;> simp
  · rw [apply, onColors?]
    split_ifs <;> simp [onChannels]
  · rw [apply, onColorNumber?]
    split_ifs <;> simp [onChannels]
  · rw [apply, if_pos hop]
    simp [onNumberColor, onChannels]

/-- The fallback gives a string to operands that have a text, and to no others. -/
theorem onOthers_eq_string_iff (hop : op = .sub ∨ op = .div) {operand : Operand} :
    op.onOthers operand left right span = .ok (.string s) ↔
      (left.kind.isTextless = false ∧ right.kind.isTextless = false) ∧
        s = .plain span (left.css ++ operand.separator ++ right.css) := by
  have htexts : op.onTexts operand left right span =
      .ok (.text span (left.css ++ operand.separator ++ right.css)) := by
    rw [← left.beside_eq_css, ← right.beside_eq_css]
    rcases hop with rfl | rfl <;> rfl
  unfold onOthers
  rw [Value.rejects_eq, Value.rejects_eq, htexts]
  cases left.kind.isTextless with
  | true => simp
  | false =>
    cases right.kind.isTextless with
    | true => simp
    | false => simpa [Value.text] using eq_comm

end Arithmetic

namespace Operand

/-- **An operator with nothing to compute prints what the operation would print**, and gives a
string only then. -/
theorem apply_eq_string_iff [Hasher] {e : Operation Value}
    (hop : e.operand.op = .sub ∨ e.operand.op = .div) (span : Span) (s : StringValue) :
    e.operand.apply e.left e.right span = .ok (.string s) ↔
      (e.left.kind ∉ [Kind.map, .null, .function] ∧ e.right.kind ∉ [Kind.map, .null, .function] ∧
        (e.left.kind, e.right.kind) ∉
          [(Kind.number, Kind.number), (.color, .color), (.color, .number)]) ∧
      s = .plain span (Value.operation e).css := by
  obtain ⟨op, hop, hoperator⟩ : ∃ op : Arithmetic, (op = .sub ∨ op = .div) ∧
      e.operand.op = op.operator := by
    rcases hop with hop | hop
    · exact ⟨.sub, .inl rfl, hop⟩
    · exact ⟨.div, .inr rfl, hop⟩
  have hbare : e.operand.apply e.left e.right span = .ok (.string s) ↔
      op.apply e.operand e.left e.right span = .ok (.string s) := by
    rw [apply, applyBare_of_arithmetic hoperator]
    cases op.apply e.operand e.left e.right span <;> simp [Except.mapError]
  rw [hbare, ← Kind.isTextless_eq_false_iff, ← Kind.isTextless_eq_false_iff,
    ← Arithmetic.computesOn_eq_false_iff hop, Value.css_operation]
  cases hcomputes : op.computesOn e.left.kind e.right.kind with
  | true => simp [Arithmetic.apply_ne_string_of_computesOn hcomputes]
  | false =>
    rw [Arithmetic.apply_of_not_computesOn hcomputes, Arithmetic.onOthers_eq_string_iff hop]
    simp

end Operand

/-- A quoted string with a mark, a backslash and a line break, minus a list of an invisible item in
brackets. -/
def quotedMinusBrackets : Operation Value where
  operand := ⟨.sub, false, true⟩
  left := .quoted .nowhere "\"\\\n" (some '"')
  right := .list { items := [.null .nowhere], bracketed := true, span := .nowhere }
  span := .nowhere

/-- The string keeps its quotes, with another mark, and the list its brackets. -/
theorem Operand.apply_eq_string_iff_quotedMinusBrackets :
    (quotedMinusBrackets.operand.op = .sub ∨ quotedMinusBrackets.operand.op = .div) ∧
      quotedMinusBrackets.operand.apply quotedMinusBrackets.left quotedMinusBrackets.right
        .nowhere = .ok (.string (.plain .nowhere "'\"\\\\\\a'- []")) := by
  have hcss : (Value.operation quotedMinusBrackets).css = "'\"\\\\\\a'- []" := by decide +kernel
  have hkinds := (apply_eq_string_iff (e := quotedMinusBrackets) (.inl rfl) .nowhere
    (.plain .nowhere "'\"\\\\\\a'- []")).2
  exact ⟨.inl rfl, hkinds ⟨by decide, by rw [hcss]⟩⟩

end Stylesheet
