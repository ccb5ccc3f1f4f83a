import Stylesheet.Proofs.Reduction.Outcome

/-!
# Operations with an interpolated end

**Theorem (`Value.reduce_interpolated`).** An operation with an interpolated end is text and not
arithmetic: with any operator but `and` and `or` it reduces whenever its operands do, to something
that is no number, colour or truth value. Its CSS is what its operands add to an interpolation, with
the operator between them as it was written.

There are two ways to that text. A delayed division of two numbers stays an operation
(`Value.slash`), even where an end of it is interpolated, and is printed as one. Everything else is
joined at once. The two agree because a number is spliced into a text as it is printed, whatever its
mark says.
-/

namespace Stylesheet.Value

variable {env : Environment} {e : Operation Value} {x y : Value}

/-- A kept slash is printed like the joined text of its operands. -/
theorem css_slash (e : Operation Value) (a b : Number) : (slash e a b).css =
    (number a).interpolated ++ e.operand.separator ++ (number b).interpolated := rfl

/-- An operation whose operands are reduced, and which has an interpolated end, is joined or kept
as a slash. -/
theorem finishOperation_of_isInterpolated [Hasher] (hinterpolated : e.isInterpolated = true)
    (hop : e.operand.op.isLogical = false) : ∃ w, finishOperation e x y = .ok w ∧
      w.kind ∉ [.number, .color, .bool] ∧
      w.css = x.interpolated ++ e.operand.separator ++ y.interpolated := by
  by_cases hkept : isKeptSlash e x y = true
  · obtain ⟨a, b, rfl, rfl, -, hslash⟩ := finishOperation_of_isKeptSlash hkept
    exact ⟨slash e a b, hslash, by simp [slash, kind], css_slash e a b⟩
  · rw [finishOperation, if_neg hkept, Operation.apply, if_pos (by simp [hinterpolated, hop])]
    exact ⟨_, rfl, by simp [text, kind], rfl⟩

/-- **An operation with an interpolated end is text.** -/
theorem reduce_interpolated [Hasher] (hinterpolated : e.isInterpolated = true)
    (hop : e.operand.op.isLogical = false) (hx : reduce env e.left = .ok x)
    (hy : reduce env e.right = .ok y) :
    ∃ w, reduce env (.operation e) = .ok w ∧ w.kind ∉ [.number, .color, .bool] ∧
      w.css = x.interpolated ++ e.operand.separator ++ y.interpolated := by
  rw [reduce_operation_of_not_isLogical hop hx hy]
  exact finishOperation_of_isInterpolated hinterpolated hop

/-- A variable that is twelve pixels. -/
def twelvePixels : Environment where
  lookup? name := if name = "width" then some (.number (.ofText .nowhere 12 "px")) else none
  call? _ _ _ := none
  host _ _ span := .null span

/-- The variable over a number, delayed and written inside an interpolation. -/
def interpolatedSlash : Operation Value where
  operand := ⟨.div, false, false⟩
  left := .variable ⟨"width", .nowhere⟩
  right := .number (.plain .nowhere 1.5)
  interpolant := true
  delayed := true
  span := .nowhere

/-- The slash under a comparison. Its left end is that of the slash. -/
def interpolatedLess : Operation Value where
  operand := ⟨.lt, true, true⟩
  left := .operation interpolatedSlash
  right := .null .nowhere
  span := .nowhere

/-- A delayed slash is printed as text is, and a comparison of it is text. -/
theorem reduce_interpolated_twelvePixels :
    (∃ w, reduce twelvePixels (.operation interpolatedSlash) = .ok w ∧
      w.kind ∉ [.number, .color, .bool] ∧ w.css = "12px/1.5") ∧
    ∃ w, reduce twelvePixels (.operation interpolatedLess) = .ok w ∧
      w.kind ∉ [.number, .color, .bool] ∧ w.css = "12px/1.5 < " := by
  let pixels : Number := .ofText .nowhere 12 "px"
  let kept := slash interpolatedSlash pixels (.plain .nowhere 1.5)
  have hpixels : reduce twelvePixels interpolatedSlash.left = .ok (.number pixels) := rfl
  have hkept : reduce twelvePixels interpolatedLess.left = .ok kept := rfl
  obtain ⟨w, hw, hkind, hcss⟩ := reduce_interpolated (e := interpolatedSlash) rfl rfl hpixels rfl
  obtain ⟨w', hw', hkind', hcss'⟩ := reduce_interpolated (e := interpolatedLess) rfl rfl hkept rfl
  exact ⟨⟨w, hw, hkind, hcss.trans (by decide +kernel)⟩,
    w', hw', hkind', hcss'.trans (by decide +kernel)⟩

end Stylesheet.Value
