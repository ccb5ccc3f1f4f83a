import Stylesheet.Proofs.Operation.Failure
import Stylesheet.Proofs.Value.Unmarked

/-!
# Operators do not look at marks

**Theorem (`Operation.apply_unmarked`).** An operation whose operands are reduced gives, of operands
without their marks, its result without its marks, or the same error.

Arithmetic makes its results anew and without a mark, of quantities, channels and texts
(`Arithmetic.apply_unmarked`, `Arithmetic.map_unmarked_apply`). Comparisons give truth values, which
have none. Only `and` and `or` hand on the marks that an operand came with. And whether an operation
is text depends on its ends, which are interpolated or not whatever their marks say.
-/

namespace Stylesheet

theorem map_map {ε α β γ : Type} (x : Except ε α) (f : α → β) (g : β → γ) :
    (x.map f).map g = x.map fun a => g (f a) := by
  cases x <;> rfl

theorem mapError_map {ε ε' α β : Type} (x : Except ε α) (f : α → β) (g : ε → ε') :
    (x.map f).mapError g = (x.mapError g).map f := by
  cases x <;> rfl

theorem EvalError.undefinedOperation_unmarked (left : Value) (op : Operator) (right : Value) :
    undefinedOperation left.unmarked op right.unmarked = undefinedOperation left op right := by
  unfold undefinedOperation
  rw [left.inspect_unmarked, right.inspect_unmarked]

/-! ## Arithmetic -/

namespace Arithmetic

variable (op : Arithmetic) (operand : Operand) (left right : Value) (span : Span)

theorem joinedQuote_unmarked :
    joinedQuote left.unmarked right.unmarked = joinedQuote left right := by
  unfold joinedQuote
  rw [left.string?_unmarked, right.string?_unmarked]

theorem beside_unmarked (v : Value) : beside v.unmarked = beside v := by
  cases v with
  | string s => rfl
  | _ => exact Value.cssWith_unmarked {} _

theorem onTexts_unmarked :
    op.onTexts operand left.unmarked right.unmarked span =
      op.onTexts operand left right span := by
  unfold onTexts
  simp only [Value.interpolated_unmarked, joinedQuote_unmarked, beside_unmarked,
    EvalError.undefinedOperation_unmarked]

theorem onOthers_unmarked :
    op.onOthers operand left.unmarked right.unmarked span =
      op.onOthers operand left right span := by
  unfold onOthers
  rw [Value.rejects_eq, Value.rejects_eq, left.kind_unmarked, right.kind_unmarked,
    ← Value.rejects_eq, ← Value.rejects_eq, left.typeName_unmarked, right.typeName_unmarked,
    onTexts_unmarked]

/-- **Arithmetic does not look at marks.** -/
theorem apply_unmarked :
    op.apply operand left.unmarked right.unmarked span = op.apply operand left right span := by
  cases hcomputes : op.computesOn left.kind right.kind with
  | true =>
    rcases operands_of_computesOn hcomputes with ⟨a, b, rfl, rfl⟩ | ⟨a, b, rfl, rfl⟩ |
      ⟨c, n, rfl, rfl⟩ | ⟨n, c, rfl, rfl, hop⟩
    · rfl
    · rfl
    · rfl
    · exact (if_pos hop).trans (if_pos hop).symm
  | false =>
    have hunmarked : op.computesOn left.unmarked.kind right.unmarked.kind = false := by
      rw [left.kind_unmarked, right.kind_unmarked, hcomputes]
    rw [apply_of_not_computesOn hunmarked, apply_of_not_computesOn hcomputes, onOthers_unmarked]

/-- Arithmetic gives values without a mark. -/
theorem map_unmarked_apply :
    (op.apply operand left right span).map Value.unmarked = op.apply operand left right span := by
  cases hcomputes : op.computesOn left.kind right.kind with
  | true =>
    rcases operands_of_computesOn hcomputes with ⟨a, b, rfl, rfl⟩ | ⟨a, b, rfl, rfl⟩ |
      ⟨c, n, rfl, rfl⟩ | ⟨n, c, rfl, rfl, hop⟩
    · rw [apply, onNumbers]
      cases onQuantity? onDouble op a.toQuantity b.toQuantity <;> rfl
    · rw [apply, onColors?]
      split_ifs <;> rfl
    · rw [apply, onColorNumber?]
      split_ifs <;> rfl
    · rw [apply, if_pos hop]
      rfl
  | false =>
    rw [apply_of_not_computesOn hcomputes]
    unfold onOthers onTexts
    split_ifs
    · rfl
    · rfl
    · cases op <;> rfl

end Arithmetic

/-! ## Comparisons -/

namespace Value

theorem equal?_unmarked [Hasher] (left right : Value) :
    left.unmarked.equal? right.unmarked = left.equal? right := by
  cases left with
  | number a =>
    cases right with
    | number b => rfl
    | _ => exact congrArg Except.ok (beq_unmarked (.number a) _)
  | _ => exact congrArg Except.ok (beq_unmarked _ _)

theorem related?_unmarked (op : Operator) (holds : Ordering → Bool) (left right : Value) :
    related? op holds left.unmarked right.unmarked = related? op holds left right := by
  have hundefined := EvalError.undefinedOperation_unmarked left op right
  cases left with
  | number a =>
    cases right with
    | number b => rfl
    | _ => exact congrArg Except.error hundefined
  | _ => exact congrArg Except.error hundefined

end Value

/-! ## Operators -/

theorem Operand.applyBare_unmarked [Hasher] (operand : Operand) (left right : Value) (span : Span) :
    operand.applyBare left.unmarked right.unmarked span =
      (operand.applyBare left right span).map Value.unmarked := by
  have harithmetic (op : Arithmetic) : op.apply operand left.unmarked right.unmarked span =
      (op.apply operand left right span).map Value.unmarked :=
    (op.apply_unmarked operand left right span).trans
      (op.map_unmarked_apply operand left right span).symm
  have hbool (x : Except EvalError Bool) (f : Bool → Bool) :
      (x.map fun b => Value.bool (f b) span).map Value.unmarked =
        x.map fun b => Value.bool (f b) span := map_map x _ _
  have hchoice (b : Bool) : Except.ok (if b then left.unmarked else right.unmarked) =
      (Except.ok (if b then left else right) : Except EvalError Value).map Value.unmarked := by
    cases b <;> rfl
  unfold applyBare
  cases operand.op with
  | and | or =>
    simp only [Value.isTruthy, Value.isFalse_unmarked]
    exact hchoice _
  | eq | ne =>
    simp only [Value.equal?_unmarked]
    exact (hbool _ _).symm
  | gt | ge | lt | le =>
    simp only [Value.related?_unmarked]
    exact (hbool _ _).symm
  | add | sub | mul | div | mod => exact harithmetic _

theorem Operand.apply_unmarked [Hasher] (operand : Operand) (left right : Value) (span : Span) :
    operand.apply left.unmarked right.unmarked span =
      (operand.apply left right span).map Value.unmarked := by
  unfold apply
  rw [operand.applyBare_unmarked, mapError_map]

/-! ## Interpolated ends -/

namespace Value

theorem isHole_map (f : Value → Value) (p : Fragment Value) : (p.map f).isHole = p.isHole := by
  cases p <;> rfl

theorem opensInterpolated_unmarked (v : Value) :
    v.unmarked.opensInterpolated = v.opensInterpolated := by
  induction v using Value.induction with
  | step v ih =>
    cases v with
    | template t =>
      rw [unmarked_eq]
      show (t.fragments.map (Fragment.map unmarked)).head?.any Fragment.isHole = _
      rw [List.head?_map, Option.any_map]
      exact congrArg t.fragments.head?.any (funext (isHole_map unmarked))
    | operation e => exact congrArg (e.interpolant || ·) (ih e.left e.left_mem_parts)
    | _ => rfl

theorem closesInterpolated_unmarked (v : Value) :
    v.unmarked.closesInterpolated = v.closesInterpolated := by
  induction v using Value.induction with
  | step v ih =>
    cases v with
    | template t =>
      rw [unmarked_eq]
      show (t.fragments.map (Fragment.map unmarked)).getLast?.any Fragment.isHole = _
      rw [List.getLast?_map, Option.any_map]
      exact congrArg t.fragments.getLast?.any (funext (isHole_map unmarked))
    | operation e => exact congrArg (e.interpolant || ·) (ih e.right e.right_mem_parts)
    | _ => rfl

end Value

namespace Operation

variable (e : Operation Value) (left right : Value)

/-- The operation and its operands without marks. -/
def unmarked : Operation Value := { e.map Value.unmarked with delayed := false }

theorem isInterpolated_unmarked : e.unmarked.isInterpolated = e.isInterpolated :=
  congrArg₂ (· || ·) (Value.operation e).opensInterpolated_unmarked
    (Value.operation e).closesInterpolated_unmarked

/-- Once its operands are reduced, the marks inside an operation count for nothing. -/
theorem unmarked_apply [Hasher] : e.unmarked.apply left right = e.apply left right := by
  unfold apply
  rw [isInterpolated_unmarked]
  rfl

/-- **An operation gives, of operands without marks, its result without marks.** -/
theorem apply_unmarked [Hasher] :
    e.apply left.unmarked right.unmarked = (e.apply left right).map Value.unmarked := by
  unfold apply
  rw [left.interpolated_unmarked, right.interpolated_unmarked, Operand.apply_unmarked]
  split <;> rfl

end Operation

end Stylesheet
