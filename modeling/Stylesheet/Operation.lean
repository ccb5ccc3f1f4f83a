import Stylesheet.Value.Equality
import Stylesheet.Value.Render

/-!
# Operations on values

What an operator makes of two concrete values (`Operand.apply`).

* `and` and `or` give one of their operands.
* `==` and `!=` compare any two values; on numbers they fail where the units do not agree.
* `<`, `<=`, `>`, `>=` compare numbers only.
* Arithmetic is for numbers, for colours channel by channel, and for a colour with a number. On
  other values `+` joins texts, and `-` and `/` are written out between them.

An operation with an interpolated end is text, whatever its operands are (`Operation.apply`); only
`and` and `or` are exempt.

**Every error has a place (`Operand.apply_error_span?`)**: the one it came with, or the span of the
operation.
-/

namespace Stylesheet

/-- The error of an operator that has no meaning for its operands. -/
def EvalError.undefinedOperation (left : Value) (op : Operator) (right : Value) : EvalError :=
  { cause := .undefinedOperation left.inspect op right.inspect }

/-! ## Scalars -/

namespace Arithmetic

/-- The remainder with the sign of the divisor. -/
def modulo (a b : Double) : Double :=
  let r := a % b
  if !r.same 0 && (r.lt 0 != b.lt 0) then r + b else r

/-- The operator on scalars. -/
def onDouble : Arithmetic → Double → Double → Double
  | .add => (· + ·)
  | .sub => (· - ·)
  | .mul => (· * ·)
  | .div => (· / ·)
  | .mod => modulo

/-- The operator on quantities, given what it does to scalars; there is no result where units do
not agree. -/
def onQuantity? {α : Type} [Scale α] (onScalar : Arithmetic → α → α → α) (op : Arithmetic)
    (a b : Quantity α) : Option (Quantity α) :=
  match op with
  | .mul => some (a.mul b)
  | .div => some (a.div b)
  | op => a.combine? (onScalar op) b

/-- The operator on numbers. -/
def onNumbers (op : Arithmetic) (a b : Number) (span : Span) : Except EvalError Value :=
  match onQuantity? onDouble op a.toQuantity b.toQuantity with
  | some q => .ok (.number (.ofQuantity span q))
  | none => .error (a.incompatible b)

/-! ## Colours -/

/-- The operator channel by channel. -/
def onChannels (op : Arithmetic) (a b : Rgb Double) (alpha : Double) (span : Span) : Value :=
  .color (.ofRgb span (op.onDouble a.r b.r) (op.onDouble a.g b.g) (op.onDouble a.b b.b) alpha)

/-- The operator on two colours of one opacity. There is no quotient by a channel of zero. -/
def onColors? (op : Arithmetic) (a b : Color) (span : Span) : Option Value :=
  let x := a.rgbForm.channels
  let y := b.rgbForm.channels
  if !x.alpha.near y.alpha then none
  else if op.divides && (y.r.isZero || y.g.isZero || y.b.isZero) then none
  else some (op.onChannels x y x.alpha span)

/-- Three equal channels. -/
def grey (n : Double) : Rgb Double := ⟨n, n, n, 1⟩

/-- The operator on every channel of a colour and a number. There is no quotient by zero. -/
def onColorNumber? (op : Arithmetic) (c : Color) (n : Double) (span : Span) : Option Value :=
  let x := c.rgbForm.channels
  if op.divides && n.isZero then none else some (op.onChannels x (grey n) x.alpha span)

/-- The operator on a number and every channel of a colour. -/
def onNumberColor (op : Arithmetic) (n : Double) (c : Color) (span : Span) : Value :=
  let x := c.rgbForm.channels
  op.onChannels (grey n) x x.alpha span

/-! ## Text -/

/-- Whether a value has neither arithmetic nor a text to fall back on. -/
def rejects : Value → Bool
  | .map _ | .null _ | .function _ => true
  | _ => false

/-- The quote mark of a joined text: that of the left operand if it is a string, or else that of
the right one. -/
def joinedQuote (left right : Value) : Option Char :=
  match left.string?, right.string? with
  | some s, _ => s.quote?
  | none, some s => s.quote?
  | none, none => none

/-- A value beside an operator that is written out: a string in its quotes, any other value as
CSS. -/
def beside (v : Value) : String :=
  match v with
  | .string s => s.css
  | v => v.css

/-- The operator on values that have only their text. -/
def onTexts (op : Arithmetic) (operand : Operand) (left right : Value) (span : Span) :
    Except EvalError Value :=
  match op with
  | .add =>
    .ok (.quoted span (left.interpolated ++ right.interpolated) (joinedQuote left right))
  | .sub | .div => .ok (.text span (beside left ++ operand.separator ++ beside right))
  | op => .error (.undefinedOperation left op.operator right)

/-- The operator on any two values that are neither two numbers nor hold a colour. -/
def onOthers (op : Arithmetic) (operand : Operand) (left right : Value) (span : Span) :
    Except EvalError Value :=
  if rejects left then .error { cause := .invalidOperand left.typeName op.operator }
  else if rejects right then .error { cause := .invalidOperand right.typeName op.operator }
  else op.onTexts operand left right span

/-- The operator on two values. -/
def apply (op : Arithmetic) (operand : Operand) (left right : Value) (span : Span) :
    Except EvalError Value :=
  match left, right with
  | .number a, .number b => op.onNumbers a b span
  | .color a, .color b =>
    match op.onColors? a b span with
    | some v => .ok v
    | none => .error (.undefinedOperation left op.operator right)
  | .color c, .number n =>
    match op.onColorNumber? c n.value span with
    | some v => .ok v
    | none => .error (.undefinedOperation left op.operator right)
  | .number n, .color c =>
    if op = .add ∨ op = .mul then .ok (op.onNumberColor n.value c span)
    else op.onOthers operand left right span
  | left, right => op.onOthers operand left right span

end Arithmetic

/-! ## Comparison -/

variable [Hasher]

/-- Whether two values are equal, for the operators. -/
def Value.equal? (left right : Value) : Except EvalError Bool :=
  match left, right with
  | .number a, .number b => a.equal? b
  | left, right => .ok (left.beq right)

/-- Compares two numbers by what their order has to be. -/
def Value.related? (op : Operator) (holds : Ordering → Bool) (left right : Value) :
    Except EvalError Bool :=
  match left, right with
  | .number a, .number b => (a.compare? b).map holds
  | left, right => .error (.undefinedOperation left op right)

/-! ## Operators -/

namespace Operand

/-- The result of the operator, with errors as they arise. -/
def applyBare (operand : Operand) (left right : Value) (span : Span) : Except EvalError Value :=
  let truth (b : Bool) : Value := .bool b span
  match operand.op with
  | .and => .ok (if left.isFalse then left else right)
  | .or => .ok (if left.isTruthy then left else right)
  | .eq => (left.equal? right).map truth
  | .ne => (left.equal? right).map fun b => truth !b
  | .gt => (left.related? .gt Ordering.isGT right).map truth
  | .ge => (left.related? .ge Ordering.isGE right).map truth
  | .lt => (left.related? .lt Ordering.isLT right).map truth
  | .le => (left.related? .le Ordering.isLE right).map truth
  | .add => Arithmetic.add.apply operand left right span
  | .sub => Arithmetic.sub.apply operand left right span
  | .mul => Arithmetic.mul.apply operand left right span
  | .div => Arithmetic.div.apply operand left right span
  | .mod => Arithmetic.mod.apply operand left right span

/-- The result of the operator on two concrete values. An error without a place gets that of the
operation. -/
def apply (operand : Operand) (left right : Value) (span : Span) : Except EvalError Value :=
  (operand.applyBare left right span).mapError fun e => e.orAt span

theorem apply_error_span? {operand : Operand} {left right : Value} {span : Span} {e : EvalError}
    (h : operand.apply left right span = .error e) : e.span?.isSome = true := by
  unfold apply at h
  cases hb : operand.applyBare left right span with
  | ok v => rw [hb] at h; cases h
  | error e' => rw [hb] at h; cases h; rfl

end Operand

/-- The result of an operation whose operands are evaluated. -/
def Operation.apply (e : Operation Value) (left right : Value) : Except EvalError Value :=
  if e.isInterpolated && !e.operand.op.isLogical then
    .ok (.text e.span (left.interpolated ++ e.operand.separator ++ right.interpolated))
  else e.operand.apply left right e.span

end Stylesheet
