import Stylesheet.Proofs.Operation.Dimension

/-!
# Failures of operators

**Theorem (`Operand.apply_eq_error_iff`).** An operator fails on two values exactly where the table
`Operand.Fails` has an entry for them, with the error that stands there. Every error has a place:
that of the right number where units do not agree, and that of the operation everywhere else.

The table has one entry for each reason. Numbers fail only by their units (`Units.Mismatched`), in
comparisons as in sums. Only numbers have an order. Two colours need one opacity, and no colour is
divided by a channel or a number of zero. Whatever is left of arithmetic falls back on text, which
maps, null and functions do not have, and which can be neither multiplied nor taken a remainder of.

The fallback is where the pairs of kinds matter. A colour computes with a number on its right, but a
number computes with a colour on its right only in a sum or a product
(`Arithmetic.computesOn`); the other operators go on to text there, so that a number divided by a
colour does not fail, whatever the channels of the colour.
-/

namespace Stylesheet

theorem map_eq_error {ε α β : Type} {x : Except ε α} {f : α → β} {e : ε} :
    x.map f = .error e ↔ x = .error e := by
  cases x <;> simp [Except.map]

theorem mapError_eq_error {ε ε' α : Type} {x : Except ε α} {f : ε → ε'} {e : ε'} :
    x.mapError f = .error e ↔ ∃ e', x = .error e' ∧ f e' = e := by
  cases x <;> simp [Except.mapError]

/-- Every operator is of one of three families. -/
theorem Operator.logical_or_comparison_or_arithmetic (op : Operator) :
    op.isLogical = true ∨ op.isComparison = true ∨ ∃ a : Arithmetic, op = a.operator := by
  cases op with
  | and | or => exact .inl rfl
  | eq | ne | gt | ge | lt | le => exact .inr (.inl rfl)
  | add => exact .inr (.inr ⟨.add, rfl⟩)
  | sub => exact .inr (.inr ⟨.sub, rfl⟩)
  | mul => exact .inr (.inr ⟨.mul, rfl⟩)
  | div => exact .inr (.inr ⟨.div, rfl⟩)
  | mod => exact .inr (.inr ⟨.mod, rfl⟩)

/-! ## Kinds -/

/-- Kinds that have neither arithmetic nor a text to fall back on. -/
def Kind.isTextless : Kind → Bool
  | .map | .null | .function => true
  | _ => false

namespace Value

variable {v : Value}

theorem kind_eq_number : v.kind = .number ↔ ∃ n, v = .number n := by
  cases v with
  | diagnostic d => cases hseverity : d.severity <;> simp [kind, hseverity]
  | _ => simp [kind]

theorem kind_eq_color : v.kind = .color ↔ ∃ c, v = .color c := by
  cases v with
  | diagnostic d => cases hseverity : d.severity <;> simp [kind, hseverity]
  | _ => simp [kind]

theorem rejects_eq (v : Value) : Arithmetic.rejects v = v.kind.isTextless := by
  cases v with
  | diagnostic d => cases hseverity : d.severity <;> simp [kind, hseverity] <;> rfl
  | _ => rfl

end Value

namespace Arithmetic

variable {op : Arithmetic} {operand : Operand} {left right : Value} {span : Span} {e : EvalError}

/-- Whether the operator computes with values of two kinds, and does not join their texts. -/
def computesOn (op : Arithmetic) : Kind → Kind → Bool
  | .number, .number | .color, .color | .color, .number => true
  | .number, .color => op == .add || op == .mul
  | _, _ => false

/-- The operands that an operator computes with. -/
theorem operands_of_computesOn (h : op.computesOn left.kind right.kind = true) :
    (∃ a b, left = .number a ∧ right = .number b) ∨
    (∃ a b, left = .color a ∧ right = .color b) ∨
    (∃ c n, left = .color c ∧ right = .number n) ∨
    ∃ n c, left = .number n ∧ right = .color c ∧ (op = .add ∨ op = .mul) := by
  unfold computesOn at h
  split at h
  · next hleft hright =>
    obtain ⟨a, rfl⟩ := Value.kind_eq_number.1 hleft
    obtain ⟨b, rfl⟩ := Value.kind_eq_number.1 hright
    exact .inl ⟨a, b, rfl, rfl⟩
  · next hleft hright =>
    obtain ⟨a, rfl⟩ := Value.kind_eq_color.1 hleft
    obtain ⟨b, rfl⟩ := Value.kind_eq_color.1 hright
    exact .inr (.inl ⟨a, b, rfl, rfl⟩)
  · next hleft hright =>
    obtain ⟨c, rfl⟩ := Value.kind_eq_color.1 hleft
    obtain ⟨n, rfl⟩ := Value.kind_eq_number.1 hright
    exact .inr (.inr (.inl ⟨c, n, rfl, rfl⟩))
  · next hleft hright =>
    obtain ⟨n, rfl⟩ := Value.kind_eq_number.1 hleft
    obtain ⟨c, rfl⟩ := Value.kind_eq_color.1 hright
    exact .inr (.inr (.inr ⟨n, c, rfl, rfl, by simpa using h⟩))
  · cases h

theorem apply_of_not_computesOn (h : op.computesOn left.kind right.kind = false) :
    op.apply operand left right span = op.onOthers operand left right span := by
  unfold apply
  split
  · cases h
  · cases h
  · cases h
  · next n c =>
    refine if_neg fun hop => ?_
    rcases hop with rfl | rfl <;> cases h
  · rfl

theorem computesOn_of_isTextless (h : left.kind.isTextless = true ∨ right.kind.isTextless = true) :
    op.computesOn left.kind right.kind = false := by
  cases hleft : left.kind <;> cases hright : right.kind <;> simp_all [Kind.isTextless, computesOn]

/-! ## Colours -/

/-- Whether a colour has a channel that nothing is divided by. -/
def hasZero (c : Rgb Double) : Bool := c.r.isZero || c.g.isZero || c.b.isZero

theorem onColors?_eq_none (op : Arithmetic) (a b : Color) (span : Span) :
    op.onColors? a b span = none ↔
      a.rgbForm.channels.alpha.near b.rgbForm.channels.alpha = false ∨
        op.divides = true ∧ hasZero b.rgbForm.channels = true := by
  let x := a.rgbForm.channels
  let y := b.rgbForm.channels
  show (if !x.alpha.near y.alpha then none
    else if op.divides && hasZero y then none
    else some (op.onChannels x y x.alpha span)) = none ↔
      x.alpha.near y.alpha = false ∨ op.divides = true ∧ hasZero y = true
  by_cases hnear : x.alpha.near y.alpha = true
  · simp [hnear]
  · simp [hnear]

theorem onColorNumber?_eq_none (op : Arithmetic) (c : Color) (n : Double) (span : Span) :
    op.onColorNumber? c n span = none ↔ op.divides = true ∧ n.isZero = true := by
  unfold onColorNumber?
  simp

theorem apply_colors_eq_error {a b : Color} :
    op.apply operand (.color a) (.color b) span = .error e ↔
      (a.rgbForm.channels.alpha.near b.rgbForm.channels.alpha = false ∨
        op.divides = true ∧ hasZero b.rgbForm.channels = true) ∧
      e = .undefinedOperation (.color a) op.operator (.color b) := by
  rw [← onColors?_eq_none op a b span, apply]
  cases op.onColors? a b span <;> simp [eq_comm]

theorem apply_color_number_eq_error {c : Color} {n : Number} :
    op.apply operand (.color c) (.number n) span = .error e ↔
      (op.divides = true ∧ n.value.isZero = true) ∧
      e = .undefinedOperation (.color c) op.operator (.number n) := by
  rw [← onColorNumber?_eq_none op c n.value span, apply]
  cases op.onColorNumber? c n.value span <;> simp [eq_comm]

/-! ## Texts -/

theorem onTexts_eq_error : op.onTexts operand left right span = .error e ↔
    (op = .mul ∨ op = .mod) ∧ e = .undefinedOperation left op.operator right := by
  cases op <;> simp [onTexts, eq_comm]

theorem onOthers_eq_error : op.onOthers operand left right span = .error e ↔
    (left.kind.isTextless = true ∧ e = { cause := .invalidOperand left.typeName op.operator }) ∨
    (left.kind.isTextless = false ∧ right.kind.isTextless = true ∧
      e = { cause := .invalidOperand right.typeName op.operator }) ∨
    (left.kind.isTextless = false ∧ right.kind.isTextless = false ∧ (op = .mul ∨ op = .mod) ∧
      e = .undefinedOperation left op.operator right) := by
  unfold onOthers
  rw [Value.rejects_eq, Value.rejects_eq]
  cases left.kind.isTextless with
  | true => simpa using eq_comm
  | false =>
    cases right.kind.isTextless with
    | true => simpa using eq_comm
    | false => simp [onTexts_eq_error]

end Arithmetic

/-! ## The table -/

namespace Operand

variable {operand : Operand} {left right : Value} {span : Span} {e : EvalError}

/-- The error of an operation that has no meaning, at its place. -/
def undefinedAt (operand : Operand) (span : Span) (left right : Value) : EvalError :=
  (EvalError.undefinedOperation left operand.op right).placed span

/-- The error of an operation on a value of a kind that has none, at its place. -/
def invalidAt (operand : Operand) (span : Span) (v : Value) : EvalError :=
  EvalError.placed { cause := .invalidOperand v.typeName operand.op } span

/-- When an operator fails on two values, and with which error. -/
inductive Fails (operand : Operand) (span : Span) : Value → Value → EvalError → Prop
  /-- Numbers with units that measure different things are neither equal nor ordered. -/
  | comparison {a b : Number} (hop : operand.op.isComparison = true)
      (h : a.units.Mismatched b.units) :
      Fails operand span (.number a) (.number b) (a.incompatible b)
  /-- They have no sum, difference or remainder. -/
  | combination {op : Arithmetic} {a b : Number} (hop : operand.op = op.operator)
      (hcombines : op.combines = true) (h : a.units.Mismatched b.units) :
      Fails operand span (.number a) (.number b) (a.incompatible b)
  /-- Only numbers have an order. -/
  | order {left right : Value} (hop : operand.op ∈ [.lt, .le, .gt, .ge])
      (h : ¬ (left.kind = .number ∧ right.kind = .number)) :
      Fails operand span left right (operand.undefinedAt span left right)
  /-- Colours of two opacities have no arithmetic. -/
  | opacity {op : Arithmetic} {a b : Color} (hop : operand.op = op.operator)
      (h : a.rgbForm.channels.alpha.near b.rgbForm.channels.alpha = false) :
      Fails operand span (.color a) (.color b) (operand.undefinedAt span (.color a) (.color b))
  /-- No colour is divided by a channel of zero. -/
  | channel {op : Arithmetic} {a b : Color} (hop : operand.op = op.operator)
      (hdivides : op.divides = true) (h : Arithmetic.hasZero b.rgbForm.channels = true) :
      Fails operand span (.color a) (.color b) (operand.undefinedAt span (.color a) (.color b))
  /-- No colour is divided by zero. -/
  | divisor {op : Arithmetic} {c : Color} {n : Number} (hop : operand.op = op.operator)
      (hdivides : op.divides = true) (h : n.value.isZero = true) :
      Fails operand span (.color c) (.number n) (operand.undefinedAt span (.color c) (.number n))
  /-- Some kinds have neither arithmetic nor a text. The left operand is named first. -/
  | left {op : Arithmetic} {left right : Value} (hop : operand.op = op.operator)
      (h : left.kind.isTextless = true) :
      Fails operand span left right (operand.invalidAt span left)
  | right {op : Arithmetic} {left right : Value} (hop : operand.op = op.operator)
      (hleft : left.kind.isTextless = false) (h : right.kind.isTextless = true) :
      Fails operand span left right (operand.invalidAt span right)
  /-- Texts are neither multiplied nor taken a remainder of. -/
  | text {op : Arithmetic} {left right : Value} (hop : operand.op = op.operator)
      (hmul : op = .mul ∨ op = .mod) (hpair : op.computesOn left.kind right.kind = false)
      (hleft : left.kind.isTextless = false) (hright : right.kind.isTextless = false) :
      Fails operand span left right (operand.undefinedAt span left right)

/-- An error of the table has the place that its cause asks for. -/
theorem Fails.span?_eq (h : operand.Fails span left right e) :
    e.span? = some (match e.cause with
      | .incompatibleUnits _ _ => right.span
      | _ => span) := by
  cases h <;> rfl

/-! ## Comparisons -/

theorem related?_eq_error {op : Operator} {holds : Ordering → Bool} :
    Value.related? op holds left right = .error e ↔
      (∃ a b, left = .number a ∧ right = .number b ∧ a.units.Mismatched b.units ∧
        e = a.incompatible b) ∨
      (¬ (left.kind = .number ∧ right.kind = .number) ∧
        e = .undefinedOperation left op right) := by
  by_cases hkind : left.kind = .number ∧ right.kind = .number
  · obtain ⟨a, rfl⟩ := Value.kind_eq_number.1 hkind.1
    obtain ⟨b, rfl⟩ := Value.kind_eq_number.1 hkind.2
    simp [Value.related?, map_eq_error, Number.compare?_eq_error, Value.kind]
  · have hrelated : Value.related? op holds left right =
        .error (.undefinedOperation left op right) := by
      unfold Value.related?
      split
      · exact absurd ⟨rfl, rfl⟩ hkind
      · rfl
    have hnumbers : ¬ ∃ a b, left = .number a ∧ right = .number b ∧
        a.units.Mismatched b.units ∧ e = a.incompatible b := by
      rintro ⟨a, b, rfl, rfl, -⟩
      exact hkind ⟨rfl, rfl⟩
    rw [hrelated, or_iff_right hnumbers, and_iff_right hkind, Except.error.injEq, eq_comm]

theorem value_equal?_eq_error [Hasher] : left.equal? right = .error e ↔
    ∃ a b, left = .number a ∧ right = .number b ∧ a.units.Mismatched b.units ∧
      e = a.incompatible b := by
  unfold Value.equal?
  split
  · simp [Number.equal?_eq_error]
  · next hnot =>
    constructor
    · rintro ⟨⟩
    · rintro ⟨a, b, rfl, rfl, -⟩
      exact (hnot a b rfl rfl).elim

theorem applyBare_comparison_eq_error [Hasher] (hop : operand.op.isComparison = true) :
    operand.applyBare left right span = .error e ↔
      (∃ a b, left = .number a ∧ right = .number b ∧ a.units.Mismatched b.units ∧
        e = a.incompatible b) ∨
      (operand.op ∈ [.lt, .le, .gt, .ge] ∧ ¬ (left.kind = .number ∧ right.kind = .number) ∧
        e = .undefinedOperation left operand.op right) := by
  unfold applyBare
  cases h : operand.op <;> simp only [h, Operator.isComparison, Bool.false_eq_true] at hop <;>
    simp [map_eq_error, related?_eq_error, value_equal?_eq_error]

theorem exists_applyBare_of_logical [Hasher] (hop : operand.op.isLogical = true)
    (left right : Value) (span : Span) : ∃ v, operand.applyBare left right span = .ok v := by
  unfold applyBare
  cases h : operand.op <;> simp_all [Operator.isLogical]

/-! ## Failing -/

theorem apply_eq_error [Hasher] : operand.apply left right span = .error e ↔
    ∃ e', operand.applyBare left right span = .error e' ∧ e'.orAt span = e :=
  mapError_eq_error

theorem apply_arithmetic_eq_error [Hasher] {op : Arithmetic} (hop : operand.op = op.operator) :
    operand.apply left right span = .error e ↔
      ∃ e', op.apply operand left right span = .error e' ∧ e'.orAt span = e := by
  rw [apply_eq_error, applyBare_of_arithmetic hop]

theorem undefinedAt_eq {op : Operator} (h : operand.op = op) : operand.undefinedAt span left right =
    (EvalError.undefinedOperation left op right).orAt span := by
  rw [← h]
  rfl

/-- What the table lists fails. -/
theorem Fails.apply_eq [Hasher] (h : operand.Fails span left right e) :
    operand.apply left right span = .error e := by
  cases h with
  | @comparison a b hop h =>
    exact apply_eq_error.2 ⟨a.incompatible b,
      (applyBare_comparison_eq_error hop).2 (.inl ⟨a, b, rfl, rfl, h, rfl⟩), rfl⟩
  | combination hop hcombines h =>
    rw [apply_numbers hop]
    exact Arithmetic.onNumbers_eq_error.2 ⟨hcombines, h, rfl⟩
  | order hop h =>
    have hcomparison : operand.op.isComparison = true := by
      revert hop
      cases operand.op <;> simp [Operator.isComparison]
    exact apply_eq_error.2
      ⟨_, (applyBare_comparison_eq_error hcomparison).2 (.inr ⟨hop, h, rfl⟩), rfl⟩
  | opacity hop h =>
    rw [undefinedAt_eq hop]
    exact (apply_arithmetic_eq_error hop).2
      ⟨_, Arithmetic.apply_colors_eq_error.2 ⟨.inl h, rfl⟩, rfl⟩
  | channel hop hdivides h =>
    rw [undefinedAt_eq hop]
    exact (apply_arithmetic_eq_error hop).2
      ⟨_, Arithmetic.apply_colors_eq_error.2 ⟨.inr ⟨hdivides, h⟩, rfl⟩, rfl⟩
  | divisor hop hdivides h =>
    rw [undefinedAt_eq hop]
    exact (apply_arithmetic_eq_error hop).2
      ⟨_, Arithmetic.apply_color_number_eq_error.2 ⟨⟨hdivides, h⟩, rfl⟩, rfl⟩
  | left hop h =>
    refine (apply_arithmetic_eq_error hop).2 ⟨{ cause := .invalidOperand _ _ }, ?_, rfl⟩
    rw [Arithmetic.apply_of_not_computesOn (Arithmetic.computesOn_of_isTextless (.inl h)), hop]
    exact Arithmetic.onOthers_eq_error.2 (.inl ⟨h, rfl⟩)
  | right hop hleft h =>
    refine (apply_arithmetic_eq_error hop).2 ⟨{ cause := .invalidOperand _ _ }, ?_, rfl⟩
    rw [Arithmetic.apply_of_not_computesOn (Arithmetic.computesOn_of_isTextless (.inr h)), hop]
    exact Arithmetic.onOthers_eq_error.2 (.inr (.inl ⟨hleft, h, rfl⟩))
  | text hop hmul hpair hleft hright =>
    rw [undefinedAt_eq hop]
    refine (apply_arithmetic_eq_error hop).2 ⟨_, ?_, rfl⟩
    rw [Arithmetic.apply_of_not_computesOn hpair]
    exact Arithmetic.onOthers_eq_error.2 (.inr (.inr ⟨hleft, hright, hmul, rfl⟩))

/-- Arithmetic that fails is listed. -/
theorem fails_of_arithmetic {op : Arithmetic} (hop : operand.op = op.operator)
    (h : op.apply operand left right span = .error e) :
    operand.Fails span left right (e.orAt span) := by
  cases hpair : op.computesOn left.kind right.kind with
  | true =>
    rcases Arithmetic.operands_of_computesOn hpair with
      ⟨a, b, rfl, rfl⟩ | ⟨a, b, rfl, rfl⟩ | ⟨c, n, rfl, rfl⟩ | ⟨n, c, rfl, rfl, hmul⟩
    · obtain ⟨hcombines, hmismatched, rfl⟩ := Arithmetic.onNumbers_eq_error.1 h
      exact .combination hop hcombines hmismatched
    · obtain ⟨hcolors, rfl⟩ := Arithmetic.apply_colors_eq_error.1 h
      rw [← undefinedAt_eq hop]
      rcases hcolors with hopacity | ⟨hdivides, hzero⟩
      · exact .opacity hop hopacity
      · exact .channel hop hdivides hzero
    · obtain ⟨⟨hdivides, hzero⟩, rfl⟩ := Arithmetic.apply_color_number_eq_error.1 h
      rw [← undefinedAt_eq hop]
      exact .divisor hop hdivides hzero
    · rw [Arithmetic.apply, if_pos hmul] at h
      cases h
  | false =>
    rw [Arithmetic.apply_of_not_computesOn hpair] at h
    rcases Arithmetic.onOthers_eq_error.1 h with
      ⟨hleft, rfl⟩ | ⟨hleft, hright, rfl⟩ | ⟨hleft, hright, hmul, rfl⟩
    · rw [← hop]
      exact .left hop hleft
    · rw [← hop]
      exact .right hop hleft hright
    · rw [← undefinedAt_eq hop]
      exact .text hop hmul hpair hleft hright

/-- What fails is listed. -/
theorem fails_of_apply [Hasher] (h : operand.apply left right span = .error e) :
    operand.Fails span left right e := by
  obtain ⟨e', hbare, rfl⟩ := apply_eq_error.1 h
  rcases operand.op.logical_or_comparison_or_arithmetic with hop | hop | ⟨op, hop⟩
  · obtain ⟨v, hv⟩ := exists_applyBare_of_logical hop left right span
    rw [hv] at hbare
    cases hbare
  · rcases (applyBare_comparison_eq_error hop).1 hbare with
      ⟨a, b, rfl, rfl, hmismatched, rfl⟩ | ⟨horder, hkind, rfl⟩
    · exact .comparison hop hmismatched
    · exact .order horder hkind
  · rw [applyBare_of_arithmetic hop] at hbare
    exact fails_of_arithmetic hop hbare

/-- **Operators fail exactly where the table says**, and every error has a place. -/
theorem apply_eq_error_iff [Hasher] (operand : Operand) (left right : Value) (span : Span) :
    (∀ e, operand.apply left right span = .error e ↔ operand.Fails span left right e) ∧
      ∀ e, operand.apply left right span = .error e →
        e.span? = some (match e.cause with
          | .incompatibleUnits _ _ => right.span
          | _ => span) :=
  ⟨fun _ => ⟨fails_of_apply, Fails.apply_eq⟩, fun _ h => (fails_of_apply h).span?_eq⟩

end Operand

/-- Two ems, written at a place. -/
def Number.placedEms : Number := .ofText (.point ⟨1⟩ 7) 2 "em"

open Number in
/-- A comparison fails at its right number, and a remainder at its own place. -/
theorem Operand.apply_eq_error_iff_placedEms :
    ((⟨.lt, true, true⟩ : Operand).apply (.number inchPerPixel) (.number placedEms)
        (.point ⟨1⟩ 3) = .error (inchPerPixel.incompatible placedEms) ∧
      (inchPerPixel.incompatible placedEms).span? = some (.point ⟨1⟩ 7)) ∧
    ((⟨.mod, true, true⟩ : Operand).apply (.number placedEms) (.null .nowhere) (.point ⟨1⟩ 3) =
        .error (invalidAt ⟨.mod, true, true⟩ (.point ⟨1⟩ 3) (.null .nowhere)) ∧
      (invalidAt ⟨.mod, true, true⟩ (.point ⟨1⟩ 3) (.null .nowhere)).span? =
        some (.point ⟨1⟩ 3)) := by
  have hunits : inchPerPixel.units.Mismatched placedEms.units := by decide +kernel
  obtain ⟨hless, hlessPlace⟩ := apply_eq_error_iff ⟨.lt, true, true⟩ (.number inchPerPixel)
    (.number placedEms) (.point ⟨1⟩ 3)
  obtain ⟨hmod, hmodPlace⟩ := apply_eq_error_iff ⟨.mod, true, true⟩ (.number placedEms)
    (.null .nowhere) (.point ⟨1⟩ 3)
  have hcompared := (hless _).2 (.comparison rfl hunits)
  have hoperator : Operator.mod = Arithmetic.mod.operator := rfl
  have hremainder := (hmod _).2 (.right hoperator rfl rfl)
  exact ⟨⟨hcompared, hlessPlace _ hcompared⟩, hremainder, hmodPlace _ hremainder⟩

end Stylesheet
