import Stylesheet.Proofs.Reduction.Outcome

/-!
# `and` and `or`

**Theorem (`Value.reduce_logical`).** `and` and `or` give one of their operands as it reduces. The
left one is the result if it fails or decides: what is false decides for `and`, and what is true for
`or`. Then the right one is not looked at, and may well fail. Otherwise the right one is the result.
Both operators are associative.

No mark of an operation plays a part in this. An interpolated end makes any other operation text,
and a delayed division stays an operation; these two operators are exempt from both
(`Value.finishOperation_of_isLogical`).

**Chains.** Operations of one operator may be nested on either side. A chain (`Value.Chain`) is such
a tree with its operands from left to right, and it reduces to the first of them that fails or
decides, or else to the last (`Value.reduce_chain`). So only the operands and their order count, and
not how they are nested. What carries the induction on the tree is that to take the first of two
results (`Operator.firstOf`) is associative: a result that decides, decides in any company.
-/

namespace Stylesheet

/-- The first of two results if it fails or decides, or else the second one. -/
def Operator.firstOf (op : Operator) (x y : Except EvalError Value) : Except EvalError Value := do
  let v ← x
  if op.isDecidedBy v then .ok v else y

theorem Operator.firstOf_assoc (op : Operator) (x y z : Except EvalError Value) :
    op.firstOf (op.firstOf x y) z = op.firstOf x (op.firstOf y z) := by
  cases x with
  | error e => rfl
  | ok v =>
    have hfirst : ∀ y, op.firstOf (.ok v) y = if op.isDecidedBy v then .ok v else y := fun _ => rfl
    cases hdecided : op.isDecidedBy v <;> simp [hfirst, hdecided]

/-- The operation of `op` on two values, whatever its blanks, marks and place are. -/
structure Operation.Joins (e : Operation Value) (op : Operator) (left right : Value) : Prop where
  op_eq : e.operand.op = op
  left_eq : e.left = left
  right_eq : e.right = right

namespace Value

variable {env : Environment} {op : Operator} {e : Operation Value} {a b v w : Value}

/-! ## One operation -/

theorem apply_of_isLogical [Hasher] {operand : Operand} (hop : operand.op.isLogical = true)
    (left right : Value) (span : Span) : operand.apply left right span =
      .ok (if operand.op.isDecidedBy left then left else right) := by
  unfold Operand.apply Operand.applyBare
  cases h : operand.op <;> simp only [h, Operator.isLogical, Bool.false_eq_true] at hop <;> rfl

/-- Neither interpolation nor delay changes what `and` and `or` give. -/
theorem finishOperation_of_isLogical [Hasher] (hop : e.operand.op.isLogical = true)
    (left right : Value) : finishOperation e left right =
      .ok (if e.operand.op.isDecidedBy left then left else right) := by
  have hkept : isKeptSlash e left right = false := by
    have hdiv : e.operand.op ≠ .div := fun h => by simp [h, Operator.isLogical] at hop
    simp [isKeptSlash, hdiv]
  rw [finishOperation, if_neg (by simp [hkept]), Operation.apply, if_neg (by simp [hop]),
    apply_of_isLogical hop]

theorem reduce_operation_of_isLogical [Hasher] (hop : e.operand.op.isLogical = true) :
    reduce env (.operation e) = e.operand.op.firstOf (reduce env e.left) (reduce env e.right) := by
  rw [reduce]
  refine bind_congr fun x => ?_
  cases hdecided : e.operand.op.isDecidedBy x with
  | true => rfl
  | false =>
    simp only [finishOperation_of_isLogical hop, hdecided, Bool.false_eq_true, if_false]
    cases reduce env e.right <;> rfl

theorem reduce_joins [Hasher] (hop : op.isLogical = true) (he : e.Joins op a b) :
    reduce env (.operation e) = op.firstOf (reduce env a) (reduce env b) := by
  obtain ⟨rfl, rfl, rfl⟩ := he
  exact reduce_operation_of_isLogical hop

/-! ## Chains -/

/-- A tree of operations of one operator, with its operands from left to right: all but the last
one, and the last one. -/
inductive Chain (op : Operator) : Value → List Value → Value → Prop
  | operand (v : Value) : Chain op v [] v
  | operation {e : Operation Value} {a b last last' : Value} {vs ws : List Value}
      (he : e.Joins op a b) (hleft : Chain op a vs last) (hright : Chain op b ws last') :
      Chain op (.operation e) (vs ++ last :: ws) last'

/-- **A chain reduces to its first operand that fails or decides, or else to the last one.** -/
theorem reduce_chain [Hasher] {vs : List Value} {last : Value} (hop : op.isLogical = true)
    (h : Chain op v vs last) :
    reduce env v = vs.foldr (fun x rest => op.firstOf (reduce env x) rest) (reduce env last) := by
  have hmove : ∀ (vs : List Value) (x y : Except EvalError Value),
      op.firstOf (vs.foldr (fun x rest => op.firstOf (reduce env x) rest) x) y =
        vs.foldr (fun x rest => op.firstOf (reduce env x) rest) (op.firstOf x y) := by
    intro vs x y
    induction vs with
    | nil => rfl
    | cons v vs ih => rw [List.foldr_cons, List.foldr_cons, op.firstOf_assoc, ih]
  induction h with
  | operand v => rfl
  | operation he _ _ ihleft ihright =>
    rw [reduce_joins hop he, ihleft, ihright, hmove, List.foldr_append, List.foldr_cons]

/-- **`and` and `or` give the first operand that decides, and are associative.** -/
theorem reduce_logical [Hasher] (env : Environment) (a b c : Value) :
    -- `and` stops at what is false.
    (∀ e : Operation Value, e.Joins .and a b →
      (∀ error, reduce env a = .error error → reduce env (.operation e) = .error error) ∧
      ∀ x, reduce env a = .ok x →
        reduce env (.operation e) = if x.isFalse then .ok x else reduce env b) ∧
    -- `or` stops at what is true.
    (∀ e : Operation Value, e.Joins .or a b →
      (∀ error, reduce env a = .error error → reduce env (.operation e) = .error error) ∧
      ∀ x, reduce env a = .ok x →
        reduce env (.operation e) = if x.isTruthy then .ok x else reduce env b) ∧
    -- Nested on the left or on the right, the three operands give the same.
    ∀ op : Operator, op.isLogical = true →
      ∀ inner outer inner' outer' : Operation Value,
        inner.Joins op a b → outer.Joins op (.operation inner) c →
        inner'.Joins op b c → outer'.Joins op a (.operation inner') →
        reduce env (.operation outer) = reduce env (.operation outer') := by
  refine ⟨fun e he => ?and, fun e he => ?or, ?nested⟩
  case and =>
    rw [reduce_joins rfl he]
    exact ⟨fun error h => by rw [h]; rfl, fun x h => by rw [h]; rfl⟩
  case or =>
    rw [reduce_joins rfl he]
    exact ⟨fun error h => by rw [h]; rfl, fun x h => by rw [h]; rfl⟩
  case nested =>
    intro op hop inner outer inner' outer' h₁ h₂ h₃ h₄
    have hleft : Chain op (.operation outer) [a, b] c :=
      .operation h₂ (.operation h₁ (.operand a) (.operand b)) (.operand c)
    have hright : Chain op (.operation outer') [a, b] c :=
      .operation h₄ (.operand a) (.operation h₃ (.operand b) (.operand c))
    rw [reduce_chain hop hleft, reduce_chain hop hright]

/-- An operation with all its marks set. -/
def marked (op : Operator) (left right : Value) : Operation Value where
  operand := ⟨op, true, true⟩
  left := left
  right := right
  interpolant := true
  delayed := true
  span := .nowhere

theorem joins_marked (op : Operator) (left right : Value) :
    (marked op left right).Joins op left right := ⟨rfl, rfl, rfl⟩

/-- A variable without a value fails only where it is reached, whatever the nesting. -/
theorem reduce_logical_unbound :
    let no : Value := .bool false .nowhere
    let yes : Value := .bool true .nowhere
    let unbound : Value := .variable ⟨"x", .nowhere⟩
    let failure : EvalError := .placed { cause := .undefinedVariable "x" } .nowhere
    (marked .and no unbound).Joins .and no unbound ∧
      reduce .empty (.operation (marked .and no unbound)) = .ok no ∧
      reduce .empty (.operation (marked .and unbound no)) = .error failure ∧
      reduce .empty (.operation (marked .or no unbound)) = .error failure ∧
      reduce .empty (.operation (marked .or (.operation (marked .or no yes)) unbound)) =
        reduce .empty (.operation (marked .or no (.operation (marked .or yes unbound)))) ∧
      reduce .empty (.operation (marked .or no (.operation (marked .or yes unbound)))) =
        .ok yes := by
  intro no yes unbound failure
  have hno : reduce .empty no = .ok no := rfl
  have hunbound : reduce .empty unbound = .error failure := rfl
  have hand := (reduce_logical .empty no unbound no).1 _ (joins_marked .and no unbound)
  have hfails := (reduce_logical .empty unbound no no).1 _ (joins_marked .and unbound no)
  have hor := (reduce_logical .empty no unbound no).2.1 _ (joins_marked .or no unbound)
  have hnested := (reduce_logical .empty no yes unbound).2.2 .or rfl _ _ _ _
    (joins_marked .or no yes) (joins_marked .or (.operation (marked .or no yes)) unbound)
    (joins_marked .or yes unbound) (joins_marked .or no (.operation (marked .or yes unbound)))
  exact ⟨joins_marked .and no unbound, hand.2 no hno, hfails.1 failure hunbound,
    (hor.2 no hno).trans hunbound, hnested, rfl⟩

end Value

end Stylesheet
