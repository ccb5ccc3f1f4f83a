import Stylesheet.Environment
import Stylesheet.Operation
import Stylesheet.Value.Change

/-!
# Reduction

Reduction evaluates a value from the inside out, in an environment. Concrete values are kept, lists
and maps are rebuilt from their reduced members, and pending values are replaced by what they
evaluate to.

* The right operand of `and` and `or` is not looked at once the left one decides.
* A division that was marked as delayed stays an operation when both its operands are numbers: it
  is a slash between two numbers, as in `12px/1.5`.
* A call of a name that stands for nothing is plain CSS and becomes text.
* A diagnostic that a function returns becomes an error, or null if it is a warning.
* The keys of a map are reduced too, so keys that were written differently can meet.
-/

namespace Stylesheet

variable [Hasher]

/-- Whether the left operand alone decides the result. -/
def Operator.isDecidedBy (op : Operator) (left : Value) : Bool :=
  match op with
  | .and => left.isFalse
  | .or => left.isTruthy
  | _ => false

namespace Value

/-- The text of a call that stays in the stylesheet. -/
def plainCall (name : String) (arguments : List (Argument Value)) (span : Span) : Value :=
  .text span (Value.call { name, arguments, span }).css

/-- What a function returned, with diagnostics taken out. -/
def settle (v : Value) (span : Span) : Except EvalError Value :=
  match v with
  | .diagnostic d =>
    match d.severity with
    | .error => .error ((EvalError.custom d.message).placed span)
    | .warning => .ok (.null span)
  | v => .ok v

/-- The result of a call whose arguments are reduced. -/
def finishCall (env : Environment) (c : Call Value) (arguments : List (Argument Value)) :
    Except EvalError Value :=
  match c.callee with
  | .native f => settle (env.host f (arguments.map Argument.value) c.span) c.span
  | callee =>
    if c.isCss then .ok (plainCall c.name arguments c.span)
    else
      match env.call? c.name arguments c.span, callee with
      | some (.ok v), _ => settle v c.span
      | some (.error e), _ => .error (e.orAt c.span)
      | none, .named => .ok (plainCall c.name arguments c.span)
      | none, _ => .error (EvalError.placed { cause := .undefinedFunction c.name } c.span)

/-- Whether an operation on two reduced operands stays as it is. -/
def isKeptSlash (e : Operation Value) (left right : Value) : Bool :=
  e.delayed && e.operand.op == .div && left.number?.isSome && right.number?.isSome

/-- The result of an operation whose operands are reduced. -/
def finishOperation (e : Operation Value) (left right : Value) : Except EvalError Value :=
  if isKeptSlash e left right then
    .ok (setDelayed true (.operation { operand := e.operand, left, right, span := e.span }))
  else e.apply left right

/-- A list of the reduced members of another one. -/
def rebuildList (l : ListOf Value) (items : List Value) (keywords : List (String × Value)) :
    Value :=
  if l.arglist then
    .list (((ListOf.ofArguments l.span items keywords).setSeparator l.separator).setBracketed
      l.bracketed)
  else .list (ListOf.withBracketed { items, separator := l.separator, span := l.span } l.bracketed)

/-- A map of the reduced pairs of another one. A key that stands twice is an error: the one that
was met when the map was written, or else the first after reduction. -/
def rebuildMap (m : MapOf Value) (pairs : List (Value × Value)) : Except EvalError Value :=
  let reduced := MapOf.ofPairs m.span pairs
  match m.duplicate?.or reduced.duplicate? with
  | some key => .error (EvalError.placed { cause := .duplicateKey key.inspect } m.span)
  | none => .ok (.map reduced)

mutual

/-- Evaluates a value. -/
def reduce (env : Environment) : Value → Except EvalError Value
  | .variable v =>
    match env.lookup? v.name with
    | some value => .ok value
    | none => .error (EvalError.placed { cause := .undefinedVariable v.name } v.span)
  | .operation e => do
    let left ← reduce env e.left
    if e.operand.op.isDecidedBy left then .ok left
    else
      let right ← reduce env e.right
      finishOperation e left right
  | .template t => do
    let text ← reduceFragments env t.fragments
    .ok (.quoted t.span text t.quote?)
  | .call c => do
    let arguments ← reduceArguments env c.arguments
    finishCall env c arguments
  | .list l => do
    let items ← reduceItems env l.items
    let keywords ← if l.arglist then reduceKeywords env l.keywords else .ok []
    .ok (rebuildList l items keywords)
  | .map m => do
    let pairs ← reduceEntries env m.entries
    rebuildMap m pairs
  | .diagnostic d => settle (.diagnostic d) d.span
  | v => .ok v
  termination_by structural v => v

/-- Evaluates the items of a list from the left. -/
def reduceItems (env : Environment) : List Value → Except EvalError (List Value)
  | [] => .ok []
  | v :: vs => do
    let value ← reduce env v
    let rest ← reduceItems env vs
    .ok (value :: rest)
  termination_by structural vs => vs

/-- Evaluates the holes of a template and joins its pieces. -/
def reduceFragments (env : Environment) : List (Fragment Value) → Except EvalError String
  | [] => .ok ""
  | .text s :: fs => do
    let rest ← reduceFragments env fs
    .ok (s ++ rest)
  | .hole v :: fs => do
    let value ← reduce env v
    let rest ← reduceFragments env fs
    .ok (value.interpolated ++ rest)
  termination_by structural fs => fs

/-- Evaluates the arguments of a call from the left. -/
def reduceArguments (env : Environment) :
    List (Argument Value) → Except EvalError (List (Argument Value))
  | [] => .ok []
  | a :: as => do
    let value ← reduce env a.value
    let rest ← reduceArguments env as
    .ok ({ a with value } :: rest)
  termination_by structural as => as

/-- Evaluates keywords from the left. -/
def reduceKeywords (env : Environment) :
    List (String × Value) → Except EvalError (List (String × Value))
  | [] => .ok []
  | (name, v) :: ks => do
    let value ← reduce env v
    let rest ← reduceKeywords env ks
    .ok ((name, value) :: rest)
  termination_by structural ks => ks

/-- Evaluates pairs from the left, each key before its value. -/
def reduceEntries (env : Environment) :
    List (Value × Value) → Except EvalError (List (Value × Value))
  | [] => .ok []
  | (k, v) :: es => do
    let key ← reduce env k
    let value ← reduce env v
    let rest ← reduceEntries env es
    .ok ((key, value) :: rest)
  termination_by structural es => es

end

end Value

end Stylesheet
