import Stylesheet.Value.Basic

/-!
# Questions about values

What a value says of itself without being evaluated: its type, whether a list that holds it prints
it, whether it is false, whether an end of it was interpolated, and how it behaves as a list.

A value that is no list counts as a list of one item, and a map as the list of its pairs.
-/

namespace Stylesheet

namespace ListOf

variable {α : Type}

/-- A list without items and brackets is left out of a list that holds it. -/
def isInvisible (l : ListOf α) : Bool := l.items.isEmpty && !l.bracketed

/-- What the type of a list is called. -/
def typeName (l : ListOf α) : String := if l.arglist then "arglist" else "list"

end ListOf

namespace Fragment

variable {α : Type}

/-- Whether the piece was interpolated. -/
def isHole : Fragment α → Bool
  | .text _ => false
  | .hole _ => true

end Fragment

namespace Template

variable {α : Type}

/-- Whether anything was interpolated. -/
def hasHoles (t : Template α) : Bool := t.fragments.any Fragment.isHole

/-- Whether the template begins with an interpolation. -/
def opensWithHole (t : Template α) : Bool := t.fragments.head?.any Fragment.isHole

/-- Whether the template ends with an interpolation. -/
def closesWithHole (t : Template α) : Bool := t.fragments.getLast?.any Fragment.isHole

end Template

namespace MapOf

variable {α : Type}

/-- A map without pairs is left out of a list that holds it. -/
def isInvisible (m : MapOf α) : Bool := m.entries.isEmpty

/-- The keys in order. -/
def keys (m : MapOf α) : List α := Entries.keys m.entries

/-- The values in the order of their keys. -/
def values (m : MapOf α) : List α := m.entries.map Prod.snd

/-- The pair at a position. -/
def pairAt? (m : MapOf α) (index : Nat) : Option (α × α) := m.entries[index]?

end MapOf

namespace Value

/-- The type of a value, as messages name it. -/
def typeName : Value → String
  | .number _ => "number"
  | .color _ => "color"
  | .string _ => "string"
  | .template _ => "string"
  | .list l => l.typeName
  | .map _ => "map"
  | .bool _ _ => "bool"
  | .null _ => "null"
  | .parent _ => "parent"
  | .function _ => "function"
  | .call _ => "call"
  | .variable _ => "variable"
  | .operation e => e.operand.op.name
  | .diagnostic d =>
    match d.severity with
    | .error => "error"
    | .warning => "warning"

/-- Whether the value has still to be evaluated. -/
def isPending : Value → Bool
  | .template _ | .call _ | .variable _ | .operation _ => true
  | _ => false

/-- Whether the value is left out where the items of a list are printed. A function is left out,
though by itself it has a text. -/
def isInvisible : Value → Bool
  | .string s => s.isInvisible
  | .list l => l.isInvisible
  | .map m => m.isInvisible
  | .null _ | .function _ => true
  | _ => false

/-- Only `null` and `false` are false. -/
def isFalse : Value → Bool
  | .null _ => true
  | .bool value _ => !value
  | _ => false

/-- Every other value is true. -/
def isTruthy (v : Value) : Bool := !v.isFalse

/-- Whether the value was marked as one to leave alone. -/
def isDelayed : Value → Bool
  | .number n => n.delayed
  | .list l => l.delayed
  | .template t => t.delayed
  | .operation e => e.delayed
  | _ => false

/-! ## Interpolated ends -/

/-- Whether the left end of the value was interpolated. -/
def opensInterpolated : Value → Bool
  | .template t => t.opensWithHole
  | .operation e => e.interpolant || e.left.opensInterpolated
  | _ => false

/-- Whether the right end of the value was interpolated. -/
def closesInterpolated : Value → Bool
  | .template t => t.closesWithHole
  | .operation e => e.interpolant || e.right.closesInterpolated
  | _ => false

/-- Whether an end of the value was interpolated. -/
def isInterpolated (v : Value) : Bool := v.opensInterpolated || v.closesInterpolated

/-! ## A value as a list -/

/-- How many items the value has as a list. -/
def length : Value → Nat
  | .list l => l.items.length
  | .map m => m.entries.length
  | _ => 1

/-- The list of a key and its value. -/
def pair (span : Span) (entry : Value × Value) : Value := spaceList span [entry.1, entry.2]

/-- An item of the value as a list. -/
def item? (v : Value) (index : Nat) : Option Value :=
  match v with
  | .list l => l.items[index]?
  | .map m => (m.pairAt? index).map (pair m.span)
  | v => if index = 0 then some v else none

end Value

/-- The pairs of a map as a list of lists. -/
def MapOf.toList (m : MapOf Value) (span : Span) : ListOf Value :=
  { items := m.entries.map (Value.pair span), separator := .comma, span }

/-- Whether an end of the operation was interpolated, so that it is text and not arithmetic. -/
def Operation.isInterpolated (e : Operation Value) : Bool :=
  (Value.operation e).isInterpolated

end Stylesheet
