import Stylesheet.Value.Query

/-!
# Changing values

Values are changed by making new ones. A change of what the digest depends on drops the digest that
a node carries; a change of a flag keeps it.

* **Delaying (`Value.setDelayed`)** passes through operations and templates to the values inside,
  but stops at a node that is already in the requested state.
* **Trimming (`Value.trimEnd`)** reaches the one text at the end of a string or template.
-/

namespace Stylesheet

/-! ## Lists -/

namespace ListOf

variable {α : Type}

/-- An argument list, with commas. -/
def ofArguments (span : Span) (items : List α) (keywords : List (String × α)) : ListOf α :=
  { items, separator := .comma, arglist := true, keywords, span }

/-- The list with brackets or without, at the end of its making. -/
def withBracketed (l : ListOf α) (on : Bool) : ListOf α := { l with bracketed := on }

/-- The list with its items changed. It is not expanded any more. -/
def modifyItems (f : List α → List α) (l : ListOf α) : ListOf α :=
  { l with items := f l.items, expanded := false, memo := none }

/-- The list with one more item. -/
def push (l : ListOf α) (v : α) : ListOf α := l.modifyItems (· ++ [v])

/-- The list with more items. -/
def append (l : ListOf α) (vs : List α) : ListOf α := l.modifyItems (· ++ vs)

/-- The list with another separator. -/
def setSeparator (l : ListOf α) (separator : Separator) : ListOf α :=
  { l with separator, memo := none }

/-- The list with brackets or without. -/
def setBracketed (l : ListOf α) (on : Bool) : ListOf α := { l with bracketed := on, memo := none }

/-- The list with its mark of having been spliced. -/
def setExpanded (l : ListOf α) (on : Bool) : ListOf α := { l with expanded := on }

/-- The list with its own mark; the items keep theirs. -/
def setDelayed (l : ListOf α) (on : Bool) : ListOf α := { l with delayed := on }

end ListOf

namespace MapOf

variable {α : Type}

/-- The map with its mark of having been spliced. -/
def setExpanded (m : MapOf α) (on : Bool) : MapOf α := { m with expanded := on }

end MapOf

namespace Template

variable {α : Type}

/-- The template with a quote mark, at the end of its making. -/
def withQuote (t : Template α) (mark : Char) : Template α := { t with quote? := some mark }

/-- The template with one more piece. -/
def push (t : Template α) (piece : Fragment α) : Template α :=
  { t with fragments := t.fragments ++ [piece], memo := none }

end Template

/-- The call with its mark of going through a function value, at the end of its making. -/
def Call.withViaCall {α : Type} (c : Call α) (on : Bool) : Call α := { c with viaCall := on }

/-- The operation with its mark of standing inside an interpolation, at the end of its making. -/
def Operation.withInterpolant {α : Type} (e : Operation α) (on : Bool) : Operation α :=
  { e with interpolant := on }

/-! ## Delaying -/

namespace Value

mutual

/-- The value with its mark set. A value that has no mark stays as it is. -/
def setDelayed (on : Bool) : Value → Value
  | .number n => .number (n.setDelayed on)
  | .list l => .list (l.setDelayed on)
  | .template t =>
    if t.delayed = on then .template t
    else .template { t with delayed := on, fragments := setDelayedFragments on t.fragments }
  | .operation e =>
    if e.delayed = on then .operation e
    else .operation { e with
      delayed := on, left := setDelayed on e.left, right := setDelayed on e.right }
  | v => v
  termination_by structural v => v

/-- The pieces of a template with the marks of interpolated values set. -/
def setDelayedFragments (on : Bool) : List (Fragment Value) → List (Fragment Value)
  | [] => []
  | .text s :: fs => .text s :: setDelayedFragments on fs
  | .hole v :: fs => .hole (setDelayed on v) :: setDelayedFragments on fs
  termination_by structural fs => fs

end

end Value

/-- The template with its mark and those of its interpolated values set. -/
def Template.setDelayed (t : Template Value) (on : Bool) : Template Value :=
  { t with delayed := on, fragments := Value.setDelayedFragments on t.fragments }

/-- The operation with its mark and those of its operands set. -/
def Operation.setDelayed (e : Operation Value) (on : Bool) : Operation Value :=
  { e with delayed := on, left := e.left.setDelayed on, right := e.right.setDelayed on }

/-! ## Trimming -/

namespace Value

mutual

/-- Whether the text of the value ends in a blank. -/
def endsBlank : Value → Bool
  | .string s => Text.endsBlank s.text
  | .template t => fragmentsEndBlank t.fragments
  | _ => false
  termination_by structural v => v

/-- Whether the last piece ends in a blank. -/
def fragmentsEndBlank : List (Fragment Value) → Bool
  | [] => false
  | [.text s] => Text.endsBlank s
  | [.hole v] => endsBlank v
  | _ :: f :: fs => fragmentsEndBlank (f :: fs)
  termination_by structural fs => fs

end

mutual

/-- The value without the blanks at the end of its text. -/
def trimEnd : Value → Value
  | .string s => .string s.trimEnd
  | .template t =>
    if fragmentsEndBlank t.fragments then
      .template { t with fragments := trimFragments t.fragments, memo := none }
    else .template t
  | v => v
  termination_by structural v => v

/-- The pieces with the last one trimmed. -/
def trimFragments : List (Fragment Value) → List (Fragment Value)
  | [] => []
  | [.text s] => [.text (Text.trimEnd s)]
  | [.hole v] => [.hole (trimEnd v)]
  | first :: f :: fs => first :: trimFragments (f :: fs)
  termination_by structural fs => fs

end

end Value

/-- The template without the blanks at its end. The digest is dropped if there are any. -/
def Template.trimEnd (t : Template Value) : Template Value :=
  if Value.fragmentsEndBlank t.fragments then
    { t with fragments := Value.trimFragments t.fragments, memo := none }
  else t

/-! ## Changes inside a list -/

namespace Value

/-- Changes the value at a path of list positions. The lists on the way are opened for change, so
they are not expanded any more. Where the path leaves the lists, nothing is changed there. -/
def updateAt (f : Value → Value) : List Nat → Value → Value
  | [], v => f v
  | i :: path, .list l => .list (l.modifyItems fun items => items.modify i (updateAt f path))
  | _ :: _, v => v

/-- The value at a path of list positions. -/
def at? : List Nat → Value → Option Value
  | [], v => some v
  | i :: path, .list l => l.items[i]?.bind (at? path)
  | _ :: _, _ => none

end Value

end Stylesheet
