import Stylesheet.Color.Basic
import Stylesheet.Entries
import Stylesheet.Number
import Stylesheet.Value.StringValue

/-!
# Values

A value of the expression language is concrete (a number, colour, string, list, map, truth value,
null, function or parent selector), or pending (a template with interpolations, a call, a variable,
an operation), or a diagnostic that a host function returned instead of a result.

The compound kinds are structures over the type of what they contain (`ListOf`, `MapOf`, …), so
that each can be spoken of by itself; `Value` closes the knot. Flags, spans and quote marks travel
with a value and take no part in its equality.
-/

namespace Stylesheet

/-! ## Templates -/

/-- A piece of a template: text, or a hole for an interpolated value. -/
inductive Fragment (α : Type) where
  | text (text : String)
  | hole (value : α)
  deriving Inhabited

/-- A string with interpolations, as in `"a#{$b}c"`. -/
structure Template (α : Type) where
  fragments : List (Fragment α)
  quote? : Option Char := none
  delayed : Bool := false
  span : Span
  memo : Memo := none

/-! ## Lists and maps -/

/-- What stands between the items of a list. -/
inductive Separator where
  | space
  | comma
  deriving DecidableEq, Inhabited

/-- A sequence of items. An argument list also holds keyword arguments, in the order of the
call. -/
structure ListOf (α : Type) where
  items : List α
  separator : Separator := .space
  bracketed : Bool := false
  arglist : Bool := false
  keywords : List (String × α) := []
  /-- Whether the items have been spliced into a call. -/
  expanded : Bool := false
  delayed : Bool := false
  span : Span
  memo : Memo := none

/-- Pairs of a key and a value, in the order in which the keys were first put. -/
structure MapOf (α : Type) where
  entries : List (α × α) := []
  /-- The first key that was put when an equal one was there. -/
  duplicate? : Option α := none
  expanded : Bool := false
  span : Span
  memo : Memo := none

/-! ## Functions and calls -/

/-- The definition of a function. Two definitions are the same only if they are one, which the
number says: it stands for the address of the definition. -/
structure Signature where
  id : Nat
  name : String
  parameters : List String
  span : Span
  deriving DecidableEq

/-- A function as a value. -/
structure FunctionRef where
  signature : Signature
  /-- Whether this is a function of plain CSS. -/
  isCss : Bool
  span : Span

/-- A function of the host, known by its name and by which of the functions of that name it is. -/
structure Native where
  name : String
  which : Nat := 0
  deriving DecidableEq

/-- What a call calls. -/
inductive Callee where
  /-- The function that has the name of the call when it is evaluated. -/
  | named
  | function (f : FunctionRef)
  | native (f : Native)

/-- One argument of a call. -/
structure Argument (α : Type) where
  name? : Option String := none
  value : α
  rest : Bool := false
  keywordRest : Bool := false
  deriving Inhabited

/-- A call that has not been evaluated. -/
structure Call (α : Type) where
  name : String
  callee : Callee := .named
  arguments : List (Argument α)
  /-- Whether the call was made through a function value. -/
  viaCall : Bool := false
  span : Span
  memo : Memo := none

/-- The name of a variable, without the dollar sign. -/
structure Variable where
  name : String
  span : Span

/-- A binary operation that has not been evaluated. -/
structure Operation (α : Type) where
  operand : Operand
  left : α
  right : α
  /-- Whether the whole operation was written inside an interpolation. -/
  interpolant : Bool := false
  delayed : Bool := false
  span : Span
  memo : Memo := none

/-- How grave a diagnostic is. -/
inductive Severity where
  | error
  | warning
  deriving DecidableEq, Inhabited

/-- What a host function reports instead of a result. -/
structure Diagnostic where
  severity : Severity
  message : String
  span : Span

/-! ## Values -/

/-- A value, concrete or pending. -/
inductive Value where
  | number (n : Number)
  | color (c : Color)
  | string (s : StringValue)
  | template (t : Template Value)
  | list (l : ListOf Value)
  | map (m : MapOf Value)
  | bool (value : Bool) (span : Span)
  | null (span : Span)
  | parent (span : Span)
  | function (f : FunctionRef)
  | call (c : Call Value)
  | variable (v : Variable)
  | operation (e : Operation Value)
  | diagnostic (d : Diagnostic)

instance : Inhabited Value := ⟨.null .nowhere⟩

/-- The kind of a value. -/
inductive Kind where
  | number
  | color
  | string
  | template
  | list
  | map
  | bool
  | null
  | parent
  | function
  | call
  | variable
  | operation
  | error
  | warning
  deriving DecidableEq

namespace Value

/-- The kind of a value. Errors and warnings are of two kinds. -/
def kind : Value → Kind
  | .number _ => .number
  | .color _ => .color
  | .string _ => .string
  | .template _ => .template
  | .list _ => .list
  | .map _ => .map
  | .bool _ _ => .bool
  | .null _ => .null
  | .parent _ => .parent
  | .function _ => .function
  | .call _ => .call
  | .variable _ => .variable
  | .operation _ => .operation
  | .diagnostic d =>
    match d.severity with
    | .error => .error
    | .warning => .warning

/-- Where the value was written. -/
def span : Value → Span
  | .number n => n.span
  | .color c => c.span
  | .string s => s.span
  | .template t => t.span
  | .list l => l.span
  | .map m => m.span
  | .bool _ span => span
  | .null span => span
  | .parent span => span
  | .function f => f.span
  | .call c => c.span
  | .variable v => v.span
  | .operation e => e.span
  | .diagnostic d => d.span

/-! ## Making -/

/-- A string without quotes. -/
def text (span : Span) (text : String) : Value := .string (.plain span text)

/-- A string that prints with the given mark, or without one. -/
def quoted (span : Span) (text : String) (mark? : Option Char) : Value :=
  .string { text, quote? := mark?, span }

/-- A list with spaces between its items. -/
def spaceList (span : Span) (items : List Value) : Value := .list { items, span }

/-- A list with commas between its items. -/
def commaList (span : Span) (items : List Value) : Value :=
  .list { items, separator := .comma, span }

/-! ## Parts -/

/-- The number, if the value is one. -/
def number? : Value → Option Number
  | .number n => some n
  | _ => none

/-- The string, if the value is one. -/
def string? : Value → Option StringValue
  | .string s => some s
  | _ => none

end Value

namespace Separator

/-- The text between two items. -/
def text (s : Separator) (compressed : Bool) : String :=
  match s, compressed with
  | .space, _ => " "
  | .comma, false => ", "
  | .comma, true => ","

/-- The name of the separator. -/
def name : Separator → String
  | .space => "space"
  | .comma => "comma"

end Separator

namespace FunctionRef

/-- The name of the definition. -/
def name (f : FunctionRef) : String := f.signature.name

/-- Functions are the same when they have one definition. -/
def beq (f g : FunctionRef) : Bool := f.signature == g.signature && f.isCss == g.isCss

end FunctionRef

namespace Callee

/-- Whether two calls call the same function. -/
def beq : Callee → Callee → Bool
  | .named, .named => true
  | .function f, .function g => f.beq g
  | .native f, .native g => f == g
  | _, _ => false

end Callee

namespace Diagnostic

/-- Whether two diagnostics say the same. -/
def beq (a b : Diagnostic) : Bool := a.severity == b.severity && a.message == b.message

end Diagnostic

namespace Call

variable {α : Type}

/-- A call of a function value, under the name of its definition. -/
def ofFunction (span : Span) (f : FunctionRef) (arguments : List (Argument α)) : Call α :=
  { name := f.name, callee := .function f, arguments, span }

/-- A call of a host function, under its name. -/
def ofNative (span : Span) (f : Native) (arguments : List (Argument α)) : Call α :=
  { name := f.name, callee := .native f, arguments, span }

/-- Whether a function of plain CSS is called. -/
def isCss (c : Call α) : Bool :=
  match c.callee with
  | .function f => f.isCss
  | _ => false

end Call

end Stylesheet
