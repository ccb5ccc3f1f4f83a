import Stylesheet.Value.Query

/-!
# Values as text

Two texts of a value. **CSS (`Value.cssWith`)** is what a stylesheet prints: strings keep their
quotes and colours their spelling, and the invisible items of a list leave no trace in it.
**Inspection (`Value.inspect`)** is for messages: strings are always in quotes, and an empty list
and `null` are spelled out.

The items of a list stand in parentheses where the text would otherwise be ambiguous: a list of two
items or more without brackets, inside a list with spaces or with commas of its own.
-/

namespace Stylesheet

/-- How output is written. -/
structure Format where
  /-- Least white space, shortest colours, no leading zeros. -/
  compressed : Bool := false
  /-- The most decimals of a number. -/
  precision : Nat := Double.precision
  deriving DecidableEq, Inhabited

/-! ## Colours -/

namespace Color

/-- A byte in two hexadecimal digits. -/
def hexByte (n : Nat) : String :=
  String.ofList [Nat.digitChar (n / 16), Nat.digitChar (n % 16)]

/-- A colour in hexadecimal digits, or as a function of its channels where it is not opaque. -/
def channelText (f : Format) (c : Rgb Double) : String :=
  let channels := roundedChannels c
  if Double.le 1 c.alpha then
    if f.compressed && isShort c then
      "#" ++ String.ofList (channels.map fun n => Nat.digitChar (n / 16))
    else "#" ++ String.join (channels.map hexByte)
  else
    let alpha := c.alpha.decimalText f.precision (!f.compressed)
    "rgba(" ++ (if f.compressed then "," else ", ").intercalate (channels.map toString ++ [alpha])
      ++ ")"

/-- A colour as it was spelled, or by its channels where it has no spelling or output is
compressed. -/
def css (f : Format) (c : Color) : String :=
  if c.spelling.isEmpty || f.compressed then channelText f c.rgbForm.channels else c.spelling

end Color

/-! ## Values -/

namespace StringValue

/-- The text of a string in CSS or in an inspection. -/
def render (f : Format) (inspecting : Bool) (s : StringValue) : String :=
  if inspecting then s.inspect
  else if f.compressed && s.compressible then Text.collapse s.css
  else s.css

end StringValue

namespace ListOf

/-- Whether the list stands in parentheses as an item of a list with the given separator. -/
def needsParens (l : ListOf Value) (outer : Separator) : Bool :=
  !l.bracketed && decide (1 < l.items.length) && (l.separator == .comma || outer == .space)

/-- The text of a list from the texts of its items. In an inspection the comma of a single item is
written. -/
def assemble (f : Format) (inspecting : Bool) (l : ListOf Value) (texts : List String) : String :=
  let lone := inspecting && l.separator == .comma && texts.length == 1
  let body := (l.separator.text f.compressed).intercalate texts ++ (if lone then "," else "")
  if l.items.isEmpty then
    if l.bracketed then "[]" else if inspecting then "()" else ""
  else if l.bracketed then "[" ++ body ++ "]"
  else if lone then "(" ++ body ++ ")"
  else body

end ListOf

namespace Template

/-- The text of a template from the text of its pieces. -/
def assemble (t : Template Value) (text : String) : String :=
  match t.quote? with
  | some mark => Text.quote text (some mark)
  | none => text

end Template

namespace Value

/-- An item of a list, in parentheses where it needs them. -/
def enclose (outer : Separator) (item : Value) (text : String) : String :=
  match item with
  | .list l => if l.needsParens outer then "(" ++ text ++ ")" else text
  | _ => text

mutual

/-- The text of a value, as CSS or in an inspection. -/
def render (f : Format) (inspecting : Bool) : Value → String
  | .number n => n.format f.precision (n.leadingZero && !f.compressed)
  | .color c => c.css f
  | .string s => s.render f inspecting
  | .template t => t.assemble (renderFragments f t.fragments)
  | .list l => l.assemble f inspecting (renderItems f inspecting l.separator l.items)
  | .map m =>
    if m.entries.isEmpty then if inspecting then "()" else ""
    else
      "(" ++ (Separator.comma.text f.compressed).intercalate (renderEntries f inspecting m.entries)
        ++ ")"
  | .bool value _ => if value then "true" else "false"
  | .null _ => if inspecting then "null" else ""
  | .parent _ => "&"
  | .function g => "get-function(" ++ Text.quote g.name none ++ ")"
  | .call c =>
    c.name ++ "(" ++
      (Separator.comma.text f.compressed).intercalate (renderArguments f inspecting c.arguments)
      ++ ")"
  | .variable v => "$" ++ v.name
  | .operation e =>
    render f inspecting e.left ++ e.operand.separator ++ render f inspecting e.right
  | .diagnostic d => d.message
  termination_by structural v => v

/-- The pieces of a template in a row. A string is spliced in without its quotes, and every other
value as CSS. -/
def renderFragments (f : Format) : List (Fragment Value) → String
  | [] => ""
  | .text s :: fs => s ++ renderFragments f fs
  | .hole v :: fs =>
    (match v with
      | .string s => s.text
      | _ => render f false v) ++ renderFragments f fs
  termination_by structural fs => fs

/-- The texts of the items that are printed, each in parentheses where it needs them. -/
def renderItems (f : Format) (inspecting : Bool) (separator : Separator) :
    List Value → List String
  | [] => []
  | v :: vs =>
    if inspecting || !v.isInvisible then
      enclose separator v (render f inspecting v) :: renderItems f inspecting separator vs
    else renderItems f inspecting separator vs
  termination_by structural vs => vs

/-- The texts of pairs, each a key and its value. -/
def renderEntries (f : Format) (inspecting : Bool) : List (Value × Value) → List String
  | [] => []
  | (key, v) :: es =>
    (enclose .comma key (render f inspecting key) ++ (if f.compressed then ":" else ": ") ++
      enclose .comma v (render f inspecting v)) :: renderEntries f inspecting es
  termination_by structural es => es

/-- The texts of arguments, with their names and dots. -/
def renderArguments (f : Format) (inspecting : Bool) : List (Argument Value) → List String
  | [] => []
  | a :: as =>
    ((match a.name? with
        | some name => "$" ++ name ++ ": "
        | none => "") ++
      render f inspecting a.value ++ (if a.rest || a.keywordRest then "..." else "")) ::
        renderArguments f inspecting as
  termination_by structural as => as

end

/-- The texts of items are those of the items that are printed, in their order. -/
theorem renderItems_eq_map (f : Format) (inspecting : Bool) (separator : Separator)
    (vs : List Value) :
    renderItems f inspecting separator vs =
      (vs.filter fun v => inspecting || !v.isInvisible).map fun v =>
        enclose separator v (render f inspecting v) := by
  induction vs with
  | nil => rfl
  | cons v vs ih =>
    rw [renderItems, List.filter_cons, ih]
    split <;> rfl

/-- The value as CSS. -/
def cssWith (f : Format) (v : Value) : String := render f false v

/-- The value as expanded CSS. -/
def css (v : Value) : String := cssWith {} v

/-- The value as messages show it. -/
def inspect (v : Value) : String := render {} true v

/-- What the value adds to an interpolation: a string without its quotes, or else CSS. -/
def interpolated (v : Value) : String :=
  match v with
  | .string s => s.text
  | v => v.css

/-- The order of two strings, quoted or with interpolations, by their CSS. -/
def compareCss? (a b : Value) : Option Ordering :=
  match a, b with
  | .string _, .string _ | .string _, .template _ | .template _, .string _
  | .template _, .template _ => some (compare a.css b.css)
  | _, _ => none

end Value

end Stylesheet
