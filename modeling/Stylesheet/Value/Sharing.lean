import Stylesheet.Value.Basic

/-!
# Shared colours

One colour can be held in several places: by variables, by the items of lists, by the keys of maps.
All its holders see the form that was derived when any of them was asked for it. Holders of one
colour are known by the number of its cell; a colour in cell 0 has one holder only.

* `Value.share` gives every colour that is in no cell yet a cell of its own.
* `Value.rememberRgb` and `Value.rememberHsl` derive the forms of the colours in given cells, which
  is how a form that was derived in one place becomes known in another.
-/

namespace Stylesheet.Value

mutual

/-- Changes every colour in a value, from the left. -/
def mapColors {σ : Type} (f : Color → StateM σ Color) : Value → StateM σ Value
  | .color c => do return .color (← f c)
  | .template t => do
    let fragments ← mapColorsFragments f t.fragments
    return .template { t with fragments }
  | .list l => do
    let items ← mapColorsItems f l.items
    let keywords ← mapColorsKeywords f l.keywords
    return .list { l with items, keywords }
  | .map m => do
    let entries ← mapColorsEntries f m.entries
    let duplicate? ← mapColorsOption f m.duplicate?
    return .map { m with entries, duplicate? }
  | .call c => do
    let arguments ← mapColorsArguments f c.arguments
    return .call { c with arguments }
  | .operation e => do
    let left ← mapColors f e.left
    let right ← mapColors f e.right
    return .operation { e with left, right }
  | v => return v
  termination_by structural v => v

/-- Changes the colours in a list of values. -/
def mapColorsItems {σ : Type} (f : Color → StateM σ Color) : List Value → StateM σ (List Value)
  | [] => return []
  | v :: vs => do return (← mapColors f v) :: (← mapColorsItems f vs)
  termination_by structural vs => vs

/-- Changes the colours in a value that may be missing. -/
def mapColorsOption {σ : Type} (f : Color → StateM σ Color) :
    Option Value → StateM σ (Option Value)
  | none => return none
  | some v => do return some (← mapColors f v)
  termination_by structural v => v

/-- Changes the colours in the holes of a template. -/
def mapColorsFragments {σ : Type} (f : Color → StateM σ Color) :
    List (Fragment Value) → StateM σ (List (Fragment Value))
  | [] => return []
  | .text s :: fs => do return .text s :: (← mapColorsFragments f fs)
  | .hole v :: fs => do return .hole (← mapColors f v) :: (← mapColorsFragments f fs)
  termination_by structural fs => fs

/-- Changes the colours in the arguments of a call. -/
def mapColorsArguments {σ : Type} (f : Color → StateM σ Color) :
    List (Argument Value) → StateM σ (List (Argument Value))
  | [] => return []
  | a :: as => do
    let value ← mapColors f a.value
    return { a with value } :: (← mapColorsArguments f as)
  termination_by structural as => as

/-- Changes the colours in keywords. -/
def mapColorsKeywords {σ : Type} (f : Color → StateM σ Color) :
    List (String × Value) → StateM σ (List (String × Value))
  | [] => return []
  | (name, v) :: ks => do return (name, ← mapColors f v) :: (← mapColorsKeywords f ks)
  termination_by structural ks => ks

/-- Changes the colours in pairs. -/
def mapColorsEntries {σ : Type} (f : Color → StateM σ Color) :
    List (Value × Value) → StateM σ (List (Value × Value))
  | [] => return []
  | (key, v) :: es => do
    return (← mapColors f key, ← mapColors f v) :: (← mapColorsEntries f es)
  termination_by structural es => es

end

/-- The value with every colour in a cell, and the number of the next cell. Cells from `next` on
are free. -/
def share (v : Value) (next : Nat) : Value × Nat :=
  (v.mapColors fun c next => if c.cell = 0 then (c.withCell next, next + 1) else (c, next)).run next

/-- The value with the colours in the given cells changed. -/
def inCells (f : Color → Color) (cells : List Nat) (v : Value) : Value :=
  if cells.isEmpty then v
  else ((v.mapColors fun c u => (if cells.contains c.cell then f c else c, u)).run ()).1

/-- The value with the colours in the given cells keeping their red, green and blue. -/
def rememberRgb (cells : List Nat) (v : Value) : Value := v.inCells Color.rememberRgb cells

/-- The value with the colours in the given cells keeping their hue, saturation and lightness. -/
def rememberHsl (cells : List Nat) (v : Value) : Value := v.inCells Color.rememberHsl cells

end Stylesheet.Value
