import Stylesheet.Reduction

/-!
# Where forms are derived

A colour that was written in hue, saturation and lightness derives its red, green and blue when
they are first asked for, and keeps them with the spelling of that moment. Comparison, digests,
text and arithmetic ask for them. This module says which colours an operation asks, by their
cells, so that whoever holds colours in several places can keep what was derived.

An operation that stops early does not ask what comes after: a comparison stops at the first
difference, an evaluation at the first error. One colour compared with itself is not asked, a
single key is compared instead of digested, and no key is looked for in an empty map.
-/

namespace Stylesheet

variable [Hasher]

namespace Color

/-- The cell of a colour that has to derive its red, green and blue. -/
def rgbCells : Color → List Nat
  | .rgb _ => []
  | .hsl c => if c.cell = 0 then [] else [c.cell]

/-- The cells asked by writing a colour. A spelling is written without asking. -/
def textCells (f : Format) (c : Color) : List Nat :=
  if c.spelling.isEmpty || f.compressed then c.rgbCells else []

/-- The cells asked by comparing two colours. -/
def equalCells (a b : Color) : List Nat :=
  if a.cell ≠ 0 ∧ a.cell = b.cell then [] else a.rgbCells ++ b.rgbCells

end Color

namespace Value

/-! ## Text and digests -/

mutual

/-- The cells of the colours in a value, as `ask` takes them, with or without those in keywords. -/
def cells (ask : Color → List Nat) (inKeywords : Bool) : Value → List Nat
  | .color c => ask c
  | .template t => fragmentCells ask inKeywords t.fragments
  | .list l =>
    itemCells ask inKeywords l.items ++
      if inKeywords then keywordCells ask inKeywords l.keywords else []
  | .map m => entryCells ask inKeywords m.entries
  | .call c => argumentCells ask inKeywords c.arguments
  | .operation e => cells ask inKeywords e.left ++ cells ask inKeywords e.right
  | _ => []
  termination_by structural v => v

/-- The cells of the colours in a list of values. -/
def itemCells (ask : Color → List Nat) (inKeywords : Bool) : List Value → List Nat
  | [] => []
  | v :: vs => cells ask inKeywords v ++ itemCells ask inKeywords vs
  termination_by structural vs => vs

/-- The cells of the colours in the holes of a template. -/
def fragmentCells (ask : Color → List Nat) (inKeywords : Bool) : List (Fragment Value) → List Nat
  | [] => []
  | .text _ :: fs => fragmentCells ask inKeywords fs
  | .hole v :: fs => cells ask inKeywords v ++ fragmentCells ask inKeywords fs
  termination_by structural fs => fs

/-- The cells of the colours in keywords. -/
def keywordCells (ask : Color → List Nat) (inKeywords : Bool) : List (String × Value) → List Nat
  | [] => []
  | (_, v) :: ks => cells ask inKeywords v ++ keywordCells ask inKeywords ks
  termination_by structural ks => ks

/-- The cells of the colours in pairs. -/
def entryCells (ask : Color → List Nat) (inKeywords : Bool) : List (Value × Value) → List Nat
  | [] => []
  | (key, v) :: es =>
    cells ask inKeywords key ++ cells ask inKeywords v ++ entryCells ask inKeywords es
  termination_by structural es => es

/-- The cells of the colours in arguments. -/
def argumentCells (ask : Color → List Nat) (inKeywords : Bool) : List (Argument Value) → List Nat
  | [] => []
  | a :: as => cells ask inKeywords a.value ++ argumentCells ask inKeywords as
  termination_by structural as => as

end

/-- The cells asked by writing a value, as CSS or in an inspection. -/
def textCells (f : Format) (v : Value) : List Nat := v.cells (·.textCells f) false

/-- The cells asked by digesting a value. -/
def digestCells (v : Value) : List Nat := v.cells Color.rgbCells true

/-- The cells asked by interpolating a value. -/
def interpolatedCells (v : Value) : List Nat := v.textCells {}

/-! ## Comparison -/

mutual

/-- The cells asked by comparing two values. -/
def equalCells : Value → Value → List Nat
  | .color a, .color b => a.equalCells b
  | .template a, .template b =>
    if a.fragments.length = b.fragments.length then equalFragmentCells a.fragments b.fragments
    else []
  | .list a, .list b =>
    if a.separator == b.separator && a.bracketed == b.bracketed && a.arglist == b.arglist &&
        a.items.length == b.items.length then
      equalItemCells a.items b.items ++
        if a.arglist && beqItems a.items b.items && a.keywords.length == b.keywords.length then
          equalKeywordCells a.keywords b.keywords
        else []
    else []
  | .map a, .map b =>
    if a.entries.length = b.entries.length then equalEntryCells a.entries b.entries else []
  | .call a, .call b =>
    if a.name == b.name && a.callee.beq b.callee &&
        a.arguments.length == b.arguments.length then
      equalArgumentCells a.arguments b.arguments
    else []
  | .operation a, .operation b =>
    if a.operand.op = b.operand.op then
      equalCells a.left b.left ++ if a.left.beq b.left then equalCells a.right b.right else []
    else []
  | _, _ => []
  termination_by structural a => a

/-- The cells asked by comparing items from the left, up to the first difference. -/
def equalItemCells : List Value → List Value → List Nat
  | a :: as, b :: bs => equalCells a b ++ if a.beq b then equalItemCells as bs else []
  | _, _ => []
  termination_by structural as => as

/-- The cells asked by comparing the pieces of two templates. -/
def equalFragmentCells : List (Fragment Value) → List (Fragment Value) → List Nat
  | .text a :: as, .text b :: bs => if a = b then equalFragmentCells as bs else []
  | .hole a :: as, .hole b :: bs =>
    equalCells a b ++ if a.beq b then equalFragmentCells as bs else []
  | _, _ => []
  termination_by structural as => as

/-- The cells asked by comparing the arguments of two calls. The marks and the name of an argument
are compared before its value. -/
def equalArgumentCells : List (Argument Value) → List (Argument Value) → List Nat
  | a :: as, b :: bs =>
    if a.rest == b.rest && a.keywordRest == b.keywordRest && a.name? == b.name? then
      equalCells a.value b.value ++ if a.value.beq b.value then equalArgumentCells as bs else []
    else []
  | _, _ => []
  termination_by structural as => as

/-- The cells asked by looking for the keywords of one list in another. -/
def equalKeywordCells : List (String × Value) → List (String × Value) → List Nat
  | (name, a) :: as, bs =>
    match Entries.find? (· == name) bs with
    | some b => equalCells a b ++ if a.beq b then equalKeywordCells as bs else []
    | none => []
  | [], _ => []
  termination_by structural as => as

/-- The cells asked by looking for the pairs of one map in another. -/
def equalEntryCells : List (Value × Value) → List (Value × Value) → List Nat
  | (key, a) :: as, bs =>
    (match bs with
      | [] => []
      | [(other, _)] => equalCells key other
      | _ => key.digestCells) ++
      match Entries.find? (fun other => key.meets other) bs with
      | some b => equalCells a b ++ if a.beq b then equalEntryCells as bs else []
      | none => []
  | [], _ => []
  termination_by structural as => as

end

end Value

/-- The cells asked by looking for a key. -/
def MapOf.getCells (m : MapOf Value) (key : Value) : List Nat :=
  match m.entries with
  | [] => []
  | [(other, _)] => key.equalCells other
  | _ => key.digestCells

/-! ## Operations -/

/-- The cells asked by the message of an operation that has no result. -/
def undefinedCells (left right : Value) : List Nat := left.textCells {} ++ right.textCells {}

namespace Arithmetic

/-- The cells asked by an operator on values that have only their text. -/
def otherCells (op : Arithmetic) (left right : Value) : List Nat :=
  if rejects left || rejects right then []
  else
    match op with
    | .add | .sub | .div => left.interpolatedCells ++ right.interpolatedCells
    | _ => undefinedCells left right

/-- The cells asked by an operator on two values. -/
def cells (op : Arithmetic) (left right : Value) : List Nat :=
  match left, right with
  | .number _, .number _ => []
  | .color a, .color b => a.rgbCells ++ b.rgbCells
  | .color c, .number n =>
    if op.divides && n.value.isZero then undefinedCells left right else c.rgbCells
  | .number _, .color c =>
    if op = .add ∨ op = .mul then c.rgbCells else op.otherCells left right
  | left, right => op.otherCells left right

end Arithmetic

/-- The cells asked by an operator on two concrete values. -/
def Operand.cells (operand : Operand) (left right : Value) : List Nat :=
  match operand.op with
  | .and | .or => []
  | .eq | .ne => left.equalCells right
  | .gt | .ge | .lt | .le =>
    if left.number?.isSome && right.number?.isSome then [] else undefinedCells left right
  | .add => Arithmetic.add.cells left right
  | .sub => Arithmetic.sub.cells left right
  | .mul => Arithmetic.mul.cells left right
  | .div => Arithmetic.div.cells left right
  | .mod => Arithmetic.mod.cells left right

/-- The cells asked by an operation whose operands are evaluated. -/
def Operation.cells (e : Operation Value) (left right : Value) : List Nat :=
  if e.isInterpolated && !e.operand.op.isLogical then
    left.interpolatedCells ++ right.interpolatedCells
  else e.operand.cells left right

/-! ## Reduction -/

/-- The cells that functions ask, by their names and arguments. -/
structure CallCells where
  /-- The cells asked by a host function. -/
  host : String → List (Argument Value) → List Nat
  /-- The cells asked by the function that a name stands for. -/
  named : String → List (Argument Value) → List Nat

namespace Value

/-- The cells asked by a call whose arguments are reduced. -/
def finishCallCells (env : Environment) (calls : CallCells) (c : Call Value)
    (arguments : List (Argument Value)) : List Nat :=
  let text := argumentCells (·.textCells {}) false arguments
  match c.callee with
  | .native f => calls.host f.name arguments
  | callee =>
    if c.isCss then text
    else
      match env.call? c.name arguments c.span, callee with
      | some _, _ => calls.named c.name arguments
      | none, .named => text
      | none, _ => []

/-- The cells asked by a continuation, if there is a value to go on with. -/
def cellsOf {ε α : Type} (next : α → List Nat) : Except ε α → List Nat
  | .ok a => next a
  | .error _ => []

mutual

/-- The cells asked by evaluating a value. -/
def reduceCells (env : Environment) (calls : CallCells) : Value → List Nat
  | .operation e =>
    reduceCells env calls e.left ++
      cellsOf (fun left =>
        if e.operand.op.isDecidedBy left then []
        else
          reduceCells env calls e.right ++
            cellsOf (fun right => if isKeptSlash e left right then [] else e.cells left right)
              (reduce env e.right))
        (reduce env e.left)
  | .template t => reduceFragmentCells env calls t.fragments
  | .call c =>
    reduceArgumentCells env calls c.arguments ++
      cellsOf (finishCallCells env calls c) (reduceArguments env c.arguments)
  | .list l =>
    reduceItemCells env calls l.items ++
      if l.arglist then
        cellsOf (fun _ => reduceKeywordCells env calls l.keywords) (reduceItems env l.items)
      else []
  | .map m =>
    reduceEntryCells env calls m.entries ++
      cellsOf (fun pairs =>
        match m.duplicate?.or (MapOf.ofPairs m.span pairs).duplicate? with
        | some key => key.textCells {}
        | none => [])
        (reduceEntries env m.entries)
  | _ => []
  termination_by structural v => v

/-- The cells asked by evaluating the items of a list, up to the first error. -/
def reduceItemCells (env : Environment) (calls : CallCells) : List Value → List Nat
  | [] => []
  | v :: vs =>
    reduceCells env calls v ++ cellsOf (fun _ => reduceItemCells env calls vs) (reduce env v)
  termination_by structural vs => vs

/-- The cells asked by evaluating and joining the pieces of a template. -/
def reduceFragmentCells (env : Environment) (calls : CallCells) :
    List (Fragment Value) → List Nat
  | [] => []
  | .text _ :: fs => reduceFragmentCells env calls fs
  | .hole v :: fs =>
    reduceCells env calls v ++
      cellsOf (fun value => value.interpolatedCells ++ reduceFragmentCells env calls fs)
        (reduce env v)
  termination_by structural fs => fs

/-- The cells asked by evaluating arguments. -/
def reduceArgumentCells (env : Environment) (calls : CallCells) :
    List (Argument Value) → List Nat
  | [] => []
  | a :: as =>
    reduceCells env calls a.value ++
      cellsOf (fun _ => reduceArgumentCells env calls as) (reduce env a.value)
  termination_by structural as => as

/-- The cells asked by evaluating keywords. -/
def reduceKeywordCells (env : Environment) (calls : CallCells) :
    List (String × Value) → List Nat
  | [] => []
  | (_, v) :: ks =>
    reduceCells env calls v ++ cellsOf (fun _ => reduceKeywordCells env calls ks) (reduce env v)
  termination_by structural ks => ks

/-- The cells asked by evaluating pairs and digesting their keys. -/
def reduceEntryCells (env : Environment) (calls : CallCells) :
    List (Value × Value) → List Nat
  | [] => []
  | (k, v) :: es =>
    reduceCells env calls k ++
      cellsOf (fun key =>
        reduceCells env calls v ++
          cellsOf (fun _ => key.digestCells ++ reduceEntryCells env calls es) (reduce env v))
        (reduce env k)
  termination_by structural es => es

end

end Value

end Stylesheet
