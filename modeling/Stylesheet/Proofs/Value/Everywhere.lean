import Stylesheet.Proofs.Value.Node

/-!
# Changes at every depth

A change of one node is made at every depth of a value from the inside out (`Value.everywhere`): the
parts first, and then the topmost node (**`Value.everywhere_eq`**). A change that leaves the parts
of a node alone meets every node once (`Value.parts_everywhere`), and what it does not touch holds
at every depth of both values or of neither (`Value.each_everywhere_iff`).
-/

namespace Stylesheet.Value

mutual

/-- The value with `f` applied at every depth, from the inside out. -/
def everywhere (f : Value → Value) : Value → Value
  | .template t => f (.template { t with fragments := fragmentsEverywhere f t.fragments })
  | .list l =>
    f (.list { l with
      items := itemsEverywhere f l.items, keywords := keywordsEverywhere f l.keywords })
  | .map m =>
    f (.map { m with
      entries := entriesEverywhere f m.entries
      duplicate? := optionEverywhere f m.duplicate? })
  | .call c => f (.call { c with arguments := argumentsEverywhere f c.arguments })
  | .operation e =>
    f (.operation { e with left := everywhere f e.left, right := everywhere f e.right })
  | v => f v
  termination_by structural v => v

/-- Items with `f` applied at every depth. -/
def itemsEverywhere (f : Value → Value) : List Value → List Value
  | [] => []
  | v :: vs => everywhere f v :: itemsEverywhere f vs
  termination_by structural vs => vs

/-- A value with `f` applied at every depth, if there is one. -/
def optionEverywhere (f : Value → Value) : Option Value → Option Value
  | none => none
  | some v => some (everywhere f v)
  termination_by structural v => v

/-- Pieces of a template with `f` applied at every depth. -/
def fragmentsEverywhere (f : Value → Value) : List (Fragment Value) → List (Fragment Value)
  | [] => []
  | .text s :: fs => .text s :: fragmentsEverywhere f fs
  | .hole v :: fs => .hole (everywhere f v) :: fragmentsEverywhere f fs
  termination_by structural fs => fs

/-- Arguments with `f` applied at every depth. -/
def argumentsEverywhere (f : Value → Value) : List (Argument Value) → List (Argument Value)
  | [] => []
  | a :: as => { a with value := everywhere f a.value } :: argumentsEverywhere f as
  termination_by structural as => as

/-- Keywords with `f` applied at every depth. -/
def keywordsEverywhere (f : Value → Value) : List (String × Value) → List (String × Value)
  | [] => []
  | (name, v) :: ks => (name, everywhere f v) :: keywordsEverywhere f ks
  termination_by structural ks => ks

/-- Pairs with `f` applied at every depth. -/
def entriesEverywhere (f : Value → Value) : List (Value × Value) → List (Value × Value)
  | [] => []
  | (key, v) :: es => (everywhere f key, everywhere f v) :: entriesEverywhere f es
  termination_by structural es => es

end

variable {f : Value → Value}

theorem itemsEverywhere_eq (vs : List Value) : itemsEverywhere f vs = vs.map (everywhere f) := by
  induction vs with
  | nil => rfl
  | cons v vs ih => exact congrArg (everywhere f v :: ·) ih

theorem optionEverywhere_eq (v : Option Value) : optionEverywhere f v = v.map (everywhere f) := by
  cases v <;> rfl

theorem fragmentsEverywhere_eq (fs : List (Fragment Value)) :
    fragmentsEverywhere f fs = fs.map (Fragment.map (everywhere f)) := by
  induction fs with
  | nil => rfl
  | cons p fs ih =>
    rw [List.map_cons, ← ih]
    cases p <;> rfl

theorem argumentsEverywhere_eq (as : List (Argument Value)) :
    argumentsEverywhere f as = as.map (Argument.map (everywhere f)) := by
  induction as with
  | nil => rfl
  | cons a as ih => exact congrArg (a.map (everywhere f) :: ·) ih

theorem keywordsEverywhere_eq (ks : List (String × Value)) :
    keywordsEverywhere f ks = ks.map (Prod.map id (everywhere f)) := by
  induction ks with
  | nil => rfl
  | cons e ks ih => exact congrArg ((e.1, everywhere f e.2) :: ·) ih

theorem entriesEverywhere_eq (es : List (Value × Value)) :
    entriesEverywhere f es = es.map (Prod.map (everywhere f) (everywhere f)) := by
  induction es with
  | nil => rfl
  | cons e es ih => exact congrArg ((everywhere f e.1, everywhere f e.2) :: ·) ih

/-- **A change at every depth** is one of the parts, and then of the value itself. -/
theorem everywhere_eq (f : Value → Value) (v : Value) :
    v.everywhere f = f (v.mapParts (everywhere f)) := by
  cases v with
  | template t =>
    rw [everywhere, fragmentsEverywhere_eq]
    rfl
  | list l =>
    rw [everywhere, itemsEverywhere_eq, keywordsEverywhere_eq]
    rfl
  | map m =>
    rw [everywhere, entriesEverywhere_eq, optionEverywhere_eq]
    rfl
  | call c =>
    rw [everywhere, argumentsEverywhere_eq]
    rfl
  | _ => rfl

variable (hparts : ∀ v, (f v).parts = v.parts)

include hparts

/-- The parts of a value that is changed at every depth. -/
theorem parts_everywhere (v : Value) : (v.everywhere f).parts = v.parts.map (everywhere f) := by
  rw [everywhere_eq, hparts, parts, node_mapParts, Node.parts_mapParts]
  rfl

theorem each_everywhere_iff {P Q : Value → Prop} (hPQ : ∀ v, P (v.everywhere f) ↔ Q v) {v : Value} :
    (v.everywhere f).Each P ↔ v.Each Q := by
  induction v using Value.induction with
  | step v ih =>
    have hmap := v.parts_everywhere hparts
    constructor
    · intro h
      refine .intro ((hPQ v).1 h.here) fun x hx => (ih x hx).1 (h.part _ ?_)
      exact hmap ▸ List.mem_map_of_mem hx
    · intro h
      refine .intro ((hPQ v).2 h.here) fun y hy => ?_
      obtain ⟨x, hx, rfl⟩ := List.mem_map.1 (hmap ▸ hy)
      exact (ih x hx).2 (h.part x hx)

end Stylesheet.Value
