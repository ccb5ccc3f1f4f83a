import Stylesheet.Proofs.Equality.Exchange
import Stylesheet.Proofs.Value.Node

/-!
# Equality layer by layer

Two layers are compared with a given comparison of their parts and a test for the keys of maps
(`Node.beqBy`), and equality of values is this comparison of the topmost layers, with itself for the
parts and `Value.meets` for the keys (**`Value.beq_eq_beqBy_node`**). What is proved of layers thus
holds of values by induction.

A layer without parts is known by what its comparison looks at (`Leaf`): two such layers are equal
when they are known by the same (`Node.beqBy_iff_leaf`). The other layers ask the comparison and the
test, and of nothing but their own parts (`Node.beqBy_congr`).
-/

namespace Stylesheet

variable {α β : Type}

/-! ## Lists of parts -/

theorem isEqv_congr {eq eq' : α → α → Bool} {as bs : List α}
    (h : ∀ a ∈ as, ∀ b ∈ bs, eq a b = eq' a b) : as.isEqv bs eq = as.isEqv bs eq' := by
  induction as generalizing bs with
  | nil => cases bs <;> rfl
  | cons a as ih =>
    cases bs with
    | nil => rfl
    | cons b bs =>
      show (eq a b && as.isEqv bs eq) = (eq' a b && as.isEqv bs eq')
      rw [h a List.mem_cons_self b List.mem_cons_self, ih fun x hx y hy =>
        h x (List.mem_cons_of_mem a hx) y (List.mem_cons_of_mem b hy)]

theorem isEqv_map (f : α → β) (eq : β → β → Bool) (as bs : List α) :
    (as.map f).isEqv (bs.map f) eq = as.isEqv bs fun x y => eq (f x) (f y) := by
  induction as generalizing bs with
  | nil => cases bs <;> rfl
  | cons a as ih =>
    cases bs with
    | nil => rfl
    | cons b bs => exact congrArg (eq (f a) (f b) && ·) (ih bs)

namespace Entries

variable {κ κ' : Type}

theorem find?_map (k : κ → κ') (f : α → β) (t : κ' → Bool) (bs : List (κ × α)) :
    find? t (bs.map (Prod.map k f)) = (find? (fun key => t (k key)) bs).map f := by
  unfold find?
  rw [List.find?_map, Option.map_map, Option.map_map]
  rfl

theorem beqBy_congr {test test' : κ → κ → Bool} {eq eq' : α → α → Bool} {as bs : List (κ × α)}
    (hkey : ∀ e ∈ as, ∀ f ∈ bs, test e.1 f.1 = test' e.1 f.1)
    (hval : ∀ e ∈ as, ∀ f ∈ bs, eq e.2 f.2 = eq' e.2 f.2) :
    beqBy test eq as bs = beqBy test' eq' as bs := by
  unfold beqBy
  congr 1
  rw [Bool.eq_iff_iff, List.all_eq_true, List.all_eq_true]
  refine forall₂_congr fun e he => ?_
  rw [find?_congr (hkey e he)]
  cases hfind : find? (test' e.1) bs with
  | none => rfl
  | some v =>
    obtain ⟨f, hf, -, rfl⟩ := mem_of_find?_eq_some hfind
    rw [Option.any_some, Option.any_some, hval e he f hf]

theorem beqBy_map (k : κ → κ') (f : α → β) (test : κ' → κ' → Bool) (eq : β → β → Bool)
    (as bs : List (κ × α)) :
    beqBy test eq (as.map (Prod.map k f)) (bs.map (Prod.map k f)) =
      beqBy (fun x y => test (k x) (k y)) (fun x y => eq (f x) (f y)) as bs := by
  unfold beqBy
  rw [List.length_map, List.length_map, List.all_map]
  congr 1
  refine List.all_congr rfl fun e => ?_
  show (find? (test (k e.1)) (bs.map (Prod.map k f))).any (eq (f e.2)) = _
  rw [find?_map, Option.any_map]

end Entries

/-! ## Compound layers -/

/-- Whether two pieces of templates are equal. -/
def Fragment.beqBy (eq : α → α → Bool) : Fragment α → Fragment α → Bool
  | .text a, .text b => a == b
  | .hole a, .hole b => eq a b
  | _, _ => false

/-- Whether two arguments are equal. -/
def Argument.beqBy (eq : α → α → Bool) (a b : Argument α) : Bool :=
  a.rest == b.rest && a.keywordRest == b.keywordRest && a.name? == b.name? && eq a.value b.value

/-- Whether two templates have equal pieces. -/
def Template.beqBy (eq : α → α → Bool) (a b : Template α) : Bool :=
  a.fragments.isEqv b.fragments (Fragment.beqBy eq)

/-- The test for a keyword among others. -/
def sameName (name other : String) : Bool := other == name

/-- Whether two lists are of one shape and have equal items and keywords. -/
def ListOf.beqBy (eq : α → α → Bool) (a b : ListOf α) : Bool :=
  (a.separator == b.separator && a.bracketed == b.bracketed && a.arglist == b.arglist) &&
    a.items.isEqv b.items eq && Entries.beqBy sameName eq a.countedKeywords b.countedKeywords

/-- Whether two maps have equal entries, the keys of which are found by `test`. -/
def MapOf.beqBy (test eq : α → α → Bool) (a b : MapOf α) : Bool :=
  Entries.beqBy test eq a.entries b.entries

/-- Whether two calls call one function with equal arguments. -/
def Call.beqBy (eq : α → α → Bool) (a b : Call α) : Bool :=
  (a.name == b.name && a.callee.beq b.callee) && a.arguments.isEqv b.arguments (Argument.beqBy eq)

/-- Whether two operations have one operator and equal operands. -/
def Operation.beqBy (eq : α → α → Bool) (a b : Operation α) : Bool :=
  a.operand.op == b.operand.op && eq a.left b.left && eq a.right b.right

/-- Whether two layers are equal, by a test for the keys of maps and a comparison of the parts. -/
def Node.beqBy (test eq : α → α → Bool) : Node α → Node α → Bool
  | .number a, .number b => a.beq b
  | .color a, .color b => a.beq b
  | .string a, .string b => a.beq b
  | .template a, .template b => a.beqBy eq b
  | .list a, .list b => a.beqBy eq b
  | .map a, .map b => a.beqBy test eq b
  | .bool a, .bool b => a == b
  | .null, .null => true
  | .parent, .parent => true
  | .function a, .function b => a.beq b
  | .call a, .call b => a.beqBy eq b
  | .variable a, .variable b => a.name == b.name
  | .operation a, .operation b => a.beqBy eq b
  | .diagnostic a, .diagnostic b => a.beq b
  | _, _ => false

/-! ## Only the parts are asked -/

section Congr

variable {test test' eq eq' : α → α → Bool}

theorem Template.beqBy_congr {t u : Template α}
    (h : ∀ x ∈ t.parts, ∀ y ∈ u.parts, eq x y = eq' x y) : t.beqBy eq u = t.beqBy eq' u := by
  refine isEqv_congr fun g hg g' hg' => ?_
  cases g with
  | text s => cases g' <;> rfl
  | hole v =>
    cases g' with
    | text s => rfl
    | hole w =>
      exact h v (mem_parts hg (Fragment.hole_mem_parts v)) w
        (mem_parts hg' (Fragment.hole_mem_parts w))

theorem ListOf.beqBy_congr {l k : ListOf α}
    (h : ∀ x ∈ l.parts, ∀ y ∈ k.parts, eq x y = eq' x y) : l.beqBy eq k = l.beqBy eq' k := by
  unfold ListOf.beqBy
  rw [isEqv_congr fun x hx y hy => h x (item_mem_parts hx) y (item_mem_parts hy),
    Entries.beqBy_congr (fun _ _ _ _ => rfl) fun e he f hf =>
      h e.2 (keyword_mem_parts he) f.2 (keyword_mem_parts hf)]

theorem MapOf.beqBy_congr {m k : MapOf α}
    (htest : ∀ x ∈ m.parts, ∀ y ∈ k.parts, test x y = test' x y)
    (h : ∀ x ∈ m.parts, ∀ y ∈ k.parts, eq x y = eq' x y) :
    m.beqBy test eq k = m.beqBy test' eq' k :=
  Entries.beqBy_congr
    (fun e he f hf => htest e.1 (key_mem_parts he) f.1 (key_mem_parts hf))
    fun e he f hf => h e.2 (value_mem_parts he) f.2 (value_mem_parts hf)

theorem Call.beqBy_congr {c d : Call α}
    (h : ∀ x ∈ c.parts, ∀ y ∈ d.parts, eq x y = eq' x y) : c.beqBy eq d = c.beqBy eq' d := by
  unfold Call.beqBy
  congr 1
  refine isEqv_congr fun a ha b hb => ?_
  unfold Argument.beqBy
  rw [h a.value (argument_mem_parts ha) b.value (argument_mem_parts hb)]

theorem Operation.beqBy_congr {e f : Operation α}
    (h : ∀ x ∈ e.parts, ∀ y ∈ f.parts, eq x y = eq' x y) : e.beqBy eq f = e.beqBy eq' f := by
  unfold Operation.beqBy
  rw [h e.left e.left_mem_parts f.left f.left_mem_parts,
    h e.right e.right_mem_parts f.right f.right_mem_parts]

/-- The comparison of layers asks their parts only. -/
theorem Node.beqBy_congr {n m : Node α}
    (htest : ∀ x ∈ n.parts, ∀ y ∈ m.parts, test x y = test' x y)
    (h : ∀ x ∈ n.parts, ∀ y ∈ m.parts, eq x y = eq' x y) :
    n.beqBy test eq m = n.beqBy test' eq' m := by
  cases n with
  | template t =>
    cases m with
    | template u => exact Template.beqBy_congr h
    | _ => rfl
  | list l =>
    cases m with
    | list k => exact ListOf.beqBy_congr h
    | _ => rfl
  | map k =>
    cases m with
    | map k' => exact MapOf.beqBy_congr htest h
    | _ => rfl
  | call c =>
    cases m with
    | call d => exact Call.beqBy_congr h
    | _ => rfl
  | operation e =>
    cases m with
    | operation f => exact Operation.beqBy_congr h
    | _ => rfl
  | _ => cases m <;> rfl

end Congr

/-! ## Layers with replaced parts -/

section Replaced

variable (f : α → β) (test eq : β → β → Bool)

theorem Template.beqBy_map (t u : Template α) :
    (t.map f).beqBy eq (u.map f) = t.beqBy (fun x y => eq (f x) (f y)) u := by
  refine (isEqv_map (Fragment.map f) (Fragment.beqBy eq) t.fragments u.fragments).trans ?_
  refine isEqv_congr fun g _ g' _ => ?_
  cases g <;> cases g' <;> rfl

theorem ListOf.beqBy_map (l k : ListOf α) :
    (l.map f).beqBy eq (k.map f) = l.beqBy (fun x y => eq (f x) (f y)) k := by
  unfold ListOf.beqBy
  rw [countedKeywords_map, countedKeywords_map, Entries.beqBy_map]
  exact congrArg (_ && · && _) (isEqv_map f eq l.items k.items)

theorem Call.beqBy_map (c d : Call α) :
    (c.map f).beqBy eq (d.map f) = c.beqBy (fun x y => eq (f x) (f y)) d :=
  congrArg (_ && ·) (isEqv_map (Argument.map f) (Argument.beqBy eq) c.arguments d.arguments)

/-- Replacing the parts and comparing them by what replaced them. -/
theorem Node.beqBy_mapParts (n m : Node α) : (n.mapParts f).beqBy test eq (m.mapParts f) =
    n.beqBy (fun x y => test (f x) (f y)) (fun x y => eq (f x) (f y)) m := by
  cases n with
  | template t =>
    cases m with
    | template u => exact t.beqBy_map f eq u
    | _ => rfl
  | list l =>
    cases m with
    | list k => exact l.beqBy_map f eq k
    | _ => rfl
  | map k =>
    cases m with
    | map k' => exact Entries.beqBy_map f f test eq k.entries k'.entries
    | _ => rfl
  | call c =>
    cases m with
    | call d => exact c.beqBy_map f eq d
    | _ => rfl
  | _ => cases m <;> rfl

end Replaced

/-! ## Leaves -/

/-- What a number is known by: its canonical units, and its value at output precision. -/
def Number.identity (n : Number) : Units × Double := (n.normalized.units, n.normalized.value.snap)

/-- Every channel at output precision. -/
def Rgb.snapped (c : Rgb Double) : Rgb Double := ⟨c.r.snap, c.g.snap, c.b.snap, c.alpha.snap⟩

/-- What a colour is known by: its red, green, blue and opacity at output precision. -/
def Color.identity (c : Color) : Rgb Double := c.rgbForm.channels.snapped

/-- What a function is known by. -/
def FunctionRef.identity (f : FunctionRef) : Signature × Bool := (f.signature, f.isCss)

theorem Number.beq_iff_identity {a b : Number} : a.beq b = true ↔ a.identity = b.identity := by
  unfold Number.beq Number.identity
  rw [Bool.and_eq_true_iff, beq_iff_eq, Double.near_iff, Prod.mk.injEq]

theorem Color.beq_iff_identity {a b : Color} : a.beq b = true ↔ a.identity = b.identity := by
  unfold Color.beq Color.identity Rgb.near Rgb.snapped
  rw [Bool.and_eq_true_iff, Bool.and_eq_true_iff, Bool.and_eq_true_iff, Rgb.mk.injEq, and_assoc,
    and_assoc]
  exact and_congr Double.near_iff (and_congr Double.near_iff
    (and_congr Double.near_iff Double.near_iff))

theorem FunctionRef.beq_iff_identity {f g : FunctionRef} :
    f.beq g = true ↔ f.identity = g.identity := by
  unfold FunctionRef.beq FunctionRef.identity
  rw [Bool.and_eq_true_iff, beq_iff_eq, beq_iff_eq, Prod.mk.injEq]

/-- What a layer without parts is known by. -/
inductive Leaf where
  | number (identity : Units × Double)
  | color (identity : Rgb Double)
  | string (text : String)
  | bool (value : Bool)
  | null
  | parent
  | function (identity : Signature × Bool)
  | variable (name : String)
  | diagnostic (severity : Severity) (message : String)

/-- What the layer is known by, if it has no parts. -/
def Node.leaf? : Node α → Option Leaf
  | .number n => some (.number n.identity)
  | .color c => some (.color c.identity)
  | .string s => some (.string s.text)
  | .bool value => some (.bool value)
  | .null => some .null
  | .parent => some .parent
  | .function f => some (.function f.identity)
  | .variable v => some (.variable v.name)
  | .diagnostic d => some (.diagnostic d.severity d.message)
  | _ => none

/-- What equals a layer without parts is what is known by the same. -/
theorem Node.beqBy_iff_leaf {test eq : α → α → Bool} {n : Node α} (h : n.leaf?.isSome = true)
    (m : Node α) : n.beqBy test eq m = true ↔ n.leaf? = m.leaf? := by
  cases n with
  | template t => cases h
  | list l => cases h
  | map k => cases h
  | call c => cases h
  | operation e => cases h
  | number a => cases m <;> simp [Node.beqBy, Node.leaf?, Number.beq_iff_identity]
  | color a => cases m <;> simp [Node.beqBy, Node.leaf?, Color.beq_iff_identity]
  | function f => cases m <;> simp [Node.beqBy, Node.leaf?, FunctionRef.beq_iff_identity]
  | string s => cases m <;> simp [Node.beqBy, Node.leaf?, StringValue.beq]
  | diagnostic d => cases m <;> simp [Node.beqBy, Node.leaf?, Diagnostic.beq]
  | _ => cases m <;> simp [Node.beqBy, Node.leaf?]

/-! ## Equality of values -/

namespace Value

variable [Hasher]

theorem beqItems_eq (as bs : List Value) : beqItems as bs = as.isEqv bs beq := by
  induction as generalizing bs with
  | nil => cases bs <;> rfl
  | cons a as ih =>
    cases bs with
    | nil => rfl
    | cons b bs => exact congrArg (beq a b && ·) (ih bs)

theorem beqFragments_eq (as bs : List (Fragment Value)) :
    beqFragments as bs = as.isEqv bs (Fragment.beqBy beq) := by
  induction as generalizing bs with
  | nil => cases bs <;> rfl
  | cons a as ih =>
    cases bs with
    | nil => cases a <;> rfl
    | cons b bs =>
      cases a with
      | text s =>
        cases b with
        | text s' => exact congrArg (s == s' && ·) (ih bs)
        | hole w => rfl
      | hole v =>
        cases b with
        | text s' => rfl
        | hole w => exact congrArg (beq v w && ·) (ih bs)

theorem beqArguments_eq (as bs : List (Argument Value)) :
    beqArguments as bs = as.isEqv bs (Argument.beqBy beq) := by
  induction as generalizing bs with
  | nil => cases bs <;> rfl
  | cons a as ih =>
    cases bs with
    | nil => rfl
    | cons b bs => exact congrArg (Argument.beqBy beq a b && ·) (ih bs)

theorem keywordsIn_eq (as bs : List (String × Value)) :
    keywordsIn as bs = as.all fun e => (Entries.find? (sameName e.1) bs).any (beq e.2) := by
  induction as with
  | nil => rfl
  | cons e as ih =>
    rw [List.all_cons, ← ih, keywordsIn]
    have hfind : Entries.find? (fun other => other == e.1) bs = Entries.find? (sameName e.1) bs :=
      rfl
    rw [hfind]
    cases Entries.find? (sameName e.1) bs <;> rfl

theorem entriesIn_eq (as bs : List (Value × Value)) :
    entriesIn as bs = as.all fun e => (Entries.find? (meets e.1) bs).any (beq e.2) := by
  induction as with
  | nil => rfl
  | cons e as ih =>
    rw [List.all_cons, ← ih, entriesIn]
    have hfind : Entries.find? (fun other => e.1.digest == other.digest && beq e.1 other) bs =
        Entries.find? (meets e.1) bs := rfl
    rw [hfind]
    cases Entries.find? (meets e.1) bs <;> rfl

theorem beq_list (a b : ListOf Value) : beq (.list a) (.list b) = a.beqBy beq b := by
  show (a.separator == b.separator && a.bracketed == b.bracketed && a.arglist == b.arglist &&
    beqItems a.items b.items && (!a.arglist ||
      (a.keywords.length == b.keywords.length && keywordsIn a.keywords b.keywords))) = _
  rw [beqItems_eq, keywordsIn_eq]
  unfold ListOf.beqBy ListOf.countedKeywords
  -- Of a plain list no keywords count, and a plain list never equals an argument list.
  cases ha : a.arglist with
  | false => cases hb : b.arglist <;> simp [Entries.beqBy]
  | true => cases hb : b.arglist <;> simp [Entries.beqBy]

/-- **Equality is the comparison of layers**, with itself for the parts. -/
theorem beq_eq_beqBy_node (a b : Value) : a.beq b = a.node.beqBy meets beq b.node := by
  cases a with
  | template t =>
    cases b with
    | template u => exact beqFragments_eq t.fragments u.fragments
    | _ => rfl
  | list l =>
    cases b with
    | list k => exact beq_list l k
    | _ => rfl
  | map m =>
    cases b with
    | map k => exact congrArg (m.entries.length == k.entries.length && ·) (entriesIn_eq _ _)
    | _ => rfl
  | call c =>
    cases b with
    | call d =>
      exact congrArg (c.name == d.name && c.callee.beq d.callee && ·) (beqArguments_eq _ _)
    | _ => rfl
  | _ => cases b <;> rfl

end Value

end Stylesheet
