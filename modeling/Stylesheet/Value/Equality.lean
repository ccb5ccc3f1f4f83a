import Stylesheet.Value.Digest

/-!
# Equality of values

Values are equal when they have the same content: spans, flags, quote marks, blanks around
operators and the model a colour is written in make no difference.

* Lists are equal item by item, with the same separator and brackets. Argument lists also have the
  same keywords, in any order.
* Maps are equal when they have equally many pairs and every pair of the one is found in the other,
  whatever the order.
* Functions are equal when they have one definition.

**A map finds a key as a hash table does (`Value.meets`)**: the two keys have to have one digest and
to be equal. Where every node carries the digest of its content or none, equal keys have one digest
and the first test makes no difference. A key that carries an old digest is not found by an equal
one, neither when it is looked up nor when maps are compared. (A table of one pair can do without
the first test, which an old digest alone would show; here it is always made.)
-/

namespace Stylesheet

variable [Hasher]

namespace Value

mutual

/-- Whether two values have the same content. -/
def beq : Value → Value → Bool
  | .number a, .number b => a.beq b
  | .color a, .color b => a.beq b
  | .string a, .string b => a.beq b
  | .template a, .template b => beqFragments a.fragments b.fragments
  | .list a, .list b =>
    a.separator == b.separator && a.bracketed == b.bracketed && a.arglist == b.arglist &&
      beqItems a.items b.items &&
      (!a.arglist ||
        (a.keywords.length == b.keywords.length && keywordsIn a.keywords b.keywords))
  | .map a, .map b => a.entries.length == b.entries.length && entriesIn a.entries b.entries
  | .bool a _, .bool b _ => a == b
  | .null _, .null _ => true
  | .parent _, .parent _ => true
  | .function a, .function b => a.beq b
  | .call a, .call b =>
    a.name == b.name && a.callee.beq b.callee && beqArguments a.arguments b.arguments
  | .variable a, .variable b => a.name == b.name
  | .operation a, .operation b =>
    a.operand.op == b.operand.op && beq a.left b.left && beq a.right b.right
  | .diagnostic a, .diagnostic b => a.beq b
  | _, _ => false
  termination_by structural a => a

/-- Whether two lists have equal items in the same places. -/
def beqItems : List Value → List Value → Bool
  | [], [] => true
  | a :: as, b :: bs => beq a b && beqItems as bs
  | _, _ => false
  termination_by structural as => as

/-- Whether two templates have the same pieces in the same places. -/
def beqFragments : List (Fragment Value) → List (Fragment Value) → Bool
  | [], [] => true
  | .text a :: as, .text b :: bs => a == b && beqFragments as bs
  | .hole a :: as, .hole b :: bs => beq a b && beqFragments as bs
  | _, _ => false
  termination_by structural as => as

/-- Whether two calls have the same arguments in the same places. -/
def beqArguments : List (Argument Value) → List (Argument Value) → Bool
  | [], [] => true
  | a :: as, b :: bs =>
    a.rest == b.rest && a.keywordRest == b.keywordRest && a.name? == b.name? &&
      beq a.value b.value && beqArguments as bs
  | _, _ => false
  termination_by structural as => as

/-- Whether every keyword has an equal value among the others. -/
def keywordsIn : List (String × Value) → List (String × Value) → Bool
  | [], _ => true
  | (name, a) :: as, bs =>
    (match Entries.find? (· == name) bs with
      | some b => beq a b
      | none => false) && keywordsIn as bs
  termination_by structural as => as

/-- Whether every pair finds its key among the others, with an equal value. -/
def entriesIn : List (Value × Value) → List (Value × Value) → Bool
  | [], _ => true
  | (key, a) :: as, bs =>
    (match Entries.find? (fun other => digest key == digest other && beq key other) bs with
      | some b => beq a b
      | none => false) && entriesIn as bs
  termination_by structural as => as

end

instance : BEq Value := ⟨beq⟩

/-- Whether a hash table that looks for a key stops at a stored one: they have one digest and are
equal. -/
def meets (key stored : Value) : Bool := key.digest == stored.digest && key.beq stored

end Value

/-! ## Maps by key -/

namespace MapOf

/-- The value under a key that meets a stored one. -/
def get? (m : MapOf Value) (key : Value) : Option Value :=
  Entries.find? (fun stored => key.meets stored) m.entries

/-- Whether the key meets a stored one. -/
def contains (m : MapOf Value) (key : Value) : Bool := (m.get? key).isSome

/-- The map with `value` under the key. A stored key that is met keeps its spelling and its place,
and the key that met it is recorded as a duplicate, if it is the first. -/
def insert (m : MapOf Value) (key value : Value) : MapOf Value :=
  { m with
    entries := Entries.put (fun stored => key.meets stored) key value m.entries
    duplicate? := m.duplicate?.or (if m.contains key then some key else none)
    expanded := false
    memo := none }

/-- The value that was under the key, and the map with `value` under it. -/
def getThenInsert? (m : MapOf Value) (key value : Value) : Option Value × MapOf Value :=
  (m.get? key, m.insert key value)

/-- The map of pairs, put in order. -/
def ofPairs (span : Span) (pairs : List (Value × Value)) : MapOf Value :=
  pairs.foldl (fun m (key, value) => m.insert key value) { span }

end MapOf

end Stylesheet
