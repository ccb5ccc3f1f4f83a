import Stylesheet.Value.Basic

/-!
# Digests of values

The digest of a value is taken of what equality looks at, and of nothing else: equal values have
equal digests. Where equality ignores an order, the digests of the parts are added up, and a sum
does not depend on the order either.

A node that carries a digest answers with it (`Memo`); `Value.digested` makes every node carry its
own.
-/

namespace Stylesheet

namespace Kind

/-- A number for each kind. -/
def rank : Kind → Nat
  | .number => 0
  | .color => 1
  | .string => 2
  | .template => 3
  | .list => 4
  | .map => 5
  | .bool => 6
  | .null => 7
  | .function => 8
  | .call => 9
  | .variable => 10
  | .operation => 11
  | .error => 12
  | .warning => 13
  | .parent => 14

end Kind

namespace Separator

/-- A word for each separator. -/
def word : Separator → Word
  | .space => .count 0
  | .comma => .count 1

end Separator

namespace FunctionRef

/-- What the digest of a function depends on. -/
def words (f : FunctionRef) : List Word :=
  [.text f.name, .count f.signature.id, .flag f.isCss]

end FunctionRef

namespace Callee

/-- What the digest of a call takes of what is called. -/
def words : Callee → List Word
  | .named => [.count 0]
  | .function f => .count 1 :: f.words
  | .native f => [.count 2, .text f.name, .count f.which]

end Callee

variable [Hasher]

namespace Value

/-- The digest of a value from its kind and the digest of its content. -/
def tagged (kind : Kind) (content : UInt64) : UInt64 :=
  Hasher.digest [.count kind.rank, .bits content]

mutual

/-- The digest of a value. -/
def digest : Value → UInt64
  | .number n => tagged .number n.digest
  | .color c => tagged .color c.digest
  | .string s => tagged .string s.digest
  | .template t =>
    tagged .template (t.memo.read (.count t.fragments.length :: fragmentWords t.fragments))
  | .list l =>
    tagged .list
      (l.memo.read ([l.separator.word, .flag l.bracketed, .flag l.arglist,
        .count l.items.length] ++ itemWords l.items ++
        if l.arglist then [.bits (keywordSum l.keywords)] else []))
  | .map m =>
    tagged .map (m.memo.read [.count m.entries.length, .bits (entrySum m.entries)])
  | .bool value _ => tagged .bool value.toUInt64
  | .null _ => tagged .null 0
  | .parent _ => tagged .parent 0
  | .function f => tagged .function (Hasher.digest f.words)
  | .call c =>
    tagged .call
      (c.memo.read (.text c.name :: c.callee.words ++
        .count c.arguments.length :: argumentWords c.arguments))
  | .variable v => tagged .variable (Hasher.digest [.text v.name])
  | .operation e =>
    tagged .operation
      (e.memo.read [.count e.operand.op.rank, .bits (digest e.left), .bits (digest e.right)])
  | .diagnostic d =>
    tagged (match d.severity with | .error => .error | .warning => .warning)
      (Hasher.digest [.text d.message])
  termination_by structural v => v

/-- The digests of a list of values. -/
def itemWords : List Value → List Word
  | [] => []
  | v :: vs => .bits (digest v) :: itemWords vs
  termination_by structural vs => vs

/-- The pieces of a template as words. -/
def fragmentWords : List (Fragment Value) → List Word
  | [] => []
  | .text s :: fs => .count 0 :: .text s :: fragmentWords fs
  | .hole v :: fs => .count 1 :: .bits (digest v) :: fragmentWords fs
  termination_by structural fs => fs

/-- The arguments of a call as words. -/
def argumentWords : List (Argument Value) → List Word
  | [] => []
  | a :: as =>
    Digest.optionWords a.name? ++
      .bits (digest a.value) :: .flag a.rest :: .flag a.keywordRest :: argumentWords as
  termination_by structural as => as

/-- The sum of the digests of keywords with their values. -/
def keywordSum : List (String × Value) → UInt64
  | [] => 0
  | (name, v) :: ks => Hasher.digest [.text name, .bits (digest v)] + keywordSum ks
  termination_by structural ks => ks

/-- The sum of the digests of pairs. -/
def entrySum : List (Value × Value) → UInt64
  | [] => 0
  | (key, v) :: es => Hasher.digest [.bits (digest key), .bits (digest v)] + entrySum es
  termination_by structural es => es

end

end Value

/-! ## Digests of nodes -/

namespace Template

/-- What the digest of a template depends on. -/
def words (t : Template Value) : List Word :=
  .count t.fragments.length :: Value.fragmentWords t.fragments

/-- The digest of a template. -/
def digest (t : Template Value) : UInt64 := t.memo.read t.words

end Template

namespace ListOf

/-- What the digest of a list depends on. -/
def words (l : ListOf Value) : List Word :=
  [l.separator.word, .flag l.bracketed, .flag l.arglist, .count l.items.length] ++
    Value.itemWords l.items ++ if l.arglist then [.bits (Value.keywordSum l.keywords)] else []

/-- The digest of a list. -/
def digest (l : ListOf Value) : UInt64 := l.memo.read l.words

end ListOf

namespace MapOf

/-- What the digest of a map depends on. -/
def words (m : MapOf Value) : List Word :=
  [.count m.entries.length, .bits (Value.entrySum m.entries)]

/-- The digest of a map. -/
def digest (m : MapOf Value) : UInt64 := m.memo.read m.words

end MapOf

namespace Call

/-- What the digest of a call depends on. -/
def words (c : Call Value) : List Word :=
  .text c.name :: c.callee.words ++
    .count c.arguments.length :: Value.argumentWords c.arguments

/-- The digest of a call. -/
def digest (c : Call Value) : UInt64 := c.memo.read c.words

end Call

namespace Operation

/-- What the digest of an operation depends on. -/
def words (e : Operation Value) : List Word :=
  [.count e.operand.op.rank, .bits e.left.digest, .bits e.right.digest]

/-- The digest of an operation. -/
def digest (e : Operation Value) : UInt64 := e.memo.read e.words

end Operation

namespace Value

theorem digest_template (t : Template Value) :
    (template t).digest = tagged .template t.digest := rfl

theorem digest_list (l : ListOf Value) : (list l).digest = tagged .list l.digest := rfl

theorem digest_map (m : MapOf Value) : (map m).digest = tagged .map m.digest := rfl

theorem digest_call (c : Call Value) : (call c).digest = tagged .call c.digest := rfl

/-! ## Carrying digests -/

mutual

/-- The value with every node that its digest reads carrying its own. A node that carries one is
not looked into. -/
def digested : Value → Value
  | .number n => .number n.digested
  | .color c => .color c.digested
  | .string s => .string s.digested
  | .template t =>
    if t.memo.isSome then .template t
    else .template { t with fragments := digestedFragments t.fragments, memo := some t.digest }
  | .list l =>
    if l.memo.isSome then .list l
    else .list { l with
      items := digestedItems l.items
      keywords := if l.arglist then digestedKeywords l.keywords else l.keywords
      memo := some l.digest }
  | .map m =>
    if m.memo.isSome then .map m
    else .map { m with entries := digestedEntries m.entries, memo := some m.digest }
  | .call c =>
    if c.memo.isSome then .call c
    else .call { c with arguments := digestedArguments c.arguments, memo := some c.digest }
  | .operation e =>
    if e.memo.isSome then .operation e
    else .operation { e with
      left := digested e.left, right := digested e.right, memo := some e.digest }
  | v => v
  termination_by structural v => v

/-- The items of a list carrying their digests. -/
def digestedItems : List Value → List Value
  | [] => []
  | v :: vs => digested v :: digestedItems vs
  termination_by structural vs => vs

/-- The pieces of a template, their values carrying their digests. -/
def digestedFragments : List (Fragment Value) → List (Fragment Value)
  | [] => []
  | .text s :: fs => .text s :: digestedFragments fs
  | .hole v :: fs => .hole (digested v) :: digestedFragments fs
  termination_by structural fs => fs

/-- Arguments whose values carry their digests. -/
def digestedArguments : List (Argument Value) → List (Argument Value)
  | [] => []
  | a :: as => { a with value := digested a.value } :: digestedArguments as
  termination_by structural as => as

/-- Keywords whose values carry their digests. -/
def digestedKeywords : List (String × Value) → List (String × Value)
  | [] => []
  | (name, v) :: ks => (name, digested v) :: digestedKeywords ks
  termination_by structural ks => ks

/-- Pairs whose keys and values carry their digests. -/
def digestedEntries : List (Value × Value) → List (Value × Value)
  | [] => []
  | (key, v) :: es => (digested key, digested v) :: digestedEntries es
  termination_by structural es => es

end

end Value

end Stylesheet
