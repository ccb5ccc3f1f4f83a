import Stylesheet.Proofs.Digest.Words
import Stylesheet.Proofs.Value.Node
import Stylesheet.Value.Digest

/-!
# Digests layer by layer

The digest of a value is that of its kind and its content, and the content of one layer is digested
with the digests of the parts (`Node.contentBy`), unless the node carries a digest
(**`Value.digest_eq`**). A value in which every node carries the digest of its present content or
none is coherent, and there what is carried makes no difference (`Value.Coherent.digest_eq`).
-/

namespace Stylesheet

variable {α β : Type}

/-! ## Words of one layer -/

/-- The words of a piece of a template, with the given digests of values. -/
def Fragment.wordsBy (d : α → UInt64) : Fragment α → List Word
  | .text s => [.count 0, .text s]
  | .hole v => [.count 1, .bits (d v)]

/-- The words of an argument, with the given digests of values. -/
def Argument.wordsBy (d : α → UInt64) (a : Argument α) : List Word :=
  Digest.optionWords a.name? ++ [.bits (d a.value), .flag a.rest, .flag a.keywordRest]

/-- The words of a template. -/
def Template.wordsBy (d : α → UInt64) (t : Template α) : List Word :=
  .count t.fragments.length :: t.fragments.flatMap (Fragment.wordsBy d)

/-- The words of a call. -/
def Call.wordsBy (d : α → UInt64) (c : Call α) : List Word :=
  .text c.name :: c.callee.words ++
    .count c.arguments.length :: c.arguments.flatMap (Argument.wordsBy d)

/-- The words of an operation. -/
def Operation.wordsBy (d : α → UInt64) (e : Operation α) : List Word :=
  [.count e.operand.op.rank, .bits (d e.left), .bits (d e.right)]

section Sums

variable [Hasher]

/-- The digest of a keyword with its value. -/
def ListOf.keywordDigest (d : α → UInt64) (e : String × α) : UInt64 :=
  Hasher.digest [.text e.1, .bits (d e.2)]

/-- The digest of a pair. -/
def MapOf.entryDigest (d : α → UInt64) (e : α × α) : UInt64 :=
  Hasher.digest [.bits (d e.1), .bits (d e.2)]

/-- The words of a list. -/
def ListOf.wordsBy (d : α → UInt64) (l : ListOf α) : List Word :=
  [l.separator.word, .flag l.bracketed, .flag l.arglist, .count l.items.length] ++
    l.items.map (fun v => .bits (d v)) ++
    if l.arglist then [.bits (Digest.sum (l.countedKeywords.map (keywordDigest d)))] else []

/-- The words of a map. -/
def MapOf.wordsBy (d : α → UInt64) (m : MapOf α) : List Word :=
  [.count m.entries.length, .bits (Digest.sum (m.entries.map (entryDigest d)))]

end Sums

/-! ## Digests of one layer -/

namespace Node

/-- The kind of the values that a layer belongs to. -/
def kind : Node α → Kind
  | .number _ => .number
  | .color _ => .color
  | .string _ => .string
  | .template _ => .template
  | .list _ => .list
  | .map _ => .map
  | .bool _ => .bool
  | .null => .null
  | .parent => .parent
  | .function _ => .function
  | .call _ => .call
  | .variable _ => .variable
  | .operation _ => .operation
  | .diagnostic d =>
    match d.severity with
    | .error => .error
    | .warning => .warning

/-- The digest that a node carries. Some kinds never carry one. -/
def memo : Node α → Memo
  | .number n => n.memo
  | .color c => c.memo
  | .string s => s.memo
  | .template t => t.memo
  | .list l => l.memo
  | .map m => m.memo
  | .call c => c.memo
  | .operation e => e.memo
  | _ => none

/-- The digest of the content of a layer, with the given digests of its parts. -/
def contentBy [Hasher] (d : α → UInt64) : Node α → UInt64
  | .number n => Hasher.digest n.words
  | .color c => Hasher.digest c.words
  | .string s => Hasher.digest s.words
  | .template t => Hasher.digest (t.wordsBy d)
  | .list l => Hasher.digest (l.wordsBy d)
  | .map m => Hasher.digest (m.wordsBy d)
  | .bool value => value.toUInt64
  | .null => 0
  | .parent => 0
  | .function f => Hasher.digest f.words
  | .call c => Hasher.digest (c.wordsBy d)
  | .variable v => Hasher.digest [.text v.name]
  | .operation e => Hasher.digest (e.wordsBy d)
  | .diagnostic g => Hasher.digest [.text g.message]

/-- The digest of a node: the one it carries, or else that of its content. -/
def digestBy [Hasher] (d : α → UInt64) (n : Node α) : UInt64 := n.memo.getD (n.contentBy d)

end Node

/-! ## Digests of values -/

namespace Value

variable [Hasher]

theorem itemWords_eq (vs : List Value) :
    itemWords vs = vs.map fun v => .bits (digest v) := by
  induction vs with
  | nil => rfl
  | cons v vs ih => exact congrArg (.bits (digest v) :: ·) ih

theorem fragmentWords_eq (fs : List (Fragment Value)) :
    fragmentWords fs = fs.flatMap (Fragment.wordsBy digest) := by
  induction fs with
  | nil => rfl
  | cons f fs ih =>
    rw [List.flatMap_cons, ← ih]
    cases f <;> rfl

theorem argumentWords_eq (as : List (Argument Value)) :
    argumentWords as = as.flatMap (Argument.wordsBy digest) := by
  induction as with
  | nil => rfl
  | cons a as ih =>
    rw [List.flatMap_cons, ← ih, Argument.wordsBy, List.append_assoc]
    rfl

theorem keywordSum_eq (ks : List (String × Value)) :
    keywordSum ks = Digest.sum (ks.map (ListOf.keywordDigest digest)) := by
  induction ks with
  | nil => rfl
  | cons e ks ih => exact congrArg (ListOf.keywordDigest digest e + ·) ih

theorem entrySum_eq (es : List (Value × Value)) :
    entrySum es = Digest.sum (es.map (MapOf.entryDigest digest)) := by
  induction es with
  | nil => rfl
  | cons e es ih => exact congrArg (MapOf.entryDigest digest e + ·) ih

theorem words_template (t : Template Value) : t.words = t.wordsBy digest := by
  unfold Template.words Template.wordsBy
  rw [fragmentWords_eq]

theorem words_list (l : ListOf Value) : l.words = l.wordsBy digest := by
  unfold ListOf.words ListOf.wordsBy ListOf.countedKeywords
  rw [itemWords_eq, keywordSum_eq]
  cases l.arglist <;> rfl

theorem words_map (m : MapOf Value) : m.words = m.wordsBy digest := by
  unfold MapOf.words MapOf.wordsBy
  rw [entrySum_eq]

theorem words_call (c : Call Value) : c.words = c.wordsBy digest := by
  unfold Call.words Call.wordsBy
  rw [argumentWords_eq]

/-- **The digest of a value**, from those of its parts. -/
theorem digest_eq (v : Value) : v.digest = tagged v.node.kind (v.node.digestBy digest) := by
  cases v with
  | template t =>
    rw [digest_template, Template.digest, words_template]
    rfl
  | list l =>
    rw [digest_list, ListOf.digest, words_list]
    rfl
  | map m =>
    rw [digest_map, MapOf.digest, words_map]
    rfl
  | call c =>
    rw [digest_call, Call.digest, words_call]
    rfl
  | diagnostic d =>
    obtain ⟨severity, message, span⟩ := d
    cases severity <;> rfl
  | _ => rfl

end Value

/-! ## Only the parts are digested -/

section Congr

variable {d d' : α → UInt64}

theorem Template.wordsBy_congr {t : Template α} (h : ∀ x ∈ t.parts, d x = d' x) :
    t.wordsBy d = t.wordsBy d' := by
  unfold Template.wordsBy
  rw [List.flatMap_def, List.flatMap_def]
  congr 2
  refine List.map_congr_left fun g hg => ?_
  cases g with
  | text s => rfl
  | hole v =>
    rw [Fragment.wordsBy, Fragment.wordsBy, h v (mem_parts hg (Fragment.hole_mem_parts v))]

theorem ListOf.wordsBy_congr [Hasher] {l : ListOf α} (h : ∀ x ∈ l.parts, d x = d' x) :
    l.wordsBy d = l.wordsBy d' := by
  have hitems : (l.items.map fun v => Word.bits (d v)) = l.items.map fun v => .bits (d' v) :=
    List.map_congr_left fun x hx => congrArg Word.bits (h x (item_mem_parts hx))
  have hkeywords : l.countedKeywords.map (keywordDigest d) =
      l.countedKeywords.map (keywordDigest d') :=
    List.map_congr_left fun e he => by
      rw [keywordDigest, keywordDigest, h e.2 (keyword_mem_parts he)]
  unfold ListOf.wordsBy
  rw [hitems, hkeywords]

theorem MapOf.wordsBy_congr [Hasher] {m : MapOf α} (h : ∀ x ∈ m.parts, d x = d' x) :
    m.wordsBy d = m.wordsBy d' := by
  have hentries : m.entries.map (entryDigest d) = m.entries.map (entryDigest d') :=
    List.map_congr_left fun e he => by
      rw [entryDigest, entryDigest, h e.1 (key_mem_parts he), h e.2 (value_mem_parts he)]
  unfold MapOf.wordsBy
  rw [hentries]

theorem Call.wordsBy_congr {c : Call α} (h : ∀ x ∈ c.parts, d x = d' x) :
    c.wordsBy d = c.wordsBy d' := by
  unfold Call.wordsBy
  rw [List.flatMap_def, List.flatMap_def]
  congr 3
  refine List.map_congr_left fun a ha => ?_
  rw [Argument.wordsBy, Argument.wordsBy, h a.value (argument_mem_parts ha)]

/-- The content of a layer is digested with the digests of its parts only. -/
theorem Node.contentBy_congr [Hasher] {n : Node α} (h : ∀ x ∈ n.parts, d x = d' x) :
    n.contentBy d = n.contentBy d' := by
  cases n with
  | template t => exact congrArg Hasher.digest (Template.wordsBy_congr h)
  | list l => exact congrArg Hasher.digest (ListOf.wordsBy_congr h)
  | map m => exact congrArg Hasher.digest (MapOf.wordsBy_congr h)
  | call c => exact congrArg Hasher.digest (Call.wordsBy_congr h)
  | operation e =>
    show Hasher.digest (e.wordsBy d) = Hasher.digest (e.wordsBy d')
    unfold Operation.wordsBy
    rw [h e.left e.left_mem_parts, h e.right e.right_mem_parts]
  | _ => rfl

end Congr

/-! ## Replaced parts -/

section Replaced

variable (f : α → β) (d : β → UInt64)

theorem Template.wordsBy_map (t : Template α) : (t.map f).wordsBy d = t.wordsBy (d ∘ f) := by
  show .count (t.fragments.map (Fragment.map f)).length ::
    (t.fragments.map (Fragment.map f)).flatMap (Fragment.wordsBy d) = _
  rw [List.length_map, List.flatMap_map]
  unfold Template.wordsBy
  congr 2
  funext g
  cases g <;> rfl

theorem ListOf.wordsBy_map [Hasher] (l : ListOf α) : (l.map f).wordsBy d = l.wordsBy (d ∘ f) := by
  unfold ListOf.wordsBy
  rw [ListOf.countedKeywords_map, List.map_map]
  show [l.separator.word, .flag l.bracketed, .flag l.arglist, .count (l.items.map f).length] ++
    (l.items.map f).map (fun v => .bits (d v)) ++ _ = _
  rw [List.length_map, List.map_map]
  rfl

theorem MapOf.wordsBy_map [Hasher] (m : MapOf α) : (m.map f).wordsBy d = m.wordsBy (d ∘ f) := by
  have hentry : entryDigest d ∘ Prod.map f f = entryDigest (d ∘ f) := by
    funext e
    simp only [entryDigest, Function.comp_apply, Prod.map]
  show [Word.count (m.entries.map (Prod.map f f)).length,
    Word.bits (Digest.sum ((m.entries.map (Prod.map f f)).map (entryDigest d)))] = _
  rw [List.length_map, List.map_map, hentry]
  rfl

theorem Call.wordsBy_map (c : Call α) : (c.map f).wordsBy d = c.wordsBy (d ∘ f) := by
  show .text c.name :: c.callee.words ++
    .count (c.arguments.map (Argument.map f)).length ::
      (c.arguments.map (Argument.map f)).flatMap (Argument.wordsBy d) = _
  rw [List.length_map, List.flatMap_map]
  rfl

/-- Replacing the parts and digesting what replaced them. -/
theorem Node.contentBy_mapParts [Hasher] (n : Node α) :
    (n.mapParts f).contentBy d = n.contentBy (d ∘ f) := by
  cases n with
  | template t => exact congrArg Hasher.digest (t.wordsBy_map f d)
  | list l => exact congrArg Hasher.digest (l.wordsBy_map f d)
  | map m => exact congrArg Hasher.digest (m.wordsBy_map f d)
  | call c => exact congrArg Hasher.digest (c.wordsBy_map f d)
  | _ => rfl

end Replaced

theorem Node.kind_mapParts (f : α → β) (n : Node α) : (n.mapParts f).kind = n.kind := by
  cases n <;> rfl

theorem Node.memo_mapParts (f : α → β) (n : Node α) : (n.mapParts f).memo = n.memo := by
  cases n <;> rfl

/-! ## Coherence -/

namespace Value

variable [Hasher]

/-- Every node, at every depth, carries the digest of its present content or none. -/
def Coherent : Value → Prop := Each fun v => ∀ word ∈ v.node.memo, word = v.node.contentBy digest

/-- In a coherent value, a carried digest is the digest of the content. -/
theorem Coherent.digest_eq {v : Value} (h : v.Coherent) :
    v.digest = tagged v.node.kind (v.node.contentBy digest) := by
  rw [Value.digest_eq, Node.digestBy]
  cases hmemo : v.node.memo with
  | none => rfl
  | some word => exact congrArg (tagged v.node.kind) (h.here word hmemo)

/-- A node without a digest, of coherent parts. -/
theorem Coherent.of_memo_eq_none {v : Value} (hmemo : v.node.memo = none)
    (hparts : ∀ x ∈ v.parts, x.Coherent) : v.Coherent :=
  .intro (fun word hword => by rw [hmemo] at hword; cases hword) hparts

end Value

end Stylesheet
