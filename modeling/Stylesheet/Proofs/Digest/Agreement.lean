import Stylesheet.Proofs.Digest.Layer
import Stylesheet.Proofs.Equality.Equivalence

/-!
# Equal values have equal digests

**Theorem (`Value.digest_eq_of_beq`).** Equality and digest are written separately for each kind of
value. They agree on sound values (`Value.Sound`), in which no node carries an old digest, whatever
the hash.

Every layer is digested from words that equality determines (`Node.contentBy_eq_of_beqBy`). Numbers
and colours are brought to the form in which they are compared before they become words. Entries of
maps and keywords are compared in any order: equality gives a matching of the entries
(`Entries.beqBy_iff_matched`), matched entries have equal digests by induction, and the sum of them
does not see the order in which they are matched.

The induction is about keys in hash tables: the digests never keep a sound key from being found
(`Value.Sound.meets_eq_beq`), so a map of sound keys is one by equality of keys alone.
-/

namespace Stylesheet

variable {α : Type} {test eq : α → α → Bool} {p : α → Prop} {d : α → UInt64}

/-! ## Leaves -/

theorem Number.words_eq_of_beq {a b : Number} (h : a.beq b = true) : a.words = b.words := by
  have hwords : ∀ n : Number, n.words = .count n.identity.1.numerators.length ::
      n.identity.1.numerators.flatMap unitWords ++ .count n.identity.1.denominators.length ::
      n.identity.1.denominators.flatMap unitWords ++ [.bits n.identity.2.bits] := fun _ => rfl
  rw [hwords, hwords, Number.beq_iff_identity.1 h]

theorem Color.words_eq_of_beq {a b : Color} (h : a.beq b = true) : a.words = b.words := by
  have hchannels : ∀ c : Color, c.words = [.bits c.identity.r.bits, .bits c.identity.g.bits,
      .bits c.identity.b.bits, .bits c.identity.alpha.bits] := fun _ => rfl
  rw [hchannels, hchannels, Color.beq_iff_identity.1 h]

theorem StringValue.words_eq_of_beq {a b : StringValue} (h : a.beq b = true) :
    a.words = b.words :=
  congrArg (fun text => [Word.text text]) (beq_iff_eq.1 h)

theorem FunctionRef.words_eq_of_beq {f g : FunctionRef} (h : f.beq g = true) :
    f.words = g.words := by
  obtain ⟨hsignature, hcss⟩ := Prod.mk.inj (FunctionRef.beq_iff_identity.1 h)
  unfold FunctionRef.words FunctionRef.name
  rw [hsignature, hcss]

theorem Diagnostic.eq_of_beq {a b : Diagnostic} (h : a.beq b = true) :
    a.severity = b.severity ∧ a.message = b.message := by
  obtain ⟨hseverity, hmessage⟩ := Bool.and_eq_true_iff.1 h
  exact ⟨beq_iff_eq.1 hseverity, beq_iff_eq.1 hmessage⟩

/-! ## Compound layers -/

/-- Equal values have equal digests, on the left among `as` and on the right among `bs`. -/
def AgreeOn (eq : α → α → Bool) (d : α → UInt64) (as bs : List α) : Prop :=
  ∀ x ∈ as, ∀ y ∈ bs, eq x y = true → d x = d y

theorem length_eq_of_isEqv {as bs : List α} (h : as.isEqv bs eq = true) :
    as.length = bs.length :=
  (isEqv_iff_forall₂.1 h).length_eq

theorem Fragment.wordsBy_eq_of_beqBy {g g' : Fragment α} (hd : AgreeOn eq d g.parts g'.parts)
    (h : g.beqBy eq g' = true) : g.wordsBy d = g'.wordsBy d := by
  cases g with
  | text s =>
    cases g' with
    | text s' => exact congrArg (fun text => [Word.count 0, .text text]) (beq_iff_eq.1 h)
    | hole w => cases h
  | hole v =>
    cases g' with
    | text s => cases h
    | hole w =>
      rw [wordsBy, wordsBy, hd v (hole_mem_parts v) w (hole_mem_parts w) h]

theorem Template.wordsBy_eq_of_beqBy {t u : Template α} (hd : AgreeOn eq d t.parts u.parts)
    (h : t.beqBy eq u = true) : t.wordsBy d = u.wordsBy d := by
  have hpieces : t.fragments.map (Fragment.wordsBy d) = u.fragments.map (Fragment.wordsBy d) :=
    map_eq_of_isEqv h fun g hg g' hg' hgg' => Fragment.wordsBy_eq_of_beqBy
      (fun x hx y hy => hd x (mem_parts hg hx) y (mem_parts hg' hy)) hgg'
  unfold Template.wordsBy
  rw [List.flatMap_def, List.flatMap_def, hpieces, length_eq_of_isEqv h]

theorem ListOf.wordsBy_eq_of_beqBy [Hasher] {l k : ListOf α}
    (hkeys : Entries.Apart sameName l.countedKeywords)
    (hkeys' : Entries.Apart sameName k.countedKeywords) (hd : AgreeOn eq d l.parts k.parts)
    (h : l.beqBy eq k = true) : l.wordsBy d = k.wordsBy d := by
  obtain ⟨hrest, hkeywords⟩ := Bool.and_eq_true_iff.1 h
  obtain ⟨hshape, hitems⟩ := Bool.and_eq_true_iff.1 hrest
  obtain ⟨⟨hseparator, hbracketed⟩, harglist⟩ :
      (l.separator = k.separator ∧ l.bracketed = k.bracketed) ∧ l.arglist = k.arglist := by
    simpa using hshape
  have hwords : (l.items.map fun v => Word.bits (d v)) = k.items.map fun v => .bits (d v) :=
    map_eq_of_isEqv hitems fun x hx y hy hxy =>
      congrArg Word.bits (hd x (item_mem_parts hx) y (item_mem_parts hy) hxy)
  have hmatched := (Entries.beqBy_iff_matched (fun e _ => exchanges_sameName e.1)
    (fun _ _ => trivial) (fun _ _ => trivial) hkeys hkeys').1 hkeywords
  have hsum : Digest.sum (l.countedKeywords.map (keywordDigest d)) =
      Digest.sum (k.countedKeywords.map (keywordDigest d)) :=
    hmatched.foldr_eq 0 fun e he f hf hname hval => by
      have hname' : f.1 = e.1 := beq_iff_eq.1 hname
      have hvalue : d e.2 = d f.2 :=
        hd e.2 (keyword_mem_parts he) f.2 (keyword_mem_parts hf) hval
      rw [keywordDigest, keywordDigest, hname', hvalue]
  unfold ListOf.wordsBy
  rw [hseparator, hbracketed, harglist, hwords, hsum, length_eq_of_isEqv hitems]

theorem MapOf.wordsBy_eq_of_beqBy [Hasher] {m k : MapOf α} (hkeys : Entries.Apart test m.entries)
    (hkeys' : Entries.Apart test k.entries) (hex : ∀ x ∈ m.parts, Exchanges test p x)
    (hp : ∀ x ∈ m.parts, p x) (hp' : ∀ x ∈ k.parts, p x)
    (htest : AgreeOn test d m.parts k.parts) (hd : AgreeOn eq d m.parts k.parts)
    (h : m.beqBy test eq k = true) : m.wordsBy d = k.wordsBy d := by
  have hmatched := (Entries.beqBy_iff_matched (fun e he => hex e.1 (key_mem_parts he))
    (fun e he => hp e.1 (key_mem_parts he)) (fun e he => hp' e.1 (key_mem_parts he)) hkeys
    hkeys').1 h
  -- The sum does not see in which order the entries are matched.
  have hsum : Digest.sum (m.entries.map (entryDigest d)) =
      Digest.sum (k.entries.map (entryDigest d)) :=
    hmatched.foldr_eq 0 fun e he f hf hkk hvv => by
      have hkey : d e.1 = d f.1 := htest e.1 (key_mem_parts he) f.1 (key_mem_parts hf) hkk
      have hvalue : d e.2 = d f.2 := hd e.2 (value_mem_parts he) f.2 (value_mem_parts hf) hvv
      rw [entryDigest, entryDigest, hkey, hvalue]
  unfold MapOf.wordsBy
  rw [hmatched.length_eq, hsum]

theorem Callee.words_eq_of_beq {a b : Callee} (h : a.beq b = true) : a.words = b.words := by
  cases a with
  | named =>
    cases b with
    | named => rfl
    | _ => cases h
  | function f =>
    cases b with
    | function g => exact congrArg (.count 1 :: ·) (FunctionRef.words_eq_of_beq h)
    | _ => cases h
  | native f =>
    cases b with
    | native g => rw [show f = g from beq_iff_eq.1 h]
    | _ => cases h

theorem Call.wordsBy_eq_of_beqBy {c c' : Call α} (hd : AgreeOn eq d c.parts c'.parts)
    (h : c.beqBy eq c' = true) : c.wordsBy d = c'.wordsBy d := by
  obtain ⟨hcalled, harguments⟩ := Bool.and_eq_true_iff.1 h
  obtain ⟨hname, hcallee⟩ := Bool.and_eq_true_iff.1 hcalled
  have hwords : c.arguments.map (Argument.wordsBy d) = c'.arguments.map (Argument.wordsBy d) :=
    map_eq_of_isEqv harguments fun a ha b hb hab => by
      obtain ⟨hmarks, hval⟩ := Bool.and_eq_true_iff.1 hab
      obtain ⟨⟨hrest, hkeywordRest⟩, hname⟩ :
          (a.rest = b.rest ∧ a.keywordRest = b.keywordRest) ∧ a.name? = b.name? := by
        simpa using hmarks
      have hvalue : d a.value = d b.value :=
        hd a.value (argument_mem_parts ha) b.value (argument_mem_parts hb) hval
      rw [Argument.wordsBy, Argument.wordsBy, hrest, hkeywordRest, hname, hvalue]
  unfold Call.wordsBy
  rw [List.flatMap_def, List.flatMap_def, hwords, length_eq_of_isEqv harguments,
    show c.name = c'.name from beq_iff_eq.1 hname, Callee.words_eq_of_beq hcallee]

theorem Operation.wordsBy_eq_of_beqBy {e e' : Operation α} (hd : AgreeOn eq d e.parts e'.parts)
    (h : e.beqBy eq e' = true) : e.wordsBy d = e'.wordsBy d := by
  obtain ⟨hrest, hright⟩ := Bool.and_eq_true_iff.1 h
  obtain ⟨hop, hleft⟩ := Bool.and_eq_true_iff.1 hrest
  have hl : d e.left = d e'.left := hd _ e.left_mem_parts _ e'.left_mem_parts hleft
  have hr : d e.right = d e'.right := hd _ e.right_mem_parts _ e'.right_mem_parts hright
  unfold Operation.wordsBy
  rw [show e.operand.op = e'.operand.op from beq_iff_eq.1 hop, hl, hr]

/-! ## Layers -/

namespace Node

/-- Equal layers are of one kind and have content of one digest. -/
theorem contentBy_eq_of_beqBy [Hasher] {n m : Node α} (hkeys : n.KeysApart test)
    (hkeys' : m.KeysApart test) (hex : ∀ x ∈ n.parts, Exchanges test p x)
    (hp : ∀ x ∈ n.parts, p x) (hp' : ∀ x ∈ m.parts, p x)
    (htest : AgreeOn test d n.parts m.parts) (hd : AgreeOn eq d n.parts m.parts)
    (h : n.beqBy test eq m = true) : n.kind = m.kind ∧ n.contentBy d = m.contentBy d := by
  cases n with
  | number a =>
    cases m with
    | number b => exact ⟨rfl, congrArg Hasher.digest (Number.words_eq_of_beq h)⟩
    | _ => cases h
  | color a =>
    cases m with
    | color b => exact ⟨rfl, congrArg Hasher.digest (Color.words_eq_of_beq h)⟩
    | _ => cases h
  | string a =>
    cases m with
    | string b => exact ⟨rfl, congrArg Hasher.digest (StringValue.words_eq_of_beq h)⟩
    | _ => cases h
  | template t =>
    cases m with
    | template u => exact ⟨rfl, congrArg Hasher.digest (Template.wordsBy_eq_of_beqBy hd h)⟩
    | _ => cases h
  | list l =>
    cases m with
    | list k =>
      exact ⟨rfl, congrArg Hasher.digest (ListOf.wordsBy_eq_of_beqBy hkeys hkeys' hd h)⟩
    | _ => cases h
  | map k =>
    cases m with
    | map k' =>
      exact ⟨rfl, congrArg Hasher.digest
        (MapOf.wordsBy_eq_of_beqBy hkeys hkeys' hex hp hp' htest hd h)⟩
    | _ => cases h
  | bool a =>
    cases m with
    | bool b => exact ⟨rfl, congrArg Bool.toUInt64 (beq_iff_eq.1 h)⟩
    | _ => cases h
  | null =>
    cases m with
    | null => exact ⟨rfl, rfl⟩
    | _ => cases h
  | parent =>
    cases m with
    | parent => exact ⟨rfl, rfl⟩
    | _ => cases h
  | function f =>
    cases m with
    | function g => exact ⟨rfl, congrArg Hasher.digest (FunctionRef.words_eq_of_beq h)⟩
    | _ => cases h
  | call c =>
    cases m with
    | call c' => exact ⟨rfl, congrArg Hasher.digest (Call.wordsBy_eq_of_beqBy hd h)⟩
    | _ => cases h
  | «variable» v =>
    cases m with
    | «variable» w =>
      exact ⟨rfl, congrArg (fun name => Hasher.digest [.text name]) (beq_iff_eq.1 h)⟩
    | _ => cases h
  | operation e =>
    cases m with
    | operation e' => exact ⟨rfl, congrArg Hasher.digest (Operation.wordsBy_eq_of_beqBy hd h)⟩
    | _ => cases h
  | diagnostic g =>
    cases m with
    | diagnostic g' =>
      obtain ⟨hseverity, hmessage⟩ := Diagnostic.eq_of_beq h
      simp only [kind, contentBy, hseverity, hmessage, and_self]
    | _ => cases h

end Node

/-! ## Values -/

section Values

variable [Hasher]

namespace Value

/-- The value is well-formed, and no node of it carries an old digest. -/
structure Sound (v : Value) : Prop where
  wellFormed : v.WellFormed
  coherent : v.Coherent

theorem Sound.intro {v : Value} (hkeys : v.node.KeysApart meets)
    (hmemo : ∀ word ∈ v.node.memo, word = v.node.contentBy digest)
    (hparts : ∀ x ∈ v.parts, x.Sound) : v.Sound :=
  ⟨.intro hkeys fun x hx => (hparts x hx).wellFormed,
    .intro hmemo fun x hx => (hparts x hx).coherent⟩

/-- A leaf that carries no digest is sound. -/
theorem Sound.leaf {v : Value} (hleaf : v.node.leaf?.isSome = true) (hmemo : v.node.memo = none) :
    v.Sound := by
  have hlayer : v.node.KeysApart meets ∧ v.parts = [] := by
    cases v with
    | template t => cases hleaf
    | list l => cases hleaf
    | map m => cases hleaf
    | call c => cases hleaf
    | operation e => cases hleaf
    | _ => exact ⟨trivial, rfl⟩
  refine .intro hlayer.1 (fun word h => ?_) fun x h => ?_
  · rw [hmemo] at h
    cases h
  · rw [hlayer.2] at h
    cases h

theorem Sound.part {v x : Value} (h : v.Sound) (hx : x ∈ v.parts) : x.Sound :=
  ⟨h.wellFormed.part x hx, h.coherent.part x hx⟩

theorem digest_eq_of_meets {a b : Value} (h : a.meets b = true) : a.digest = b.digest :=
  beq_iff_eq.1 (Bool.and_eq_true_iff.1 h).1

/-- The digests never keep a sound key from being found. -/
theorem Sound.meets_eq_beq {a b : Value} (ha : a.Sound) (hb : b.Sound) :
    a.meets b = a.beq b := by
  induction a using Value.induction generalizing b with
  | step a ih =>
    cases hab : a.beq b with
    | false =>
      unfold meets
      rw [hab, Bool.and_false]
    | true =>
      -- The right value is general in the induction: a key may find its partner at any place.
      have hagree : AgreeOn beq digest a.parts b.parts := fun x hx y hy hxy =>
        digest_eq_of_meets ((ih x hx (ha.part hx) (hb.part hy)).trans hxy)
      obtain ⟨hkind, hcontent⟩ := Node.contentBy_eq_of_beqBy ha.wellFormed.here hb.wellFormed.here
        (fun x hx => x.exchanges_meets (ha.wellFormed.part x hx)) ha.wellFormed.part
        hb.wellFormed.part (fun _ _ _ _ => digest_eq_of_meets) hagree
        ((beq_eq_beqBy_node a b).symm.trans hab)
      have hdigest : a.digest = b.digest := by
        rw [ha.coherent.digest_eq, hb.coherent.digest_eq, hkind, hcontent]
      rw [meets_of_digest_eq hdigest, hab]

/-- **Equal values have equal digests**, whether their nodes carry digests or not. -/
theorem digest_eq_of_beq {a b : Value} (ha : a.Sound) (hb : b.Sound) (h : a.beq b = true) :
    a.digest = b.digest :=
  digest_eq_of_meets ((ha.meets_eq_beq hb).trans h)

end Value

end Values

namespace Value

/-- An inch with red and a text with null. -/
def inches : MapOf Value where
  entries :=
    [(.number (.ofText .nowhere 1 "in"), .color (.ofRgb .nowhere 255 0 0 1)),
      (.text .nowhere "k", .null .nowhere)]
  span := .nowhere

/-- The same pairs in another order, the inch in pixels and red by its hue. -/
def pixels : MapOf Value where
  entries :=
    [(.text .nowhere "k", .null .nowhere),
      (.number (.ofText .nowhere 96 "px"), .color (.ofHsl .nowhere 0 1 0.5 1))]
  span := .nowhere

/-- The map of pixels, carrying its digest. -/
def pixelsDigested : Value := map { pixels with memo := some pixels.digest }

theorem sound_inches : (map inches).Sound := by
  refine .intro (List.pairwise_pair.2 (by decide +kernel)) (fun _ h => by cases h) fun x hx => ?_
  have hparts : x ∈ inches.entries.map Prod.fst ++ inches.entries.map Prod.snd := hx
  simp only [inches, List.map_cons, List.map_nil, List.cons_append, List.nil_append,
    List.mem_cons, List.not_mem_nil, or_false] at hparts
  rcases hparts with rfl | rfl | rfl | rfl <;> exact .leaf rfl rfl

theorem sound_pixelsDigested : pixelsDigested.Sound := by
  refine .intro (List.pairwise_pair.2 (by decide +kernel)) (fun word h => ?_) fun x hx => ?_
  · obtain rfl : pixels.digest = word := Option.some.inj h
    decide +kernel
  · have hparts : x ∈ pixels.entries.map Prod.fst ++ pixels.entries.map Prod.snd := hx
    simp only [pixels, List.map_cons, List.map_nil, List.cons_append, List.nil_append,
      List.mem_cons, List.not_mem_nil, or_false] at hparts
    rcases hparts with rfl | rfl | rfl | rfl <;> exact .leaf rfl rfl

/-- Two spellings of one map, of which the second carries its digest, have one digest. -/
theorem digest_eq_of_beq_inches :
    (map inches).beq pixelsDigested = true ∧ (map inches).digest = pixelsDigested.digest := by
  have hbeq : (map inches).beq pixelsDigested = true := by decide +kernel
  exact ⟨hbeq, digest_eq_of_beq sound_inches sound_pixelsDigested hbeq⟩

end Value

end Stylesheet
