import Stylesheet.Proofs.Equality.Layer

/-!
# Equality of values is an equivalence

**Theorem (`Value.beq_equivalence`).** On values whose maps have keys of which no two meet, equality
is reflexive, symmetric and transitive, and a comparison that stops at shared cells of a memory
(`Memory.Compares`) gives the same answer, whatever is shared. It is so for every hash, and whatever
digests the nodes carry. Pairwise unequal keys are a case of keys of which no two meet.

The test for maps looks in one direction only, so symmetry of maps needs transitivity of keys and
transitivity of maps needs symmetry of keys. Both are therefore proved at once, as the property
that equals can be exchanged (`Value.exchanges`): one lemma for each compound layer, and induction
on the left value. A key meets another one if they are equal and have one digest, and so keys that
meet can be exchanged too (`Value.exchanges_meets`). Reflexivity comes after it, because a map finds
its own keys only if no other key meets them in either direction.

No two keys of a map meet after a pair is put, if none did before (`Value.wellFormed_insert`).
-/

namespace Stylesheet

variable {α : Type} {test eq : α → α → Bool} {p : α → Prop}

/-! ## Layers with keys apart -/

/-- The names of keywords are distinct, and no key of a map meets another one. -/
def Node.KeysApart (test : α → α → Bool) : Node α → Prop
  | .list l => Entries.Apart sameName l.countedKeywords
  | .map m => Entries.Apart test m.entries
  | _ => True

theorem exchanges_sameName (name : String) : Exchanges sameName (fun _ => True) name :=
  Exchanges.of_key id (fun x y => by rw [sameName, beq_iff_eq]; exact eq_comm) name

/-! ## Exchange in compound layers -/

theorem Fragment.exchanges {g : Fragment α} (h : ∀ x ∈ g.parts, Exchanges eq p x) :
    Exchanges (Fragment.beqBy eq) (fun g => ∀ x ∈ g.parts, p x) g := by
  cases g with
  | text s =>
    have htext : Exchanges (fun s s' : String => s == s') (fun _ => True) s :=
      Exchanges.of_key id (fun _ _ => beq_iff_eq) s
    refine Exchanges.wrap (fun _ _ => rfl) ?_ (fun _ _ => trivial) htext
    intro s b hb
    cases b with
    | text s' => exact ⟨s', rfl⟩
    | hole w => cases hb
  | hole v =>
    have hv : Exchanges eq p v := h v (hole_mem_parts v)
    refine Exchanges.wrap (fun _ _ => rfl) ?_ (fun y hy => hy y (hole_mem_parts y)) hv
    intro v b hb
    cases b with
    | text s => cases hb
    | hole w => exact ⟨w, rfl⟩

theorem Template.exchanges {t : Template α} (h : ∀ x ∈ t.parts, Exchanges eq p x) :
    Exchanges (Template.beqBy eq) (fun u => ∀ x ∈ u.parts, p x) t := by
  have hpieces : ∀ g ∈ t.fragments,
      Exchanges (Fragment.beqBy eq) (fun g => ∀ x ∈ g.parts, p x) g := fun g hg =>
    Fragment.exchanges fun x hx => h x (mem_parts hg hx)
  exact (Exchanges.comap (f := Template.fragments) (Exchanges.isEqv hpieces)).mono
    fun u hu g hg x hx => hu x (mem_parts hg hx)

theorem Argument.exchanges {a : Argument α} (h : Exchanges eq p a.value) :
    Exchanges (Argument.beqBy eq) (fun b => p b.value) a := by
  have hmarks : Exchanges (fun a b : Argument α =>
      a.rest == b.rest && a.keywordRest == b.keywordRest && a.name? == b.name?)
      (fun b => p b.value) a :=
    Exchanges.of_key (fun a => (a.rest, a.keywordRest, a.name?)) (fun x y => by simp [and_assoc]) a
  exact hmarks.and (Exchanges.comap (f := Argument.value) h)

theorem ListOf.exchanges {l : ListOf α} (hkeys : Entries.Apart sameName l.countedKeywords)
    (hp : ∀ x ∈ l.parts, p x) (h : ∀ x ∈ l.parts, Exchanges eq p x) :
    Exchanges (ListOf.beqBy eq)
      (fun k => Entries.Apart sameName k.countedKeywords ∧ ∀ x ∈ k.parts, p x) l := by
  have hshape : Exchanges (fun a b : ListOf α =>
      a.separator == b.separator && a.bracketed == b.bracketed && a.arglist == b.arglist)
      (fun _ => True) l :=
    Exchanges.of_key (fun a => (a.separator, a.bracketed, a.arglist))
      (fun x y => by simp [and_assoc]) l
  have hitems : Exchanges (fun a b : ListOf α => a.items.isEqv b.items eq)
      (fun b => ∀ x ∈ b.items, p x) l :=
    Exchanges.comap (Exchanges.isEqv fun x hx => h x (item_mem_parts hx))
  have hkeywords : Exchanges
      (fun a b : ListOf α => Entries.beqBy sameName eq a.countedKeywords b.countedKeywords)
      (fun b => Entries.Apart sameName b.countedKeywords ∧
        ∀ e ∈ b.countedKeywords, True ∧ p e.2) l :=
    Exchanges.comap (Entries.exchanges_beqBy (fun e _ => exchanges_sameName e.1)
      (fun e he => h e.2 (keyword_mem_parts he))
      (fun e he => ⟨trivial, hp e.2 (keyword_mem_parts he)⟩) hkeys)
  refine ((hshape.mono fun _ _ => trivial).and (hitems.mono ?_)).and (hkeywords.mono ?_)
  · exact fun k hk x hx => hk.2 x (item_mem_parts hx)
  · exact fun k hk => ⟨hk.1, fun e he => ⟨trivial, hk.2 e.2 (keyword_mem_parts he)⟩⟩

theorem MapOf.exchanges {m : MapOf α} (hkeys : Entries.Apart test m.entries)
    (hp : ∀ x ∈ m.parts, p x) (htest : ∀ x ∈ m.parts, Exchanges test p x)
    (h : ∀ x ∈ m.parts, Exchanges eq p x) :
    Exchanges (MapOf.beqBy test eq) (fun k => Entries.Apart test k.entries ∧ ∀ x ∈ k.parts, p x)
      m := by
  have hentries := Exchanges.comap (f := MapOf.entries)
    (Entries.exchanges_beqBy (fun e he => htest e.1 (key_mem_parts he))
      (fun e he => h e.2 (value_mem_parts he))
      (fun e he => ⟨hp e.1 (key_mem_parts he), hp e.2 (value_mem_parts he)⟩) hkeys)
  exact hentries.mono fun k hk =>
    ⟨hk.1, fun e he => ⟨hk.2 e.1 (key_mem_parts he), hk.2 e.2 (value_mem_parts he)⟩⟩

/-- What a call is known by besides its arguments. -/
def Callee.identity : Callee → Option ((Signature × Bool) ⊕ Native)
  | .named => none
  | .function f => some (.inl f.identity)
  | .native f => some (.inr f)

theorem Callee.beq_iff_identity {a b : Callee} : a.beq b = true ↔ a.identity = b.identity := by
  cases a <;> cases b <;> simp [Callee.beq, Callee.identity, FunctionRef.beq_iff_identity]

theorem Call.exchanges {c : Call α} (h : ∀ x ∈ c.parts, Exchanges eq p x) :
    Exchanges (Call.beqBy eq) (fun d => ∀ x ∈ d.parts, p x) c := by
  have hcalled : Exchanges (fun a b : Call α => a.name == b.name && a.callee.beq b.callee)
      (fun _ => True) c :=
    Exchanges.of_key (fun a => (a.name, a.callee.identity))
      (fun x y => by simp [Callee.beq_iff_identity]) c
  have harguments := Exchanges.comap (f := Call.arguments) (Exchanges.isEqv
    fun a ha => Argument.exchanges (h a.value (argument_mem_parts ha)))
  refine (hcalled.mono fun _ _ => trivial).and (harguments.mono ?_)
  exact fun d hd a ha => hd a.value (argument_mem_parts ha)

theorem Operation.exchanges {e : Operation α} (h : ∀ x ∈ e.parts, Exchanges eq p x) :
    Exchanges (Operation.beqBy eq) (fun f => ∀ x ∈ f.parts, p x) e := by
  have hop : Exchanges (fun a b : Operation α => a.operand.op == b.operand.op) (fun _ => True) e :=
    Exchanges.of_key (fun a => a.operand.op) (fun _ _ => beq_iff_eq) e
  have hleft := Exchanges.comap (f := Operation.left) (h e.left e.left_mem_parts)
  have hright := Exchanges.comap (f := Operation.right) (h e.right e.right_mem_parts)
  refine ((hop.mono fun _ _ => trivial).and (hleft.mono ?_)).and (hright.mono ?_)
  · exact fun f hf => hf f.left f.left_mem_parts
  · exact fun f hf => hf f.right f.right_mem_parts

/-! ## Exchange in layers -/

/-- A layer can be exchanged where its parts can. -/
theorem Node.exchanges {n : Node α} (hkeys : n.KeysApart test) (hp : ∀ x ∈ n.parts, p x)
    (htest : ∀ x ∈ n.parts, Exchanges test p x) (h : ∀ x ∈ n.parts, Exchanges eq p x) :
    Exchanges (Node.beqBy test eq) (fun m => m.KeysApart test ∧ ∀ x ∈ m.parts, p x) n := by
  cases n with
  | template t =>
    refine Exchanges.wrap (fun _ _ => rfl) (fun t m hm => ?_) (fun _ hu => hu.2)
      (Template.exchanges h)
    cases m with
    | template u => exact ⟨u, rfl⟩
    | _ => cases hm
  | list l =>
    refine Exchanges.wrap (fun _ _ => rfl) (fun l m hm => ?_) (fun _ hk => hk)
      (ListOf.exchanges hkeys hp h)
    cases m with
    | list k => exact ⟨k, rfl⟩
    | _ => cases hm
  | map k =>
    refine Exchanges.wrap (fun _ _ => rfl) (fun k m hm => ?_) (fun _ hk => hk)
      (MapOf.exchanges hkeys hp htest h)
    cases m with
    | map k' => exact ⟨k', rfl⟩
    | _ => cases hm
  | call c =>
    refine Exchanges.wrap (fun _ _ => rfl) (fun c m hm => ?_) (fun _ hd => hd.2)
      (Call.exchanges h)
    cases m with
    | call d => exact ⟨d, rfl⟩
    | _ => cases hm
  | operation e =>
    refine Exchanges.wrap (fun _ _ => rfl) (fun e m hm => ?_) (fun _ hf => hf.2)
      (Operation.exchanges h)
    cases m with
    | operation f => exact ⟨f, rfl⟩
    | _ => cases hm
  | _ =>
    -- Without parts, equality is equality of what the layer is known by.
    intro m _ hnm
    have hleaf := (Node.beqBy_iff_leaf rfl m).1 hnm
    have hm : m.leaf?.isSome = true := by rw [← hleaf]; rfl
    refine ⟨(Node.beqBy_iff_leaf hm _).2 hleaf.symm, fun c _ => ?_⟩
    rw [Bool.eq_iff_iff, Node.beqBy_iff_leaf hm, Node.beqBy_iff_leaf rfl, hleaf]

/-! ## Reflexivity -/

theorem isEqv_self {as : List α} (h : ∀ a ∈ as, eq a a = true) : as.isEqv as eq = true :=
  isEqv_iff_forall₂.2 (List.forall₂_same.2 h)

/-- A layer equals itself where its parts equal themselves and can be exchanged. -/
theorem Node.beqBy_self {n : Node α} (hkeys : n.KeysApart test) (hp : ∀ x ∈ n.parts, p x)
    (htest : ∀ x ∈ n.parts, Exchanges test p x)
    (hself : ∀ x ∈ n.parts, test x x = true ∧ eq x x = true) : n.beqBy test eq n = true := by
  cases n with
  | template t =>
    refine isEqv_self fun g hg => ?_
    cases g with
    | text s => exact beq_self_eq_true s
    | hole v => exact (hself v (Template.mem_parts hg (Fragment.hole_mem_parts v))).2
  | list l =>
    have hitems : l.items.isEqv l.items eq = true := isEqv_self fun x hx =>
      (hself x (ListOf.item_mem_parts hx)).2
    have hkeywords : Entries.Matched sameName eq l.countedKeywords l.countedKeywords :=
      Entries.Matched.refl fun e he =>
        ⟨beq_self_eq_true e.1, (hself e.2 (ListOf.keyword_mem_parts he)).2⟩
    -- A keyword finds itself, because no other has its name.
    have hfound := (Entries.beqBy_iff_matched (fun e _ => exchanges_sameName e.1)
      (fun _ _ => trivial) (fun _ _ => trivial) hkeys hkeys).2 hkeywords
    show l.beqBy eq l = true
    simp [ListOf.beqBy, hitems, hfound]
  | map m =>
    have hmatched : Entries.Matched test eq m.entries m.entries :=
      Entries.Matched.refl fun e he =>
        ⟨(hself e.1 (MapOf.key_mem_parts he)).1, (hself e.2 (MapOf.value_mem_parts he)).2⟩
    have hpkey : ∀ e ∈ m.entries, p e.1 := fun e he => hp e.1 (MapOf.key_mem_parts he)
    exact (Entries.beqBy_iff_matched (fun e he => htest e.1 (MapOf.key_mem_parts he)) hpkey hpkey
      hkeys hkeys).2 hmatched
  | call c =>
    have hcallee : c.callee.beq c.callee = true := Callee.beq_iff_identity.2 rfl
    have harguments : c.arguments.isEqv c.arguments (Argument.beqBy eq) = true :=
      isEqv_self fun a ha => by
        simp [Argument.beqBy, (hself a.value (Call.argument_mem_parts ha)).2]
    show c.beqBy eq c = true
    simp [Call.beqBy, hcallee, harguments]
  | operation e =>
    show e.beqBy eq e = true
    simp [Operation.beqBy, (hself e.left e.left_mem_parts).2, (hself e.right e.right_mem_parts).2]
  | _ => exact (Node.beqBy_iff_leaf rfl _).2 rfl

theorem Entries.apart_iff_keys {κ : Type} {test : κ → κ → Bool} {as : List (κ × α)} :
    Apart test as ↔ (keys as).Pairwise fun x y => test x y = false := by
  unfold keys Apart
  rw [List.pairwise_map]

/-! ## Values -/

section Values

variable [Hasher]

namespace Value

/-- At every depth the names of keywords are distinct, and no key of a map meets another one. -/
def WellFormed : Value → Prop := Each fun v => v.node.KeysApart meets

/-- Keys that meet can be exchanged where equal ones can. -/
theorem exchanges_meets_of_beq {q : Value → Prop} {v : Value} (h : Exchanges beq q v) :
    Exchanges meets q v :=
  (Exchanges.of_key digest (fun _ _ => beq_iff_eq) v).and h

/-- Well-formed values can be exchanged. -/
theorem exchanges (v : Value) : v.WellFormed → Exchanges beq WellFormed v := by
  induction v using Value.induction with
  | step v ih =>
    intro hv
    have hparts : ∀ x ∈ v.parts, Exchanges beq WellFormed x := fun x hx => ih x hx (hv.part x hx)
    have hlayer := Node.exchanges hv.here hv.part
      (fun x hx => exchanges_meets_of_beq (hparts x hx)) hparts
    have hnode : Exchanges (fun a b : Value => a.node.beqBy meets beq b.node) WellFormed v :=
      (Exchanges.comap hlayer).mono fun w hw => ⟨hw.here, hw.part⟩
    intro b hb hvb
    rw [beq_eq_beqBy_node] at hvb
    obtain ⟨hbv, hsame⟩ := hnode b hb hvb
    refine ⟨(beq_eq_beqBy_node b v).trans hbv, fun c hc => ?_⟩
    rw [beq_eq_beqBy_node, beq_eq_beqBy_node]
    exact hsame c hc

/-- Keys that meet can be exchanged. -/
theorem exchanges_meets (v : Value) (hv : v.WellFormed) : Exchanges meets WellFormed v :=
  exchanges_meets_of_beq (v.exchanges hv)

theorem beq_of_meets {a b : Value} (h : a.meets b = true) : a.beq b = true :=
  (Bool.and_eq_true_iff.1 h).2

theorem meets_of_digest_eq {a b : Value} (hdigest : a.digest = b.digest) :
    a.meets b = a.beq b := by
  unfold meets
  rw [hdigest, beq_self_eq_true, Bool.true_and]

theorem beq_self (v : Value) : v.WellFormed → v.beq v = true := by
  induction v using Value.induction with
  | step v ih =>
    intro hv
    rw [beq_eq_beqBy_node]
    refine Node.beqBy_self hv.here hv.part (fun x hx => x.exchanges_meets (hv.part x hx))
      fun x hx => ?_
    have hself : x.beq x = true := ih x hx (hv.part x hx)
    exact ⟨(meets_of_digest_eq rfl).trans hself, hself⟩

theorem meets_self (v : Value) (hv : v.WellFormed) : v.meets v = true :=
  (meets_of_digest_eq rfl).trans (v.beq_self hv)

theorem beq_symm {a b : Value} (ha : a.WellFormed) (hb : b.WellFormed) (h : a.beq b = true) :
    b.beq a = true :=
  (a.exchanges ha b hb h).1

theorem beq_trans {a b c : Value} (ha : a.WellFormed) (hb : b.WellFormed) (hc : c.WellFormed)
    (hab : a.beq b = true) (hbc : b.beq c = true) : a.beq c = true :=
  ((a.exchanges ha b hb hab).2 c hc).symm.trans hbc

end Value

/-! ## Putting pairs -/

namespace Value

/-- Putting a pair keeps the keys apart. -/
theorem wellFormed_insert {m : MapOf Value} {key v : Value} (hm : (map m).WellFormed)
    (hkey : key.WellFormed) (hv : v.WellFormed) : (map (m.insert key v)).WellFormed := by
  have hkeys : ∀ e ∈ m.entries, e.1.WellFormed := fun e he =>
    hm.part e.1 (MapOf.key_mem_parts he)
  refine .intro (?_ : Entries.Apart meets (m.insert key v).entries) fun x hx => ?_
  · have hold := Entries.apart_iff_keys.1 (hm.here : Entries.Apart meets m.entries)
    rw [Entries.apart_iff_keys]
    show (Entries.keys (Entries.put (meets key) key v m.entries)).Pairwise _
    cases hany : (Entries.keys m.entries).any (meets key) with
    | true => rwa [Entries.keys_put_of_any key v hany]
    | false =>
      -- The new key comes last, so the others are compared with it and not it with them.
      rw [Entries.keys_put_of_not_any key v hany, List.pairwise_append]
      refine ⟨hold, List.pairwise_singleton _ _, fun x hx y hy => ?_⟩
      obtain ⟨e, he, rfl⟩ := List.mem_map.1 hx
      rw [List.mem_singleton.1 hy]
      refine Bool.eq_false_iff.2 fun hmeets => ?_
      have hback : key.meets e.1 = true := (e.1.exchanges_meets (hkeys e he) key hkey hmeets).1
      have hnone : ¬ key.meets e.1 = true := List.any_eq_false.1 hany e.1 hx
      exact hnone hback
  · rcases MapOf.mem_parts_insert hx with hx | rfl | rfl
    · exact hm.part x hx
    · exact hkey
    · exact hv

/-- A map of well-formed pairs, put in order, is well-formed. -/
theorem wellFormed_ofPairs (span : Span) {pairs : List (Value × Value)}
    (h : ∀ e ∈ pairs, e.1.WellFormed ∧ e.2.WellFormed) :
    (map (MapOf.ofPairs span pairs)).WellFormed := by
  have hrun : ∀ m : MapOf Value, (map m).WellFormed →
      (map (pairs.foldl (fun m e => m.insert e.1 e.2) m)).WellFormed := by
    induction pairs with
    | nil => exact fun m hm => hm
    | cons e pairs ih =>
      intro m hm
      obtain ⟨hkey, hv⟩ := h e List.mem_cons_self
      exact ih (fun f hf => h f (List.mem_cons_of_mem e hf)) (m.insert e.1 e.2)
        (wellFormed_insert hm hkey hv)
  exact hrun { span } (.intro List.Pairwise.nil fun x hx => by cases hx)

end Value

/-! ## Shared cells -/

/-- A memory: every handle points to a cell, which holds one layer over handles, and stands for a
well-formed value. Handles may share a cell. -/
structure Memory (H : Type) where
  node : H → Node H
  value : H → Value
  node_value : ∀ h, (value h).node = (node h).mapParts value
  wellFormed : ∀ h, (value h).WellFormed
  shares : H → H → Bool
  node_eq_of_shares : ∀ h k, shares h k = true → node h = node k

namespace Memory

variable {H : Type} (M : Memory H) {same : H → H → Bool}

/-- Whether a hash table of handles stops at a stored one: the two have one digest, and `same` says
that they are equal. -/
def meets (same : H → H → Bool) (h k : H) : Bool :=
  (M.value h).digest == (M.value k).digest && same h k

/-- A comparison of handles that looks into the cells only where they are not shared. -/
def Compares (same : H → H → Bool) : Prop :=
  ∀ h k, same h k = (M.shares h k || (M.node h).beqBy (M.meets same) same (M.node k))

/-- Looking into the cells with equality of values for the parts. -/
theorem beqBy_node (h k : H) : (M.node h).beqBy (fun x y => (M.value x).meets (M.value y))
      (fun x y => (M.value x).beq (M.value y)) (M.node k) =
    (M.value h).beq (M.value k) := by
  rw [Value.beq_eq_beqBy_node, M.node_value, M.node_value]
  exact (Node.beqBy_mapParts M.value Value.meets Value.beq (M.node h) (M.node k)).symm

/-- Handles that share a cell stand for equal values. -/
theorem beq_of_shares {h k : H} (hshares : M.shares h k = true) :
    (M.value h).beq (M.value k) = true := by
  have hnode : (M.value k).node = (M.value h).node := by
    rw [M.node_value, M.node_value, M.node_eq_of_shares h k hshares]
  rw [Value.beq_eq_beqBy_node, hnode, ← Value.beq_eq_beqBy_node]
  exact (M.value h).beq_self (M.wellFormed h)

/-- Equality of values is a comparison that can stop at shared cells. -/
theorem compares_beq : M.Compares fun h k => (M.value h).beq (M.value k) := by
  intro h k
  show (M.value h).beq (M.value k) = (M.shares h k ||
    (M.node h).beqBy (fun x y => (M.value x).meets (M.value y)) _ (M.node k))
  rw [beqBy_node]
  cases hshares : M.shares h k with
  | true => rw [Bool.true_or, M.beq_of_shares hshares]
  | false => rw [Bool.false_or]

variable {M}

/-- Stopping at shared cells gives the answer of the values. -/
theorem Compares.eq_beq (hsame : M.Compares same) {v : Value} :
    ∀ h k, M.value h = v → same h k = v.beq (M.value k) := by
  induction v using Value.induction with
  | step v ih =>
    rintro h k rfl
    -- The cell of `h` holds handles of smaller values, and no other handles are asked.
    have hparts : ∀ x ∈ (M.node h).parts, ∀ y, same x y = (M.value x).beq (M.value y) := by
      intro x hx y
      have hmem : M.value x ∈ (M.value h).parts := by
        rw [Value.parts, M.node_value, Node.parts_mapParts]
        exact List.mem_map_of_mem hx
      exact ih (M.value x) hmem x y rfl
    have hkeys : ∀ x ∈ (M.node h).parts, ∀ y,
        M.meets same x y = (M.value x).meets (M.value y) := fun x hx y => by
      rw [meets, hparts x hx y]
      rfl
    rw [hsame h k, Node.beqBy_congr (fun x hx y _ => hkeys x hx y) fun x hx y _ => hparts x hx y]
    exact (M.compares_beq h k).symm

end Memory

/-! ## The equivalence -/

/-- **Equality of values is an equivalence**, and the only comparison of handles, whatever cells
they share. -/
theorem Value.beq_equivalence :
    (Equivalence fun a b : { v : Value // v.WellFormed } => a.1.beq b.1 = true) ∧
      ∀ (H : Type) (M : Memory H) (same : H → H → Bool),
        M.Compares same ↔ ∀ h k, same h k = (M.value h).beq (M.value k) := by
  refine ⟨⟨?refl, ?symm, ?trans⟩, ?shared⟩
  case refl => exact fun a => a.1.beq_self a.2
  case symm => exact fun {a b} hab => beq_symm a.2 b.2 hab
  case trans => exact fun {a b c} hab hbc => beq_trans a.2 b.2 c.2 hab hbc
  case shared =>
    intro H M same
    constructor
    · exact fun hsame h k => hsame.eq_beq h k rfl
    · intro hsame
      obtain rfl : same = fun h k => (M.value h).beq (M.value k) := by
        funext h k
        exact hsame h k
      exact M.compares_beq

end Values

/-- The list of a NaN. -/
def nanList : Value := .spaceList .nowhere [.number (.plain .nowhere .nan)]

theorem wellFormed_nan : (Value.number (.plain .nowhere .nan)).WellFormed :=
  .intro trivial fun x hx => by cases hx

theorem wellFormed_nanList : nanList.WellFormed := by
  refine .intro List.Pairwise.nil fun x hx => ?_
  obtain rfl := List.mem_singleton.1 hx
  exact wellFormed_nan

/-- Three handles of a NaN, the first two of which share a cell, and a list of each. -/
def nanCells : Memory (Fin 3 ⊕ Fin 3) where
  node
    | .inl _ => .number (.plain .nowhere .nan)
    | .inr i => .list { items := [.inl i], span := .nowhere }
  value
    | .inl _ => .number (.plain .nowhere .nan)
    | .inr _ => nanList
  node_value
    | .inl _ => rfl
    | .inr _ => rfl
  wellFormed
    | .inl _ => wellFormed_nan
    | .inr _ => wellFormed_nanList
  shares
    | .inl i, .inl j => i == j || (i != 2 && j != 2)
    | .inr i, .inr j => i == j
    | _, _ => false
  node_eq_of_shares
    | .inl _, .inl _, _ => rfl
    | .inl _, .inr _, h => by cases h
    | .inr _, .inl _, h => by cases h
    | .inr _, .inr _, h => by cases beq_iff_eq.1 h; rfl

theorem nanCells_compares : nanCells.Compares fun h k => h.isLeft == k.isLeft := by
  have hnan : (Number.plain .nowhere .nan).beq (Number.plain .nowhere .nan) = true :=
    Number.beq_iff_identity.2 rfl
  rintro (i | i) (j | j)
  · exact ((congrArg (_ || ·) hnan).trans (Bool.or_true _)).symm
  · rfl
  · rfl
  · exact (Bool.or_true _).symm

/-- A list of a NaN equals itself, and a list of another NaN, whichever cells are shared. -/
theorem Value.beq_equivalence_nanCells :
    nanList.beq nanList = true ∧
      (nanCells.value (.inr 0)).beq (nanCells.value (.inr 2)) = true := by
  refine ⟨beq_equivalence.1.refl ⟨nanList, wellFormed_nanList⟩, ?_⟩
  exact ((beq_equivalence.2 _ nanCells _).1 nanCells_compares (.inr 0) (.inr 2)).symm

end Stylesheet
