import Stylesheet.Proofs.Digest.Agreement
import Stylesheet.Proofs.Value.Unseen

/-!
# Values without their digests

A value is undigested (`Value.undigested`) when no node of it carries a digest at any depth. Where
every node carries the digest of its present content, this is not seen
(`Value.Coherent.beq_undigested`). Where a node carries an old digest, equal keys of a map may not
meet, and they do as soon as the digests are gone.

Values have the same content (`Value.sameContent`) when they are equal once they are undigested. A
value is well-formed when no two keys of a map meet, and distinct (`Value.Distinct`) when no two
keys have the same content. On distinct values to have the same content is an equality by content
alone (`Value.Distinct.sameContent_eq`), and it follows from equality (`Value.sameContent_of_beq`).
**Sound values are distinct (`Value.Sound.distinct`)**, and have the same content exactly if they
are equal.
-/

namespace Stylesheet

variable {α β : Type} {test test' eq eq' : α → α → Bool}

/-! ## Keys of replaced parts -/

theorem Node.keysApart_mapParts {f : α → β} {test : β → β → Bool} {n : Node α} :
    (n.mapParts f).KeysApart test ↔ n.KeysApart fun x y => test (f x) (f y) := by
  cases n with
  | list l =>
    show Entries.Apart sameName (l.map f).countedKeywords ↔ _
    rw [ListOf.countedKeywords_map]
    exact List.pairwise_map
  | map m => exact List.pairwise_map
  | _ => exact Iff.rfl

theorem Node.keysApart_congr {n : Node α}
    (h : ∀ x ∈ n.parts, ∀ y ∈ n.parts, test x y = test' x y) :
    n.KeysApart test ↔ n.KeysApart test' := by
  cases n with
  | map m =>
    exact List.Pairwise.iff_of_mem fun {e f} he hf => by
      rw [h e.1 (MapOf.key_mem_parts he) f.1 (MapOf.key_mem_parts hf)]
  | _ => exact Iff.rfl

/-! ## Equality under a weaker comparison -/

theorem isEqv_mono {as bs : List α}
    (h : ∀ x ∈ as, ∀ y ∈ bs, eq x y = true → eq' x y = true) (heq : as.isEqv bs eq = true) :
    as.isEqv bs eq' = true := by
  rw [isEqv_iff_forall₂, List.forall₂_iff_get] at heq ⊢
  exact ⟨heq.1, fun i hi hi' =>
    h _ (List.get_mem as ⟨i, hi⟩) _ (List.get_mem bs ⟨i, hi'⟩) (heq.2 i hi hi')⟩

namespace Entries

variable {κ : Type} {as bs : List (κ × α)}

theorem beqBy_mono_eq {test : κ → κ → Bool}
    (h : ∀ e ∈ as, ∀ f ∈ bs, eq e.2 f.2 = true → eq' e.2 f.2 = true)
    (heq : beqBy test eq as bs = true) : beqBy test eq' as bs = true := by
  obtain ⟨hlen, hall⟩ := Bool.and_eq_true_iff.1 heq
  refine Bool.and_eq_true_iff.2 ⟨hlen, List.all_eq_true.2 fun e he => ?_⟩
  obtain ⟨v, hv, hev⟩ := (Option.any_eq_true _ _).1 (List.all_eq_true.1 hall e he)
  obtain ⟨f, hf, -, rfl⟩ := mem_of_find?_eq_some hv
  exact (Option.any_eq_true _ _).2 ⟨f.2, hv, h e he f hf hev⟩

/-- A weaker test finds the same entries where it finds no more than one. -/
theorem beqBy_mono_test {test test' : κ → κ → Bool}
    (h : ∀ e ∈ as, ∀ f ∈ bs, test e.1 f.1 = true → test' e.1 f.1 = true)
    (hunique : ∀ e ∈ as, ∀ f ∈ bs, ∀ g ∈ bs, test' e.1 f.1 = true → test' e.1 g.1 = true → f = g)
    (heq : beqBy test eq as bs = true) : beqBy test' eq as bs = true := by
  obtain ⟨hlen, hall⟩ := Bool.and_eq_true_iff.1 heq
  refine Bool.and_eq_true_iff.2 ⟨hlen, List.all_eq_true.2 fun e he => ?_⟩
  obtain ⟨v, hv, hev⟩ := (Option.any_eq_true _ _).1 (List.all_eq_true.1 hall e he)
  obtain ⟨f, hf, hef, rfl⟩ := mem_of_find?_eq_some hv
  cases hfind : find? (test' e.1) bs with
  | none =>
    have hnone := List.find?_eq_none.1 (Option.map_eq_none_iff.1 hfind) f hf
    exact absurd (h e he f hf hef) hnone
  | some v =>
    obtain ⟨g, hg, heg, rfl⟩ := mem_of_find?_eq_some hfind
    rwa [hunique e he g hg f hf heg (h e he f hf hef)]

end Entries

theorem Fragment.beqBy_mono {g g' : Fragment α}
    (h : ∀ x ∈ g.parts, ∀ y ∈ g'.parts, eq x y = true → eq' x y = true)
    (heq : g.beqBy eq g' = true) : g.beqBy eq' g' = true := by
  cases g with
  | text s => cases g' <;> exact heq
  | hole v =>
    cases g' with
    | text s => exact heq
    | hole w => exact h v (hole_mem_parts v) w (hole_mem_parts w) heq

theorem Template.beqBy_mono {t u : Template α}
    (h : ∀ x ∈ t.parts, ∀ y ∈ u.parts, eq x y = true → eq' x y = true)
    (heq : t.beqBy eq u = true) : t.beqBy eq' u = true := by
  refine isEqv_mono (fun g hg g' hg' => Fragment.beqBy_mono fun x hx y hy => ?_) heq
  exact h x (mem_parts hg hx) y (mem_parts hg' hy)

theorem ListOf.beqBy_mono {l k : ListOf α}
    (h : ∀ x ∈ l.parts, ∀ y ∈ k.parts, eq x y = true → eq' x y = true)
    (heq : l.beqBy eq k = true) : l.beqBy eq' k = true := by
  obtain ⟨hrest, hkeywords⟩ := Bool.and_eq_true_iff.1 heq
  obtain ⟨hshape, hitems⟩ := Bool.and_eq_true_iff.1 hrest
  have hitems' : l.items.isEqv k.items eq' = true :=
    isEqv_mono (fun x hx y hy => h x (item_mem_parts hx) y (item_mem_parts hy)) hitems
  have hkeywords' : Entries.beqBy sameName eq' l.countedKeywords k.countedKeywords = true :=
    Entries.beqBy_mono_eq
      (fun e he f hf => h e.2 (keyword_mem_parts he) f.2 (keyword_mem_parts hf)) hkeywords
  exact Bool.and_eq_true_iff.2 ⟨Bool.and_eq_true_iff.2 ⟨hshape, hitems'⟩, hkeywords'⟩

/-- A weaker test of keys may not let a key meet two entries. -/
theorem MapOf.beqBy_mono {m k : MapOf α}
    (htest : ∀ x ∈ m.parts, ∀ y ∈ k.parts, test x y = true → test' x y = true)
    (h : ∀ x ∈ m.parts, ∀ y ∈ k.parts, eq x y = true → eq' x y = true)
    (hunique : ∀ x ∈ m.parts, ∀ f ∈ k.entries, ∀ g ∈ k.entries,
      test' x f.1 = true → test' x g.1 = true → f = g)
    (heq : m.beqBy test eq k = true) : m.beqBy test' eq' k = true := by
  have hentries := Entries.beqBy_mono_test
    (fun e he f hf => htest e.1 (key_mem_parts he) f.1 (key_mem_parts hf))
    (fun e he => hunique e.1 (key_mem_parts he)) heq
  exact Entries.beqBy_mono_eq
    (fun e he f hf => h e.2 (value_mem_parts he) f.2 (value_mem_parts hf)) hentries

theorem Call.beqBy_mono {c d : Call α}
    (h : ∀ x ∈ c.parts, ∀ y ∈ d.parts, eq x y = true → eq' x y = true)
    (heq : c.beqBy eq d = true) : c.beqBy eq' d = true := by
  obtain ⟨hcalled, harguments⟩ := Bool.and_eq_true_iff.1 heq
  refine Bool.and_eq_true_iff.2 ⟨hcalled, isEqv_mono (fun a ha b hb hab => ?_) harguments⟩
  obtain ⟨hmarks, hval⟩ := Bool.and_eq_true_iff.1 hab
  exact Bool.and_eq_true_iff.2
    ⟨hmarks, h a.value (argument_mem_parts ha) b.value (argument_mem_parts hb) hval⟩

theorem Operation.beqBy_mono {e f : Operation α}
    (h : ∀ x ∈ e.parts, ∀ y ∈ f.parts, eq x y = true → eq' x y = true)
    (heq : e.beqBy eq f = true) : e.beqBy eq' f = true := by
  obtain ⟨hrest, hright⟩ := Bool.and_eq_true_iff.1 heq
  obtain ⟨hop, hleft⟩ := Bool.and_eq_true_iff.1 hrest
  have hleft' := h e.left e.left_mem_parts f.left f.left_mem_parts hleft
  have hright' := h e.right e.right_mem_parts f.right f.right_mem_parts hright
  exact Bool.and_eq_true_iff.2 ⟨Bool.and_eq_true_iff.2 ⟨hop, hleft'⟩, hright'⟩

/-- Equal layers are equal under a weaker comparison, if the keys of maps meet one key each. -/
theorem Node.beqBy_mono {n m : Node α}
    (htest : ∀ x ∈ n.parts, ∀ y ∈ m.parts, test x y = true → test' x y = true)
    (heq : ∀ x ∈ n.parts, ∀ y ∈ m.parts, eq x y = true → eq' x y = true)
    (hunique : ∀ x ∈ n.parts, ∀ k, m = .map k → ∀ f ∈ k.entries, ∀ g ∈ k.entries,
      test' x f.1 = true → test' x g.1 = true → f = g)
    (h : n.beqBy test eq m = true) : n.beqBy test' eq' m = true := by
  cases n with
  | template t =>
    cases m with
    | template u => exact Template.beqBy_mono heq h
    | _ => cases h
  | list l =>
    cases m with
    | list k => exact ListOf.beqBy_mono heq h
    | _ => cases h
  | map k =>
    cases m with
    | map k' => exact MapOf.beqBy_mono htest heq (fun x hx => hunique x hx k' rfl) h
    | _ => cases h
  | call c =>
    cases m with
    | call d => exact Call.beqBy_mono heq h
    | _ => cases h
  | operation e =>
    cases m with
    | operation f => exact Operation.beqBy_mono heq h
    | _ => cases h
  | _ => cases m <;> exact h

/-! ## Without digests -/

/-- The colour without the digest it carries. -/
def Color.undigested : Color → Color
  | .rgb c => .rgb { c with memo := none }
  | .hsl c => .hsl { c with memo := none }

namespace Value

/-- The value, its topmost node without the digest it carries. -/
def undigest : Value → Value
  | .number n => .number { n with memo := none }
  | .color c => .color c.undigested
  | .string s => .string { s with memo := none }
  | .template t => .template { t with memo := none }
  | .list l => .list { l with memo := none }
  | .map m => .map { m with memo := none }
  | .call c => .call { c with memo := none }
  | .operation e => .operation { e with memo := none }
  | v => v

/-- The value without a digest at any depth. -/
def undigested : Value → Value := everywhere undigest

/-- **The digest that a node carries is not seen.** -/
theorem unseen_undigest : Unseen undigest where
  parts v := by cases v <;> rfl
  compared test eq v w := by
    have hcolor : ∀ a b : Color, a.undigested.beq b.undigested = a.beq b := fun a b => by
      cases a <;> cases b <;> rfl
    cases v with
    | color a =>
      cases w with
      | color b => exact hcolor a b
      | _ => rfl
    | _ => cases w <;> rfl
  kind v := by cases v <;> rfl
  content d v := by
    cases v with
    | color c => cases c <;> rfl
    | _ => rfl
  prints v := by
    cases v with
    | color c => cases c <;> exact ⟨fun _ _ => rfl, rfl, fun _ _ => rfl, fun _ => rfl⟩
    | _ => exact ⟨fun _ _ => rfl, rfl, fun _ _ => rfl, fun _ => rfl⟩

theorem memo_undigested (v : Value) : v.undigested.node.memo = none := by
  rw [undigested, everywhere_eq]
  cases v with
  | color c => cases c <;> rfl
  | _ => rfl

theorem parts_undigested (v : Value) : v.undigested.parts = v.parts.map undigested :=
  parts_everywhere unseen_undigest.parts v

variable {v w : Value}

theorem keysApart_undigested {test : Value → Value → Bool} :
    v.undigested.node.KeysApart test ↔
      v.node.KeysApart fun x y => test x.undigested y.undigested := by
  have htop : ∀ v : Value, v.undigest.node.KeysApart test ↔ v.node.KeysApart test := fun v => by
    cases v <;> exact Iff.rfl
  rw [undigested, everywhere_eq, htop, node_mapParts, Node.keysApart_mapParts]

variable [Hasher]

theorem coherent_undigested (v : Value) : v.undigested.Coherent :=
  (each_everywhere_iff unseen_undigest.parts (Q := fun _ => True) fun v =>
    iff_true_intro fun word hword => by
      rw [show (v.everywhere undigest).node.memo = none from v.memo_undigested] at hword
      cases hword).2 (.of_forall (fun _ => trivial) v)

/-! ## Coherent values -/

/-- A coherent value is digested as if no digest were carried. -/
theorem Coherent.digest_undigested (h : v.Coherent) : v.undigested.digest = v.digest := by
  induction v using Value.induction with
  | step v ih =>
    have hparts : ∀ x ∈ v.parts, x.undigested.digest = x.digest := fun x hx =>
      ih x hx (h.part x hx)
    rw [v.coherent_undigested.digest_eq, h.digest_eq, undigested,
      unseen_undigest.kind_everywhere, unseen_undigest.contentBy_everywhere hparts]

theorem Coherent.each_digest_undigested (h : v.Coherent) :
    v.Each fun x => x.undigested.digest = x.digest := by
  induction v using Value.induction with
  | step v ih => exact .intro h.digest_undigested fun x hx => ih x hx (h.part x hx)

/-- Coherent values compare as if no digests were carried. -/
theorem Coherent.beq_undigested (hv : v.Coherent) (hw : w.Coherent) :
    v.undigested.beq w.undigested = v.beq w :=
  unseen_undigest.beq_everywhere hv.each_digest_undigested hw.each_digest_undigested

theorem Coherent.meets_undigested (hv : v.Coherent) (hw : w.Coherent) :
    v.undigested.meets w.undigested = v.meets w := by
  unfold meets
  rw [hv.digest_undigested, hw.digest_undigested, hv.beq_undigested hw]

/-! ## Content -/

/-- Whether two values are equal, whatever digests their nodes carry. -/
def sameContent (v w : Value) : Bool := v.undigested.beq w.undigested

/-- At every depth the names of keywords are distinct, and no two keys of a map have the same
content. -/
def Distinct (v : Value) : Prop := v.undigested.WellFormed

namespace Distinct

theorem part (h : v.Distinct) : ∀ x ∈ v.parts, x.Distinct := fun x hx =>
  Each.part h x.undigested (v.parts_undigested ▸ List.mem_map_of_mem hx)

/-- Without digests, keys meet if they have the same content. -/
theorem meets_undigested (hv : v.Distinct) (hw : w.Distinct) :
    v.undigested.meets w.undigested = v.sameContent w :=
  Sound.meets_eq_beq ⟨hv, v.coherent_undigested⟩ ⟨hw, w.coherent_undigested⟩

theorem here (h : v.Distinct) : v.node.KeysApart sameContent :=
  (Node.keysApart_congr fun x hx y hy => (h.part x hx).meets_undigested (h.part y hy)).1
    (keysApart_undigested.1 (Each.here h))

theorem intro (hkeys : v.node.KeysApart sameContent) (hparts : ∀ x ∈ v.parts, x.Distinct) :
    v.Distinct := by
  refine Each.intro (keysApart_undigested.2 ?_) fun y hy => ?_
  · exact (Node.keysApart_congr fun x hx y hy =>
      (hparts x hx).meets_undigested (hparts y hy)).2 hkeys
  · obtain ⟨x, hx, rfl⟩ := List.mem_map.1 (v.parts_undigested ▸ hy)
    exact hparts x hx

/-- On distinct values the same content is equality of layers, with itself for keys and parts. -/
theorem sameContent_eq (hv : v.Distinct) (hw : w.Distinct) :
    v.sameContent w = v.node.beqBy sameContent sameContent w.node :=
  (unseen_undigest.beq_everywhere_eq v w).trans (Node.beqBy_congr
    (fun x hx y hy => (hv.part x hx).meets_undigested (hw.part y hy)) fun _ _ _ _ => rfl)

theorem exchanges (h : v.Distinct) : Exchanges sameContent Distinct v :=
  Exchanges.comap (f := undigested) (v.undigested.exchanges h)

theorem sameContent_self (h : v.Distinct) : v.sameContent v = true := v.undigested.beq_self h

end Distinct

/-- Distinct values that are equal have the same content. -/
theorem sameContent_of_beq (hv : v.Distinct) (hw : w.Distinct) (h : v.beq w = true) :
    v.sameContent w = true := by
  induction v using Value.induction generalizing w with
  | step v ih =>
    have hparts : ∀ x ∈ v.parts, ∀ y ∈ w.parts, x.beq y = true → x.sameContent y = true :=
      fun x hx y hy => ih x hx (hv.part x hx) (hw.part y hy)
    rw [hv.sameContent_eq hw]
    rw [beq_eq_beqBy_node] at h
    refine Node.beqBy_mono (fun x hx y hy hxy => hparts x hx y hy (beq_of_meets hxy)) hparts
      (fun x hx k hk f hf g hg hxf hxg => ?_) h
    -- Two keys of the right with the content of one key of the left have the same content.
    have hkey : ∀ e ∈ k.entries, e.1.Distinct := fun e he => hw.part e.1 (by
      rw [parts, hk]
      exact MapOf.key_mem_parts he)
    have hex := (hv.part x hx).exchanges
    have hfg : f.1.sameContent g.1 = true := ((hex f.1 (hkey f hf) hxf).2 g.1 (hkey g hg)).trans hxg
    have hgf : g.1.sameContent f.1 = true := ((hex g.1 (hkey g hg) hxg).2 f.1 (hkey f hf)).trans hxf
    have hapart : Entries.Apart sameContent k.entries := by
      have hkeys := hw.here
      rwa [hk] at hkeys
    exact hapart.eq_of_test hf hg hfg hgf

/-- **The keys of a sound value are distinct.** -/
theorem Sound.distinct (h : v.Sound) : v.Distinct := by
  induction v using Value.induction with
  | step v ih =>
    refine Each.intro (keysApart_undigested.2 ?_) fun y hy => ?_
    · exact (Node.keysApart_congr fun x hx y hy =>
        (h.part hx).coherent.meets_undigested (h.part hy).coherent).2 h.wellFormed.here
    · obtain ⟨x, hx, rfl⟩ := List.mem_map.1 (v.parts_undigested ▸ hy)
      exact ih x hx (h.part hx)

end Value

end Stylesheet
