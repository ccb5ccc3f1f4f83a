import Stylesheet.Proofs.Digest.Undigested
import Stylesheet.Proofs.Reduction.NormalForm
import Stylesheet.Proofs.Value.Print

/-!
# Reduction is idempotent

**Theorem (`Value.reduce_normalizes`).** In an environment that gives values in normal form, every
result of a reduction is in normal form, and a sound value in normal form reduces to one that equals
it and prints the same text, in every format and in inspections. The results of well-formed values
are well-formed and those of coherent values coherent, so what a sound value reduces to can be
reduced again with the same outcome.

Reducing a value in normal form rebuilds its lists and maps and loses their digests and some flags
on the way. What is lost shows neither in the content nor in texts: the new value is alike
(`Value.Alike`), member by member and so as a whole. That a map keeps all its pairs needs the most:
the reduced keys have the content of the old ones, so they are pairwise different in content, and no
put meets an equal key. Two keys of which one carries an old digest can stand side by side in a map
and meet when they are rebuilt, so it is the content of the keys that has to differ
(`Value.Distinct`).
-/

namespace Stylesheet

/-- Entries match those from which they come by replacing keys and values with equal ones. -/
theorem Entries.Matched.of_map {κ α : Type} {test : κ → κ → Bool} {eq : α → α → Bool}
    {k : κ → κ} {f : α → α} {as : List (κ × α)}
    (h : ∀ e ∈ as, test (k e.1) e.1 = true ∧ eq (f e.2) e.2 = true) :
    Matched test eq (as.map (Prod.map k f)) as :=
  ⟨as, .refl as, isEqv_iff_forall₂.2 (List.forall₂_map_left_iff.2
    (List.forall₂_same.2 fun e he => Bool.and_eq_true_iff.2 (h e he)))⟩

namespace Value

theorem countedKeywords_rebuilt (f : Value → Value) (l : ListOf Value) (items : List Value) :
    (l.rebuilt items (l.countedKeywords.map (Prod.map id f))).countedKeywords =
      l.countedKeywords.map (Prod.map id f) := by
  show (if l.arglist then l.countedKeywords.map (Prod.map id f) else []) = _
  unfold ListOf.countedKeywords
  split <;> rfl

section Hashed

variable [Hasher] {env : Environment} {v w : Value}

/-- Two values of the same content that no text tells apart. -/
structure Alike (v w : Value) : Prop where
  content : v.sameContent w = true
  render : ∀ f inspecting, render f inspecting v = render f inspecting w
  isInvisible : v.isInvisible = w.isInvisible
  enclose : ∀ outer text, enclose outer v text = enclose outer w text

theorem Alike.refl (h : v.Distinct) : Alike v v :=
  ⟨h.sameContent_self, fun _ _ => rfl, rfl, fun _ _ => rfl⟩

/-- Values that are alike print alike. A template splices the same for both: strings of the same
content have one text, whatever their quote marks. -/
theorem Alike.prints (h : Alike v w) : PrintsAlike v w where
  render := h.render
  isInvisible := h.isInvisible
  enclose := h.enclose
  spliced g := by
    have hcontent := h.content
    cases v with
    | string s =>
      cases w with
      | string s' => exact beq_iff_eq.1 hcontent
      | _ => cases hcontent
    | _ =>
      cases w with
      | string s' => cases hcontent
      | _ => exact h.render g false

/-! ## Rebuilt lists -/

theorem distinct_rebuilt {f : Value → Value} {l : ListOf Value}
    (hkeys : Entries.Apart sameName l.countedKeywords) (hf : ∀ x ∈ l.parts, (f x).Distinct) :
    (list (l.rebuilt (l.items.map f) (l.countedKeywords.map (Prod.map id f)))).Distinct := by
  refine .intro ?_ fun y hy => ?_
  · show Entries.Apart sameName (ListOf.countedKeywords _)
    rw [countedKeywords_rebuilt]
    exact List.pairwise_map.2 hkeys
  · rcases List.mem_append.1 hy with hy | hy
    · obtain ⟨x, hx, rfl⟩ := List.mem_map.1 hy
      exact hf x (ListOf.item_mem_parts hx)
    · rw [countedKeywords_rebuilt, List.map_map] at hy
      obtain ⟨e, he, rfl⟩ := List.mem_map.1 hy
      exact hf e.2 (ListOf.keyword_mem_parts he)

/-- A list is alike the one rebuilt of members that are alike. -/
theorem alike_rebuilt {f : Value → Value} {l : ListOf Value} (hl : (list l).Distinct)
    (hf : ∀ x ∈ l.parts, (f x).Distinct ∧ Alike (f x) x) :
    let k := l.rebuilt (l.items.map f) (l.countedKeywords.map (Prod.map id f))
    Alike (.list k) (.list l) := by
  intro k
  -- Keywords are not printed, so the list prints like the one whose parts are replaced.
  have hprints : PrintsAlike ((list l).mapParts f) (.list l) :=
    .mapParts fun x hx => (hf x hx).2.prints
  refine ⟨?content, hprints.render, hprints.isInvisible, hprints.enclose⟩
  have hkeys : Entries.Apart sameName l.countedKeywords := hl.here
  have hkeys' : Entries.Apart sameName (l.countedKeywords.map (Prod.map id f)) :=
    List.pairwise_map.2 hkeys
  have hequal : k.items.isEqv l.items sameContent = true :=
    isEqv_iff_forall₂.2 (List.forall₂_map_left_iff.2
      (List.forall₂_same.2 fun x hx => (hf x (ListOf.item_mem_parts hx)).2.content))
  have hmatched : Entries.Matched sameName sameContent (l.countedKeywords.map (Prod.map id f))
      l.countedKeywords := Entries.Matched.of_map fun e he =>
    ⟨beq_self_eq_true e.1, (hf e.2 (ListOf.keyword_mem_parts he)).2.content⟩
  have hkeywords := (Entries.beqBy_iff_matched (fun e _ => exchanges_sameName e.1)
    (fun _ _ => trivial) (fun _ _ => trivial) hkeys' hkeys).2 hmatched
  rw [(distinct_rebuilt hkeys fun x hx => (hf x hx).1).sameContent_eq hl]
  show k.beqBy sameContent l = true
  rw [ListOf.beqBy, countedKeywords_rebuilt, hkeywords, hequal]
  show ((l.separator == l.separator && l.bracketed == l.bracketed && l.arglist == l.arglist) &&
    true && true) = true
  simp

/-! ## Rebuilt maps -/

theorem keyEq_sameContent : Entries.KeyEq sameContent Distinct :=
  ⟨fun _ h => h.sameContent_self, fun _ h => h.exchanges⟩

/-- Keys of the content of distinct ones are distinct. -/
theorem apart_map_sameContent {f : Value → Value} {m : MapOf Value} (hm : (map m).Distinct)
    (hf : ∀ x ∈ m.parts, (f x).Distinct ∧ (f x).sameContent x = true) :
    Entries.Apart sameContent (m.entries.map (Prod.map f f)) := by
  have hapart : Entries.Apart sameContent m.entries := hm.here
  refine List.pairwise_map.2 (hapart.imp_of_mem fun {e e'} he he' hne => ?_)
  have hkey := MapOf.key_mem_parts he
  have hkey' := MapOf.key_mem_parts he'
  obtain ⟨hnew, hsame⟩ := hf e.1 hkey
  obtain ⟨hnew', hsame'⟩ := hf e'.1 hkey'
  exact (keyEq_sameContent.congr₂ hnew (hm.part e.1 hkey) hnew' (hm.part e'.1 hkey') hsame
    hsame').trans hne

/-- A map is alike the one that is put together from alike pairs. None of them is lost. -/
theorem alike_ofPairs {f : Value → Value} {m : MapOf Value} (hm : (map m).Distinct)
    (hf : ∀ x ∈ m.parts, (f x).Distinct ∧ Alike (f x) x) :
    let reduced := MapOf.ofPairs m.span (m.entries.map (Prod.map f f))
    reduced.duplicate? = none ∧ (map reduced).Distinct ∧ Alike (.map reduced) (.map m) := by
  intro reduced
  have hnew : ∀ e ∈ m.entries.map (Prod.map f f), e.1.Distinct := fun e' he' => by
    obtain ⟨e, he, rfl⟩ := List.mem_map.1 he'
    exact (hf e.1 (MapOf.key_mem_parts he)).1
  have hapart := apart_map_sameContent hm fun x hx => ⟨(hf x hx).1, (hf x hx).2.content⟩
  -- Keys of different content do not meet, so the pairs stay as they are put.
  have hmeet : ¬ Entries.KeysMeet meets (m.entries.map (Prod.map f f)) := by
    rw [Entries.not_keysMeet_iff]
    refine hapart.imp_of_mem fun {e e'} he he' hne => Bool.eq_false_iff.2 fun hmeets => ?_
    have hsame := sameContent_of_beq (hnew e' he') (hnew e he) (beq_of_meets hmeets)
    rw [keyEq_sameContent.comm (hnew e' he') (hnew e he), hne] at hsame
    exact Bool.false_ne_true hsame
  have hreduced : reduced = { entries := m.entries.map (Prod.map f f), span := m.span } :=
    MapOf.ofPairs_of_not_keysMeet m.span hmeet
  have hparts : (map reduced).parts = m.parts.map f := by
    rw [hreduced]
    exact m.parts_map f
  have hdistinct : (map reduced).Distinct := by
    refine .intro ?_ fun y hy => ?_
    · show Entries.Apart sameContent reduced.entries
      rw [hreduced]
      exact hapart
    · obtain ⟨x, hx, rfl⟩ := List.mem_map.1 (hparts ▸ hy)
      exact (hf x hx).1
  have hprints : PrintsAlike ((map m).mapParts f) (.map m) :=
    .mapParts fun x hx => (hf x hx).2.prints
  have hempty : (map reduced).isInvisible = ((map m).mapParts f).isInvisible := by
    rw [hreduced]
    rfl
  refine ⟨(MapOf.duplicate?_eq_none_iff m.span).2 hmeet, hdistinct,
    ⟨?content, ?render, hempty.trans hprints.isInvisible, fun _ _ => rfl⟩⟩
  case content =>
    have hmatched : Entries.Matched sameContent sameContent (m.entries.map (Prod.map f f))
        m.entries := Entries.Matched.of_map fun e he =>
      ⟨(hf e.1 (MapOf.key_mem_parts he)).2.content, (hf e.2 (MapOf.value_mem_parts he)).2.content⟩
    rw [hdistinct.sameContent_eq hm]
    show Entries.beqBy sameContent sameContent reduced.entries m.entries = true
    rw [hreduced]
    exact (Entries.beqBy_iff_matched (fun e he => (hnew e he).exchanges) hnew
      (fun e he => hm.part e.1 (MapOf.key_mem_parts he)) hapart hm.here).2 hmatched
  case render =>
    intro g inspecting
    rw [← hprints.render g inspecting, hreduced]
    rfl

/-! ## Reducing again -/

/-- A kept slash is alike the one it was made from. -/
theorem alike_slash {e : Operation Value} {a b : Number} (hleft : e.left = .number a)
    (hright : e.right = .number b) : Alike (slash e a b) (.operation e) := by
  have hself : ∀ n : Number, n.beq n = true := fun n => Number.beq_iff_identity.2 rfl
  refine ⟨?_, fun g inspecting => ?_, rfl, fun _ _ => rfl⟩
  · show (e.operand.op == e.operand.op && sameContent (.number (a.setDelayed true)) e.left &&
      sameContent (.number (b.setDelayed true)) e.right) = true
    rw [hleft, hright, beq_self_eq_true, Bool.true_and, Bool.and_eq_true_iff]
    exact ⟨hself a, hself b⟩
  · show render g inspecting (.number (a.setDelayed true)) ++ e.operand.separator ++
      render g inspecting (.number (b.setDelayed true)) =
        render g inspecting e.left ++ e.operand.separator ++ render g inspecting e.right
    rw [hleft, hright]
    rfl

theorem reduce_slash {e : Operation Value} {a b : Number} (hdelayed : e.delayed = true)
    (hop : e.operand.op = .div) (hleft : e.left = .number a) (hright : e.right = .number b) :
    reduce env (.operation e) = .ok (slash e a b) := by
  have hlogical : e.operand.op.isLogical = false := by rw [hop]; rfl
  have hkept : isKeptSlash e (.number a) (.number b) = true := by
    simp [isKeptSlash, hdelayed, hop, number?]
  have hnumber : reduce env e.left = .ok (.number a) := by rw [hleft]; rfl
  have hnumber' : reduce env e.right = .ok (.number b) := by rw [hright]; rfl
  rw [reduce_operation_of_not_isLogical hlogical hnumber hnumber', finishOperation, if_pos hkept]
  rfl

theorem distinct_number (n : Number) : (number n).Distinct :=
  .intro trivial fun x hx => by cases hx

theorem distinct_slash (e : Operation Value) (a b : Number) : (slash e a b).Distinct := by
  refine .intro trivial fun x hx => ?_
  rcases List.mem_cons.1 hx with rfl | hx
  · exact distinct_number _
  · rw [List.mem_singleton.1 hx]
    exact distinct_number _

/-- **A value in normal form reduces to one that is alike**, and in which no node carries an old
digest if none did. -/
theorem exists_alike_of_reduced (env : Environment) (h : w.Reduced) (hw : w.Distinct) :
    ∃ w', reduce env w = .ok w' ∧ w'.Distinct ∧ Alike w' w ∧ (w.Coherent → w'.Coherent) := by
  induction h with
  | plain h => exact ⟨_, h.reduce_eq, hw, .refl hw, id⟩
  | @slash e a b hdelayed hop hleft hright =>
    refine ⟨slash e a b, reduce_slash hdelayed hop hleft hright, distinct_slash e a b,
      alike_slash hleft hright, fun hcoherent => coherent_slash e ?_ ?_⟩
    · exact hleft ▸ hcoherent.part e.left e.left_mem_parts
    · exact hright ▸ hcoherent.part e.right e.right_mem_parts
  | @list l _ ih =>
    have hparts : ∀ x ∈ l.parts, ∃ x', reduce env x = .ok x' ∧ x'.Distinct ∧ Alike x' x ∧
        (x.Coherent → x'.Coherent) := fun x hx => ih x hx (hw.part x hx)
    choose! f hred hdistinct halike hcoherent using hparts
    have hitems : List.Forall₂ (fun x y => reduce env x = .ok y) l.items (l.items.map f) :=
      List.forall₂_map_right_iff.2
        (List.forall₂_same.2 fun x hx => hred x (ListOf.item_mem_parts hx))
    have hkeywords : List.Forall₂ (KeywordReduces env) l.countedKeywords
        (l.countedKeywords.map (Prod.map id f)) :=
      List.forall₂_map_right_iff.2
        (List.forall₂_same.2 fun e he => ⟨rfl, hred e.2 (ListOf.keyword_mem_parts he)⟩)
    refine ⟨_, reduce_list_eq_ok.2 ⟨_, _, hitems, hkeywords, rfl⟩,
      distinct_rebuilt hw.here hdistinct,
      alike_rebuilt hw fun x hx => ⟨hdistinct x hx, halike x hx⟩, fun hl => ?_⟩
    refine .of_memo_eq_none rfl fun y hy => ?_
    obtain ⟨x, hx, hxy⟩ := exists_part_of_rebuilt hitems hkeywords hy
    exact Except.ok.inj ((hred x hx).symm.trans hxy) ▸ hcoherent x hx (hl.part x hx)
  | @map m hdup _ ih =>
    have hparts : ∀ x ∈ m.parts, ∃ x', reduce env x = .ok x' ∧ x'.Distinct ∧ Alike x' x ∧
        (x.Coherent → x'.Coherent) := fun x hx => ih x hx (hw.part x hx)
    choose! f hred hdistinct halike hcoherent using hparts
    have hpairs : List.Forall₂ (EntryReduces env) m.entries (m.entries.map (Prod.map f f)) :=
      List.forall₂_map_right_iff.2 (List.forall₂_same.2 fun e he =>
        ⟨hred e.1 (MapOf.key_mem_parts he), hred e.2 (MapOf.value_mem_parts he)⟩)
    obtain ⟨hnodup, hnew, hmap⟩ := alike_ofPairs hw fun x hx => ⟨hdistinct x hx, halike x hx⟩
    refine ⟨_, reduce_map_eq_ok.2 ⟨_, hpairs, hdup, hnodup, rfl⟩, hnew, hmap, fun hm => ?_⟩
    refine .of_memo_eq_none (MapOf.memo_ofPairs _ _) fun y hy => ?_
    obtain ⟨x, hx, hxy⟩ := exists_part_of_ofPairs hpairs hy
    exact Except.ok.inj ((hred x hx).symm.trans hxy) ▸ hcoherent x hx (hm.part x hx)

end Hashed

end Value

end Stylesheet
