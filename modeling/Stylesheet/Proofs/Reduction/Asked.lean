import Stylesheet.Derivation
import Stylesheet.Proofs.Reduction.NormalForm

/-!
# Only colours in reach are asked

**Theorem (`Value.reduceCells_within`).** The colours that an evaluation asks for their red, green
and blue stand in the value or in what its environment gives. The forms of no other colour are kept
by it.

Let the colours in reach be those in cells of a set `S` (`Value.Within`). Printing, digesting and
comparing ask the colours that stand in the values (`Value.cells_within`,
`Value.equalCells_within`), and so do operators (`Operation.cells_within`). An evaluation does this
to values that it has reduced, so it has to be known of these as well: what a reduction gives holds
colours in reach only, since a colour that an operator makes is in no cell
(`Value.within_of_reduce`).
-/

namespace Stylesheet

variable {S : Nat → Prop}

namespace Color

theorem rgbCells_of_cell {c : Color} (h : c.cell = 0) : c.rgbCells = [] := by
  cases c with
  | rgb d => rfl
  | hsl d => exact if_pos h

theorem textCells_within {f : Format} {c : Color} (h : ∀ k ∈ c.rgbCells, S k) :
    ∀ k ∈ c.textCells f, S k := by
  unfold textCells
  split_ifs
  · exact h
  · exact nofun

theorem equalCells_within {a b : Color} (ha : ∀ k ∈ a.rgbCells, S k)
    (hb : ∀ k ∈ b.rgbCells, S k) : ∀ k ∈ a.equalCells b, S k := by
  unfold equalCells
  split_ifs
  · exact nofun
  · exact List.forall_mem_append.2 ⟨ha, hb⟩

end Color

namespace Value

/-- A colour that may have to derive its red, green and blue is in a cell of `S`, and so are those
that a map would show of its duplicate. Keywords are those of an argument list. -/
def NodeWithin (S : Nat → Prop) : Value → Prop
  | .color c => ∀ k ∈ c.rgbCells, S k
  | .list l => l.arglist = false → l.keywords = []
  | .map m => ∀ key ∈ m.duplicate?, ∀ k ∈ key.textCells {}, S k
  | _ => True

/-- All colours of a value are in cells of `S`. -/
abbrev Within (S : Nat → Prop) : Value → Prop := Each (NodeWithin S)

/-- **Cells that are gathered along a list** are those of its members. -/
theorem forall_mem_gathered {α : Type} {gathered : List α → List Nat} {own : α → List Nat}
    {as : List α} (hnil : gathered [] = []) (h : ∀ a ∈ as, ∀ k ∈ own a, S k)
    (hcons : ∀ a as, ∀ k ∈ gathered (a :: as), k ∈ own a ∨ k ∈ gathered as) :
    ∀ k ∈ gathered as, S k := by
  induction as with
  | nil =>
    rw [hnil]
    exact nofun
  | cons a as ih =>
    rw [List.forall_mem_cons] at h
    intro k hk
    rcases hcons a as k hk with hown | hrest
    · exact h.1 k hown
    · exact ih h.2 k hrest

/-! ## Printing and digesting -/

section Cells

variable {ask : Color → List Nat} {inKeywords : Bool}

theorem itemCells_within {vs : List Value} (h : ∀ x ∈ vs, ∀ k ∈ x.cells ask inKeywords, S k) :
    ∀ k ∈ itemCells ask inKeywords vs, S k :=
  forall_mem_gathered rfl h fun _ _ _ => List.mem_append.1

theorem fragmentCells_within {fs : List (Fragment Value)}
    (h : ∀ p ∈ fs, ∀ x ∈ p.parts, ∀ k ∈ x.cells ask inKeywords, S k) :
    ∀ k ∈ fragmentCells ask inKeywords fs, S k := by
  have hown : ∀ p ∈ fs, ∀ k ∈ p.parts.flatMap (·.cells ask inKeywords), S k := by
    intro p hp k hk
    obtain ⟨x, hx, hkx⟩ := List.mem_flatMap.1 hk
    exact h p hp x hx k hkx
  refine forall_mem_gathered rfl hown fun p fs k hk => ?_
  cases p with
  | text s => exact .inr hk
  | hole v =>
    refine (List.mem_append.1 hk).imp_left fun hv => ?_
    exact List.mem_flatMap.2 ⟨v, Fragment.hole_mem_parts v, hv⟩

theorem keywordCells_within {ks : List (String × Value)}
    (h : ∀ e ∈ ks, ∀ k ∈ e.2.cells ask inKeywords, S k) :
    ∀ k ∈ keywordCells ask inKeywords ks, S k :=
  forall_mem_gathered rfl h fun _ _ _ => List.mem_append.1

theorem entryCells_within {es : List (Value × Value)}
    (h : ∀ e ∈ es, (∀ k ∈ e.1.cells ask inKeywords, S k) ∧ ∀ k ∈ e.2.cells ask inKeywords, S k) :
    ∀ k ∈ entryCells ask inKeywords es, S k :=
  forall_mem_gathered rfl (fun e he => List.forall_mem_append.2 (h e he))
    fun _ _ _ => List.mem_append.1

theorem argumentCells_within {as : List (Argument Value)}
    (h : ∀ a ∈ as, ∀ k ∈ a.value.cells ask inKeywords, S k) :
    ∀ k ∈ argumentCells ask inKeywords as, S k :=
  forall_mem_gathered rfl h fun _ _ _ => List.mem_append.1

/-- The keywords of a value within reach are among its parts. -/
theorem keyword_mem_parts_of_within {l : ListOf Value} (h : NodeWithin S (.list l))
    {e : String × Value} (he : e ∈ l.keywords) : e.2 ∈ l.parts := by
  refine ListOf.keyword_mem_parts ?_
  unfold ListOf.countedKeywords
  cases harglist : l.arglist with
  | true => exact he
  | false =>
    rw [h harglist] at he
    cases he

/-- **What asks the colours in a value asks colours in reach.** -/
theorem cells_within (hask : ∀ c, (∀ k ∈ c.rgbCells, S k) → ∀ k ∈ ask c, S k) {v : Value}
    (hv : v.Within S) : ∀ k ∈ v.cells ask inKeywords, S k := by
  induction v using Value.induction with
  | step v ih =>
    have hparts : ∀ x ∈ v.parts, ∀ k ∈ x.cells ask inKeywords, S k :=
      fun x hx => ih x hx (hv.part x hx)
    cases v with
    | color c => exact hask c hv.here
    | template t =>
      exact fragmentCells_within fun p hp x hx => hparts x (Template.mem_parts hp hx)
    | list l =>
      refine List.forall_mem_append.2
        ⟨itemCells_within fun x hx => hparts x (ListOf.item_mem_parts hx), ?_⟩
      split
      · exact keywordCells_within fun e he => hparts e.2 (keyword_mem_parts_of_within hv.here he)
      · exact nofun
    | map m =>
      exact entryCells_within fun e he =>
        ⟨hparts e.1 (MapOf.key_mem_parts he), hparts e.2 (MapOf.value_mem_parts he)⟩
    | call c => exact argumentCells_within fun a ha => hparts a.value (Call.argument_mem_parts ha)
    | operation e =>
      exact List.forall_mem_append.2
        ⟨hparts e.left e.left_mem_parts, hparts e.right e.right_mem_parts⟩
    | _ => exact nofun

theorem textCells_within {f : Format} {v : Value} (hv : v.Within S) : ∀ k ∈ v.textCells f, S k :=
  cells_within (fun _ => Color.textCells_within) hv

theorem digestCells_within {v : Value} (hv : v.Within S) : ∀ k ∈ v.digestCells, S k :=
  cells_within (fun _ => id) hv

end Cells

/-! ## Comparing -/

section Comparing

variable [Hasher]

theorem equalItemCells_within {as bs : List Value}
    (h : ∀ x ∈ as, ∀ y ∈ bs, ∀ k ∈ x.equalCells y, S k) : ∀ k ∈ equalItemCells as bs, S k := by
  induction as generalizing bs with
  | nil => exact nofun
  | cons a as ih =>
    cases bs with
    | nil => exact nofun
    | cons b bs =>
      refine List.forall_mem_append.2 ⟨h a List.mem_cons_self b List.mem_cons_self, ?_⟩
      split
      · exact ih fun x hx y hy => h x (List.mem_cons_of_mem a hx) y (List.mem_cons_of_mem b hy)
      · exact nofun

theorem equalFragmentCells_within {fs gs : List (Fragment Value)}
    (h : ∀ p ∈ fs, ∀ x ∈ p.parts, ∀ q ∈ gs, ∀ y ∈ q.parts, ∀ k ∈ x.equalCells y, S k) :
    ∀ k ∈ equalFragmentCells fs gs, S k := by
  induction fs generalizing gs with
  | nil => exact nofun
  | cons p fs ih =>
    cases gs with
    | nil => cases p <;> exact nofun
    | cons q gs =>
      have hrest : ∀ k ∈ equalFragmentCells fs gs, S k := ih fun p' hp x hx q' hq =>
        h p' (List.mem_cons_of_mem p hp) x hx q' (List.mem_cons_of_mem q hq)
      cases p with
      | text s =>
        cases q with
        | text s' =>
          show ∀ k ∈ if s = s' then equalFragmentCells fs gs else [], S k
          split
          · exact hrest
          · exact nofun
        | hole y => exact nofun
      | hole x =>
        cases q with
        | text s => exact nofun
        | hole y =>
          refine List.forall_mem_append.2 ⟨h _ List.mem_cons_self x (Fragment.hole_mem_parts x) _
            List.mem_cons_self y (Fragment.hole_mem_parts y), ?_⟩
          split
          · exact hrest
          · exact nofun

theorem equalArgumentCells_within {as bs : List (Argument Value)}
    (h : ∀ a ∈ as, ∀ b ∈ bs, ∀ k ∈ a.value.equalCells b.value, S k) :
    ∀ k ∈ equalArgumentCells as bs, S k := by
  induction as generalizing bs with
  | nil => exact nofun
  | cons a as ih =>
    cases bs with
    | nil => exact nofun
    | cons b bs =>
      unfold equalArgumentCells
      split_ifs
      · exact List.forall_mem_append.2 ⟨h a List.mem_cons_self b List.mem_cons_self,
          ih fun x hx y hy => h x (List.mem_cons_of_mem a hx) y (List.mem_cons_of_mem b hy)⟩
      · exact List.forall_mem_append.2 ⟨h a List.mem_cons_self b List.mem_cons_self, nofun⟩
      · exact nofun

theorem equalKeywordCells_within {as bs : List (String × Value)}
    (h : ∀ e ∈ as, ∀ f ∈ bs, ∀ k ∈ e.2.equalCells f.2, S k) :
    ∀ k ∈ equalKeywordCells as bs, S k := by
  induction as with
  | nil => exact nofun
  | cons e as ih =>
    rw [List.forall_mem_cons] at h
    unfold equalKeywordCells
    split
    · next b hfound =>
      obtain ⟨f, hf, -, rfl⟩ := Entries.mem_of_find?_eq_some hfound
      refine List.forall_mem_append.2 ⟨h.1 f hf, ?_⟩
      split
      · exact ih h.2
      · exact nofun
    · exact nofun

/-- Looking for a key asks the key alone, or compares it with the only one. -/
theorem equalEntryCells_within {as bs : List (Value × Value)}
    (hdigest : ∀ e ∈ as, ∀ k ∈ e.1.digestCells, S k)
    (hkey : ∀ e ∈ as, ∀ f ∈ bs, ∀ k ∈ e.1.equalCells f.1, S k)
    (hval : ∀ e ∈ as, ∀ f ∈ bs, ∀ k ∈ e.2.equalCells f.2, S k) :
    ∀ k ∈ equalEntryCells as bs, S k := by
  induction as with
  | nil => exact nofun
  | cons e as ih =>
    rw [List.forall_mem_cons] at hdigest hkey hval
    unfold equalEntryCells
    refine List.forall_mem_append.2 ⟨?_, ?_⟩
    · split
      · exact nofun
      · exact hkey.1 _ List.mem_cons_self
      · exact hdigest.1
    · split
      · next b hfound =>
        obtain ⟨f, hf, -, rfl⟩ := Entries.mem_of_find?_eq_some hfound
        refine List.forall_mem_append.2 ⟨hval.1 f hf, ?_⟩
        split
        · exact ih hdigest.2 hkey.2 hval.2
        · exact nofun
      · exact nofun

theorem equalCells_template_within {t u : Template Value}
    (h : ∀ x ∈ t.parts, ∀ y ∈ u.parts, ∀ k ∈ x.equalCells y, S k) :
    ∀ k ∈ (template t).equalCells (.template u), S k := by
  unfold equalCells
  split
  · exact equalFragmentCells_within fun p hp x hx q hq y hy =>
      h x (Template.mem_parts hp hx) y (Template.mem_parts hq hy)
  · exact nofun

theorem equalCells_list_within {l m : ListOf Value} (hl : NodeWithin S (.list l))
    (hm : NodeWithin S (.list m)) (h : ∀ x ∈ l.parts, ∀ y ∈ m.parts, ∀ k ∈ x.equalCells y, S k) :
    ∀ k ∈ (list l).equalCells (.list m), S k := by
  have hitems : ∀ k ∈ equalItemCells l.items m.items, S k :=
    equalItemCells_within fun x hx y hy =>
      h x (ListOf.item_mem_parts hx) y (ListOf.item_mem_parts hy)
  have hkeywords : ∀ k ∈ equalKeywordCells l.keywords m.keywords, S k :=
    equalKeywordCells_within fun e he f hf =>
      h e.2 (keyword_mem_parts_of_within hl he) f.2 (keyword_mem_parts_of_within hm hf)
  unfold equalCells
  split
  · refine List.forall_mem_append.2 ⟨hitems, ?_⟩
    split
    · exact hkeywords
    · exact nofun
  · exact nofun

theorem equalCells_map_within {m n : MapOf Value}
    (hdigest : ∀ x ∈ m.parts, ∀ k ∈ x.digestCells, S k)
    (h : ∀ x ∈ m.parts, ∀ y ∈ n.parts, ∀ k ∈ x.equalCells y, S k) :
    ∀ k ∈ (map m).equalCells (.map n), S k := by
  unfold equalCells
  split
  · exact equalEntryCells_within (fun e he => hdigest e.1 (MapOf.key_mem_parts he))
      (fun e he f hf => h e.1 (MapOf.key_mem_parts he) f.1 (MapOf.key_mem_parts hf))
      (fun e he f hf => h e.2 (MapOf.value_mem_parts he) f.2 (MapOf.value_mem_parts hf))
  · exact nofun

theorem equalCells_call_within {c d : Call Value}
    (h : ∀ x ∈ c.parts, ∀ y ∈ d.parts, ∀ k ∈ x.equalCells y, S k) :
    ∀ k ∈ (call c).equalCells (.call d), S k := by
  unfold equalCells
  split
  · exact equalArgumentCells_within fun a ha b hb =>
      h a.value (Call.argument_mem_parts ha) b.value (Call.argument_mem_parts hb)
  · exact nofun

theorem equalCells_operation_within {e f : Operation Value}
    (h : ∀ x ∈ e.parts, ∀ y ∈ f.parts, ∀ k ∈ x.equalCells y, S k) :
    ∀ k ∈ (operation e).equalCells (.operation f), S k := by
  unfold equalCells
  split
  · refine List.forall_mem_append.2 ⟨h e.left e.left_mem_parts f.left f.left_mem_parts, ?_⟩
    split
    · exact h e.right e.right_mem_parts f.right f.right_mem_parts
    · exact nofun
  · exact nofun

/-- **A comparison asks colours of the two values only.** -/
theorem equalCells_within {a b : Value} (ha : a.Within S) (hb : b.Within S) :
    ∀ k ∈ a.equalCells b, S k := by
  induction a using Value.induction generalizing b with
  | step a ih =>
    have hparts : ∀ x ∈ a.parts, ∀ y ∈ b.parts, ∀ k ∈ x.equalCells y, S k :=
      fun x hx y hy => ih x hx (ha.part x hx) (hb.part y hy)
    cases a with
    | color c =>
      cases b with
      | color d => exact Color.equalCells_within ha.here hb.here
      | _ => exact nofun
    | template t =>
      cases b with
      | template u => exact equalCells_template_within hparts
      | _ => exact nofun
    | list l =>
      cases b with
      | list m => exact equalCells_list_within ha.here hb.here hparts
      | _ => exact nofun
    | map m =>
      cases b with
      | map n =>
        exact equalCells_map_within (fun x hx => digestCells_within (ha.part x hx)) hparts
      | _ => exact nofun
    | call c =>
      cases b with
      | call d => exact equalCells_call_within hparts
      | _ => exact nofun
    | operation e =>
      cases b with
      | operation f => exact equalCells_operation_within hparts
      | _ => exact nofun
    | _ => exact nofun

/-- Looking up a key asks colours of the map and of the key only. -/
theorem getCells_within {m : MapOf Value} {key : Value} (hm : (map m).Within S)
    (hkey : key.Within S) : ∀ k ∈ m.getCells key, S k := by
  unfold MapOf.getCells
  split
  · exact nofun
  · next other value hentries =>
    have hother : (other, value) ∈ m.entries := hentries ▸ List.mem_singleton_self _
    exact equalCells_within hkey (hm.part other (MapOf.key_mem_parts hother))
  · exact digestCells_within hkey

end Comparing

end Value

/-! ## Operators -/

section Operators

variable {left right : Value}

theorem undefinedCells_within (hleft : left.Within S) (hright : right.Within S) :
    ∀ k ∈ undefinedCells left right, S k :=
  List.forall_mem_append.2 ⟨Value.textCells_within hleft, Value.textCells_within hright⟩

theorem Arithmetic.otherCells_within {op : Arithmetic} (hleft : left.Within S)
    (hright : right.Within S) : ∀ k ∈ op.otherCells left right, S k := by
  have hboth := undefinedCells_within hleft hright
  unfold otherCells
  split
  · exact nofun
  · cases op <;> exact hboth

theorem Arithmetic.cells_within {op : Arithmetic} (hleft : left.Within S)
    (hright : right.Within S) : ∀ k ∈ op.cells left right, S k := by
  unfold cells
  split
  · exact nofun
  · exact List.forall_mem_append.2 ⟨hleft.here, hright.here⟩
  · split
    · exact undefinedCells_within hleft hright
    · exact hleft.here
  · split
    · exact hright.here
    · exact otherCells_within hleft hright
  · exact otherCells_within hleft hright

theorem Operand.cells_within [Hasher] {operand : Operand} (hleft : left.Within S)
    (hright : right.Within S) : ∀ k ∈ operand.cells left right, S k := by
  unfold cells
  cases operand.op with
  | and | or => exact nofun
  | eq | ne => exact Value.equalCells_within hleft hright
  | gt | ge | lt | le =>
    show ∀ k ∈ if left.number?.isSome && right.number?.isSome then [] else _, S k
    split
    · exact nofun
    · exact undefinedCells_within hleft hright
  | add | sub | mul | div | mod => exact Arithmetic.cells_within hleft hright

/-- **An operator asks colours of its operands only.** -/
theorem Operation.cells_within [Hasher] {e : Operation Value} (hleft : left.Within S)
    (hright : right.Within S) : ∀ k ∈ e.cells left right, S k := by
  unfold cells
  split
  · exact undefinedCells_within hleft hright
  · exact Operand.cells_within hleft hright

end Operators

/-! ## Evaluating -/

/-- Functions ask colours in reach, if their arguments are in reach. -/
structure CallCells.AskWithin (S : Nat → Prop) (calls : CallCells) : Prop where
  host : ∀ {name arguments}, (∀ a ∈ arguments, a.value.Within S) →
    ∀ k ∈ calls.host name arguments, S k
  named : ∀ {name arguments}, (∀ a ∈ arguments, a.value.Within S) →
    ∀ k ∈ calls.named name arguments, S k

namespace Value

variable {env : Environment} {calls : CallCells} {v w : Value}

theorem cellsOf_within {ε α : Type} {next : α → List Nat} {x : Except ε α}
    (h : ∀ a, x = .ok a → ∀ k ∈ next a, S k) : ∀ k ∈ cellsOf next x, S k := by
  cases x with
  | ok a => exact h a rfl
  | error e => exact nofun

/-- What is asked next, if a reduction succeeds. -/
theorem mem_of_cellsOf {ε α : Type} {next : List Nat} {x : Except ε α} {k : Nat}
    (h : k ∈ cellsOf (fun _ => next) x) : k ∈ next :=
  cellsOf_within (S := (· ∈ next)) (fun _ _ _ => id) k h

theorem Plain.within_of_cell (h : v.Plain) (hcell : ∀ c, v = .color c → c.cell = 0) :
    v.Within S := by
  refine .intro ?_ (by simp [h.parts_eq])
  cases h with
  | color c =>
    show ∀ k ∈ c.rgbCells, S k
    rw [Color.rgbCells_of_cell (hcell c rfl)]
    exact nofun
  | _ => trivial

variable [Hasher]

/-- **What a value in reach reduces to is in reach**, if what the environment gives is. -/
theorem within_of_reduce (henv : env.Gives (Within S)) (hv : v.Within S)
    (h : reduce env v = .ok w) : w.Within S := by
  induction v using Value.induction generalizing w with
  | step v ih =>
    have hpart : ∀ x ∈ v.parts, ∀ y, reduce env x = .ok y → y.Within S :=
      fun x hx y hxy => ih x hx (hv.part x hx) hxy
    cases outcome_of_reduce h with
    | self _ => exact hv
    | fresh hw => exact hw.plain.within_of_cell hw.cell
    | «variable» hvalue => exact henv.lookup hvalue
    | returned hcall _ => exact henv.call hcall
    | hosted hhost _ => exact henv.host hhost
    | operand hx hxw => exact hpart _ hx _ hxw
    | @slash e a b _ _ _ =>
      have hnumber : ∀ n, (number n).Within S := fun n => (Plain.number n).within_of_cell nofun
      exact .intro trivial (List.forall_mem_cons.2
        ⟨hnumber _, List.forall_mem_singleton.2 (hnumber _)⟩)
    | @list l items keywords hitems hkeywords =>
      refine .intro (fun harglist => ?_) fun y hy => ?_
      · -- A list that is no argument list has no keywords that count, so none are reduced.
        have hplain : l.arglist = false := harglist
        have hnone : l.countedKeywords = [] := if_neg (by simp [hplain])
        rw [hnone] at hkeywords
        exact List.forall₂_nil_left_iff.1 hkeywords
      · obtain ⟨x, hx, hxy⟩ := exists_part_of_rebuilt hitems hkeywords hy
        exact hpart x hx y hxy
    | map hpairs hdup =>
      refine .intro (fun key hkey => ?_) fun y hy => ?_
      · rw [hdup] at hkey
        cases hkey
      · obtain ⟨x, hx, hxy⟩ := exists_part_of_ofPairs hpairs hy
        exact hpart x hx y hxy

theorem within_of_reduceArguments {as bs : List (Argument Value)}
    (has : ∀ a ∈ as, ∀ w, reduce env a.value = .ok w → w.Within S)
    (h : reduceArguments env as = .ok bs) : ∀ b ∈ bs, b.value.Within S := by
  induction as generalizing bs with
  | nil =>
    obtain rfl := Except.ok.inj h
    exact nofun
  | cons a as ih =>
    rw [List.forall_mem_cons] at has
    obtain ⟨value, hvalue, h⟩ := bind_eq_ok.1 h
    obtain ⟨rest, hrest, h⟩ := bind_eq_ok.1 h
    obtain rfl := Except.ok.inj h
    exact List.forall_mem_cons.2 ⟨has.1 value hvalue, ih has.2 hrest⟩

omit [Hasher] in
/-- A call shows its arguments or hands them to a function. -/
theorem finishCallCells_within (hcalls : calls.AskWithin S) {c : Call Value}
    {arguments : List (Argument Value)} (h : ∀ a ∈ arguments, a.value.Within S) :
    ∀ k ∈ finishCallCells env calls c arguments, S k := by
  have htext : ∀ k ∈ argumentCells (·.textCells {}) false arguments, S k :=
    argumentCells_within fun a ha => textCells_within (h a ha)
  unfold finishCallCells
  split
  · exact hcalls.host h
  · split
    · exact htext
    · split
      · exact hcalls.named h
      · exact htext
      · exact nofun

/-- The duplicate that a map of reduced pairs shows is in reach: it was remembered, or it is one of
the reduced keys. -/
theorem duplicateCells_within {m : MapOf Value} {pairs : List (Value × Value)}
    (hm : NodeWithin S (.map m)) (hpairs : ∀ e ∈ pairs, e.1.Within S) :
    ∀ k ∈ match m.duplicate?.or (MapOf.ofPairs m.span pairs).duplicate? with
      | some key => key.textCells {}
      | none => [], S k := by
  cases hwritten : m.duplicate? with
  | some key => exact hm key hwritten
  | none =>
    rw [Option.none_or]
    cases hreduced : (MapOf.ofPairs m.span pairs).duplicate? with
    | some key =>
      obtain ⟨before, value, after, rfl, -⟩ := (MapOf.duplicate?_eq_some_iff m.span).1 hreduced
      exact textCells_within (hpairs (key, value) (by simp))
    | none => exact nofun

theorem reduceItemCells_within {vs : List Value}
    (h : ∀ x ∈ vs, ∀ k ∈ reduceCells env calls x, S k) :
    ∀ k ∈ reduceItemCells env calls vs, S k :=
  forall_mem_gathered rfl h fun _ _ _ hk => (List.mem_append.1 hk).imp_right mem_of_cellsOf

theorem reduceKeywordCells_within {ks : List (String × Value)}
    (h : ∀ e ∈ ks, ∀ k ∈ reduceCells env calls e.2, S k) :
    ∀ k ∈ reduceKeywordCells env calls ks, S k :=
  forall_mem_gathered rfl h fun _ _ _ hk => (List.mem_append.1 hk).imp_right mem_of_cellsOf

theorem reduceArgumentCells_within {as : List (Argument Value)}
    (h : ∀ a ∈ as, ∀ k ∈ reduceCells env calls a.value, S k) :
    ∀ k ∈ reduceArgumentCells env calls as, S k :=
  forall_mem_gathered rfl h fun _ _ _ hk => (List.mem_append.1 hk).imp_right mem_of_cellsOf

/-- A hole is shown once it is reduced. -/
theorem reduceFragmentCells_within {fs : List (Fragment Value)}
    (h : ∀ p ∈ fs, ∀ x ∈ p.parts, (∀ k ∈ reduceCells env calls x, S k) ∧
      ∀ w, reduce env x = .ok w → w.Within S) :
    ∀ k ∈ reduceFragmentCells env calls fs, S k := by
  induction fs with
  | nil => exact nofun
  | cons p fs ih =>
    rw [List.forall_mem_cons] at h
    cases p with
    | text s => exact ih h.2
    | hole v =>
      obtain ⟨hcells, hreduced⟩ := h.1 v (Fragment.hole_mem_parts v)
      exact List.forall_mem_append.2 ⟨hcells, cellsOf_within fun w hw =>
        List.forall_mem_append.2 ⟨textCells_within (hreduced w hw), ih h.2⟩⟩

/-- A key is digested once its value is reduced. -/
theorem reduceEntryCells_within {es : List (Value × Value)}
    (hkey : ∀ e ∈ es, (∀ k ∈ reduceCells env calls e.1, S k) ∧
      ∀ w, reduce env e.1 = .ok w → w.Within S)
    (hval : ∀ e ∈ es, ∀ k ∈ reduceCells env calls e.2, S k) :
    ∀ k ∈ reduceEntryCells env calls es, S k := by
  induction es with
  | nil => exact nofun
  | cons e es ih =>
    rw [List.forall_mem_cons] at hkey hval
    have hdigest : ∀ key, reduce env e.1 = .ok key →
        ∀ k ∈ key.digestCells ++ reduceEntryCells env calls es, S k := fun key hreduced =>
      List.forall_mem_append.2 ⟨digestCells_within (hkey.1.2 key hreduced), ih hkey.2 hval.2⟩
    exact List.forall_mem_append.2 ⟨hkey.1.1, cellsOf_within fun key hreduced =>
      List.forall_mem_append.2 ⟨hval.1, cellsOf_within fun _ _ => hdigest key hreduced⟩⟩

/-- **An evaluation asks colours in reach only**: those in the value, and those in what the
environment gives. -/
theorem reduceCells_within (henv : env.Gives (Within S)) (hcalls : calls.AskWithin S)
    (hv : v.Within S) : ∀ k ∈ reduceCells env calls v, S k := by
  induction v using Value.induction with
  | step v ih =>
    have hcells : ∀ x ∈ v.parts, ∀ k ∈ reduceCells env calls x, S k :=
      fun x hx => ih x hx (hv.part x hx)
    have hreduced : ∀ x ∈ v.parts, ∀ w, reduce env x = .ok w → w.Within S :=
      fun x hx w hw => within_of_reduce henv (hv.part x hx) hw
    cases v with
    | operation e =>
      have hright : ∀ left, left.Within S → ∀ k ∈ cellsOf (fun right =>
          if isKeptSlash e left right then [] else e.cells left right) (reduce env e.right), S k :=
        fun left hleft => cellsOf_within fun right hright => by
          split
          · exact nofun
          · exact Operation.cells_within hleft (hreduced e.right e.right_mem_parts right hright)
      refine List.forall_mem_append.2 ⟨hcells e.left e.left_mem_parts,
        cellsOf_within fun left hleft => ?_⟩
      split
      · exact nofun
      · exact List.forall_mem_append.2 ⟨hcells e.right e.right_mem_parts,
          hright left (hreduced e.left e.left_mem_parts left hleft)⟩
    | template t =>
      exact reduceFragmentCells_within fun p hp x hx =>
        ⟨hcells x (Template.mem_parts hp hx), hreduced x (Template.mem_parts hp hx)⟩
    | call c =>
      refine List.forall_mem_append.2 ⟨reduceArgumentCells_within fun a ha =>
        hcells a.value (Call.argument_mem_parts ha), cellsOf_within fun arguments h => ?_⟩
      exact finishCallCells_within hcalls
        (within_of_reduceArguments (fun a ha => hreduced a.value (Call.argument_mem_parts ha)) h)
    | list l =>
      refine List.forall_mem_append.2 ⟨reduceItemCells_within fun x hx =>
        hcells x (ListOf.item_mem_parts hx), ?_⟩
      split
      · exact cellsOf_within fun _ _ => reduceKeywordCells_within fun e he =>
          hcells e.2 (keyword_mem_parts_of_within hv.here he)
      · exact nofun
    | map m =>
      refine List.forall_mem_append.2 ⟨reduceEntryCells_within
        (fun e he => ⟨hcells e.1 (MapOf.key_mem_parts he), hreduced e.1 (MapOf.key_mem_parts he)⟩)
        (fun e he => hcells e.2 (MapOf.value_mem_parts he)), cellsOf_within fun pairs h => ?_⟩
      refine duplicateCells_within hv.here fun f hf => ?_
      obtain ⟨e, he, hkey, -⟩ := exists_of_mem_right (reduceEntries_eq_ok.1 h) hf
      exact hreduced e.1 (MapOf.key_mem_parts he) f.1 hkey
    | _ => exact nofun

/-- Where no colour is in a cell, an evaluation asks none. -/
theorem reduceCells_eq_nil (henv : env.Gives (Within fun _ => False))
    (hcalls : calls.AskWithin fun _ => False) (hv : v.Within fun _ => False) :
    reduceCells env calls v = [] :=
  List.eq_nil_iff_forall_not_mem.2 (reduceCells_within henv hcalls hv)

end Value

end Stylesheet
