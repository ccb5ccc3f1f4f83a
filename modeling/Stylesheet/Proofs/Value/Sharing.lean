import Stylesheet.Derivation
import Stylesheet.Proofs.Value.Unseen
import Stylesheet.Value.Sharing

/-!
# Shared colours are not seen

**Theorem (`Value.looksLike_share`, `Value.looksLike_rememberRgb`, `Value.looksLike_rememberHsl`).**
Putting the colours of a value into cells, and keeping with them what was derived in a cell, is not
seen: the value is digested and printed as before, and equals the same values (`Value.LooksLike`).

What can be seen of a colour are its two forms, its spelling and the digest it carries
(`Color.shown`). A change that keeps these, of every colour and with any state handed on from one to
the next, gives a value that shows the same (`Value.shown_mapColors`), and comparing, digesting and
printing read no more than what is shown.

**Theorem (`Value.share_numbers`).** Afterwards every colour has a cell, and the cells of those that
had none are new and different ones, in the order in which they stand. So no two of them are taken
for one colour, nor one of them for a colour that had a cell before. The invariant of the counter
says which numbers a run gave out (`Value.Numbered`), and runs one after the other give out more.
-/

namespace Stylesheet

/-! ## What is shown -/

/-- What can be seen of a colour: both forms, the spelling, and the digest it carries. -/
def Color.shown (c : Color) : Color :=
  .rgb { form := { c.rgbForm with spelling := c.spelling }
         derived? := some c.hslForm
         memo := c.memo }

theorem Color.shown_withCell (cell : Nat) (c : Color) : (c.withCell cell).shown = c.shown := by
  cases c <;> rfl

theorem Color.shown_rememberRgb (c : Color) : c.rememberRgb.shown = c.shown := by
  have hforms := c.rgbForm_rememberRgb
  cases c with
  | rgb d => rfl
  | hsl d => simp only [shown, hforms]; rfl

theorem Color.shown_rememberHsl (c : Color) : c.rememberHsl.shown = c.shown := by
  have hforms := c.hslForm_rememberHsl
  cases c with
  | rgb d => simp only [shown, hforms]; rfl
  | hsl d => rfl

namespace Value

/-- A colour as it is shown. -/
def showColor : Value → Value
  | .color c => .color c.shown
  | v => v

/-- The value with every colour as it is shown. -/
def shown : Value → Value := everywhere showColor

theorem unseen_showColor : Unseen showColor where
  parts v := by cases v <;> rfl
  compared test eq v w := by cases v <;> cases w <;> rfl
  kind v := by cases v <;> rfl
  content d v := by cases v <;> rfl
  prints v := by cases v <;> exact ⟨fun _ _ => rfl, rfl, fun _ _ => rfl, fun _ => rfl⟩

/-- A change of colours that shows nothing, whatever is handed on from one to the next. -/
def ShowsNothing {σ : Type} (f : Color → StateM σ Color) : Prop :=
  ∀ c s, ((f c).run s).1.shown = c.shown

variable {σ : Type} {f : Color → StateM σ Color}

mutual

/-- **Nor does it show anything in a whole value.** -/
theorem shown_mapColors (hf : ShowsNothing f) (v : Value) (s : σ) :
    ((v.mapColors f).run s).1.shown = v.shown := by
  cases v with
  | color c => exact congrArg Value.color (hf c s)
  | template t =>
    exact congrArg (fun fragments => Value.template { t with fragments })
      (shown_mapColorsFragments hf t.fragments s)
  | list l =>
    exact congrArg₂ (fun items keywords => Value.list { l with items, keywords })
      (shown_mapColorsItems hf l.items s) (shown_mapColorsKeywords hf l.keywords _)
  | map m =>
    exact congrArg₂ (fun entries duplicate? => Value.map { m with entries, duplicate? })
      (shown_mapColorsEntries hf m.entries s) (shown_mapColorsOption hf m.duplicate? _)
  | call c =>
    exact congrArg (fun arguments => Value.call { c with arguments })
      (shown_mapColorsArguments hf c.arguments s)
  | operation e =>
    exact congrArg₂ (fun left right => Value.operation { e with left, right })
      (shown_mapColors hf e.left s) (shown_mapColors hf e.right _)
  | _ => rfl
  termination_by structural v

theorem shown_mapColorsItems (hf : ShowsNothing f) (vs : List Value) (s : σ) :
    itemsEverywhere showColor ((mapColorsItems f vs).run s).1 = itemsEverywhere showColor vs := by
  cases vs with
  | nil => rfl
  | cons v vs => exact congrArg₂ List.cons (shown_mapColors hf v s) (shown_mapColorsItems hf vs _)
  termination_by structural vs

theorem shown_mapColorsOption (hf : ShowsNothing f) (v : Option Value) (s : σ) :
    optionEverywhere showColor ((mapColorsOption f v).run s).1 = optionEverywhere showColor v := by
  cases v with
  | none => rfl
  | some v => exact congrArg some (shown_mapColors hf v s)
  termination_by structural v

theorem shown_mapColorsFragments (hf : ShowsNothing f) (fs : List (Fragment Value)) (s : σ) :
    fragmentsEverywhere showColor ((mapColorsFragments f fs).run s).1 =
      fragmentsEverywhere showColor fs := by
  cases fs with
  | nil => rfl
  | cons p fs =>
    cases p with
    | text text => exact congrArg (Fragment.text text :: ·) (shown_mapColorsFragments hf fs s)
    | hole v =>
      exact congrArg₂ (Fragment.hole · :: ·) (shown_mapColors hf v s)
        (shown_mapColorsFragments hf fs _)
  termination_by structural fs

theorem shown_mapColorsArguments (hf : ShowsNothing f) (as : List (Argument Value)) (s : σ) :
    argumentsEverywhere showColor ((mapColorsArguments f as).run s).1 =
      argumentsEverywhere showColor as := by
  cases as with
  | nil => rfl
  | cons a as =>
    exact congrArg₂ (fun value rest => { a with value } :: rest) (shown_mapColors hf a.value s)
      (shown_mapColorsArguments hf as _)
  termination_by structural as

theorem shown_mapColorsKeywords (hf : ShowsNothing f) (ks : List (String × Value)) (s : σ) :
    keywordsEverywhere showColor ((mapColorsKeywords f ks).run s).1 =
      keywordsEverywhere showColor ks := by
  cases ks with
  | nil => rfl
  | cons k ks =>
    exact congrArg₂ (fun value rest => (k.1, value) :: rest) (shown_mapColors hf k.2 s)
      (shown_mapColorsKeywords hf ks _)
  termination_by structural ks

theorem shown_mapColorsEntries (hf : ShowsNothing f) (es : List (Value × Value)) (s : σ) :
    entriesEverywhere showColor ((mapColorsEntries f es).run s).1 =
      entriesEverywhere showColor es := by
  cases es with
  | nil => rfl
  | cons e es =>
    exact congrArg₂ List.cons
      (congrArg₂ Prod.mk (shown_mapColors hf e.1 s) (shown_mapColors hf e.2 _))
      (shown_mapColorsEntries hf es _)
  termination_by structural es

end

/-! ## What looks alike -/

/-- The two values cannot be told apart by comparing, digesting or printing them. -/
structure LooksLike [Hasher] (v w : Value) : Prop where
  digest : v.digest = w.digest
  prints : PrintsAlike v w
  beq_left : ∀ x : Value, v.beq x = w.beq x
  beq_right : ∀ x : Value, x.beq v = x.beq w

section Looks

variable [Hasher]

theorem digest_shown (v : Value) : v.shown.digest = v.digest :=
  unseen_showColor.digest_everywhere (fun v => by cases v <;> rfl) v

theorem beq_shown (v w : Value) : v.shown.beq w.shown = v.beq w :=
  unseen_showColor.beq_everywhere (.of_forall digest_shown v) (.of_forall digest_shown w)

omit [Hasher] in
theorem printsAlike_shown (v : Value) : PrintsAlike v.shown v := unseen_showColor.printsAlike v

/-- Values that show the same look alike. -/
theorem looksLike_of_shown {v w : Value} (h : v.shown = w.shown) : LooksLike v w where
  digest := by rw [← digest_shown v, h, digest_shown]
  prints := (printsAlike_shown v).symm.trans (h ▸ printsAlike_shown w)
  beq_left x := by rw [← beq_shown v, h, beq_shown]
  beq_right x := by rw [← beq_shown x v, h, beq_shown]

/-- **Keeping forms in cells is not seen.** -/
theorem looksLike_inCells {f : Color → Color} (hf : ∀ c, (f c).shown = c.shown) (cells : List Nat)
    (v : Value) : LooksLike (v.inCells f cells) v := by
  refine looksLike_of_shown ?_
  unfold inCells
  split_ifs with hnone
  · rfl
  · refine shown_mapColors (fun c _ => ?_) v ()
    by_cases hcell : cells.contains c.cell = true
    · exact (congrArg Color.shown (if_pos hcell)).trans (hf c)
    · exact congrArg Color.shown (if_neg hcell)

theorem looksLike_rememberRgb (cells : List Nat) (v : Value) : LooksLike (v.rememberRgb cells) v :=
  looksLike_inCells Color.shown_rememberRgb cells v

theorem looksLike_rememberHsl (cells : List Nat) (v : Value) : LooksLike (v.rememberHsl cells) v :=
  looksLike_inCells Color.shown_rememberHsl cells v

end Looks

/-! ## Numbers for colours -/

/-- The cells of the colours in a value, from the left. -/
def ownCells (v : Value) : List Nat := v.cells (fun c => [c.cell]) true

/-- Gives a colour without a cell the next one. -/
def intoCell (c : Color) : StateM Nat Color := fun next =>
  if c.cell = 0 then (c.withCell next, next + 1) else (c, next)

theorem share_eq (v : Value) (next : Nat) : v.share next = (v.mapColors intoCell).run next := rfl

theorem showsNothing_intoCell : ShowsNothing intoCell := by
  intro c next
  by_cases hcell : c.cell = 0
  · simp [intoCell, hcell, StateT.run, Color.shown_withCell]
  · simp [intoCell, hcell, StateT.run]

/-- **Sharing is not seen.** -/
theorem looksLike_share [Hasher] (v : Value) (next : Nat) : LooksLike (v.share next).1 v :=
  looksLike_of_shown (shown_mapColors showsNothing_intoCell v next)

/-- The counter went from `n` to `n'` while colours in the cells `old` got the cells `new`. Where
`start` was above all old cells, the new ones above it stand in order. -/
structure Numbered (start : Nat) (old : List Nat) (n n' : Nat) (new : List Nat) : Prop where
  le : n ≤ n'
  mem : (∀ k ∈ old, k < start) → ∀ k ∈ new, (k ≠ 0 ∧ k < start) ∨ (n ≤ k ∧ k < n')
  sorted : (∀ k ∈ old, k < start) → start ≤ n →
    (new.filter (start ≤ ·)).Pairwise (· < ·)

namespace Numbered

variable {start n m n' : Nat} {old old' new new' : List Nat}

theorem nil (n : Nat) : Numbered start [] n n [] :=
  ⟨Nat.le_refl n, fun _ => nofun, fun _ _ => List.Pairwise.nil⟩

theorem mono (h : Numbered start old n m new) (hle : m ≤ n') : Numbered start old n n' new where
  le := Nat.le_trans h.le hle
  mem hold k hk := (h.mem hold k hk).imp_right fun hnew => ⟨hnew.1, Nat.lt_of_lt_of_le hnew.2 hle⟩
  sorted := h.sorted

/-- **Runs one after the other give out more.** -/
theorem append (h : Numbered start old n m new) (h' : Numbered start old' m n' new') :
    Numbered start (old ++ old') n n' (new ++ new') where
  le := Nat.le_trans h.le h'.le
  mem hold k hk := by
    obtain ⟨hleft, hright⟩ := List.forall_mem_append.1 hold
    rcases List.mem_append.1 hk with hk | hk
    · exact (h.mono h'.le).mem hleft k hk
    · exact (h'.mem hright k hk).imp_right fun hnew => ⟨Nat.le_trans h.le hnew.1, hnew.2⟩
  sorted hold hstart := by
    obtain ⟨hleft, hright⟩ := List.forall_mem_append.1 hold
    rw [List.filter_append, List.pairwise_append]
    refine ⟨h.sorted hleft hstart, h'.sorted hright (Nat.le_trans hstart h.le), fun j hj k hk => ?_⟩
    simp only [List.mem_filter, decide_eq_true_eq] at hj hk
    -- What the first run gave out lies below `m`, and what the second gave out does not.
    have hj' := h.mem hleft j hj.1
    have hk' := h'.mem hright k hk.1
    omega

end Numbered

variable {start : Nat}

theorem numbered_intoCell (c : Color) (n : Nat) :
    Numbered start [c.cell] n ((intoCell c).run n).2 [((intoCell c).run n).1.cell] := by
  by_cases hcell : c.cell = 0
  · have hnew : (c.withCell n).cell = n := by cases c <;> rfl
    have hrun : (intoCell c).run n = (c.withCell n, n + 1) := if_pos hcell
    rw [hrun, hnew]
    refine ⟨Nat.le_succ n, fun _ k hk => ?_, fun _ _ => (List.pairwise_singleton _ n).filter _⟩
    obtain rfl := List.mem_singleton.1 hk
    exact .inr ⟨Nat.le_refl _, Nat.lt_succ_self _⟩
  · have hrun : (intoCell c).run n = (c, n) := if_neg hcell
    rw [hrun]
    refine ⟨Nat.le_refl n, fun hold k hk => ?_,
      fun _ _ => (List.pairwise_singleton _ c.cell).filter _⟩
    obtain rfl := List.mem_singleton.1 hk
    exact .inl ⟨hcell, hold _ hk⟩

mutual

/-- **A run over a value gives out the numbers of its counter**, one after the other. -/
theorem numbered_mapColors (v : Value) (n : Nat) : Numbered start v.ownCells n
    ((v.mapColors intoCell).run n).2 ((v.mapColors intoCell).run n).1.ownCells := by
  cases v with
  | color c => exact numbered_intoCell c n
  | template t => exact numbered_fragments t.fragments n
  | list l => exact (numbered_items l.items n).append (numbered_keywords l.keywords _)
  | map m =>
    -- The duplicate that a map remembers is no part of it, but its colours get cells as well.
    obtain ⟨_, _, hduplicate⟩ :=
      numbered_option m.duplicate? ((mapColorsEntries intoCell m.entries).run n).2
    exact (numbered_entries m.entries n).mono hduplicate.le
  | call c => exact numbered_arguments c.arguments n
  | operation e => exact (numbered_mapColors e.left n).append (numbered_mapColors e.right _)
  | _ => exact .nil n
  termination_by structural v

theorem numbered_items (vs : List Value) (n : Nat) :
    Numbered start (itemCells (fun c => [c.cell]) true vs) n
      ((mapColorsItems intoCell vs).run n).2
      (itemCells (fun c => [c.cell]) true ((mapColorsItems intoCell vs).run n).1) := by
  cases vs with
  | nil => exact .nil n
  | cons v vs => exact (numbered_mapColors v n).append (numbered_items vs _)
  termination_by structural vs

theorem numbered_option (v : Option Value) (n : Nat) :
    ∃ old new, Numbered start old n ((mapColorsOption intoCell v).run n).2 new := by
  cases v with
  | none => exact ⟨[], [], .nil n⟩
  | some v => exact ⟨_, _, numbered_mapColors v n⟩
  termination_by structural v

theorem numbered_fragments (fs : List (Fragment Value)) (n : Nat) :
    Numbered start (fragmentCells (fun c => [c.cell]) true fs) n
      ((mapColorsFragments intoCell fs).run n).2
      (fragmentCells (fun c => [c.cell]) true ((mapColorsFragments intoCell fs).run n).1) := by
  cases fs with
  | nil => exact .nil n
  | cons p fs =>
    cases p with
    | text s => exact numbered_fragments fs n
    | hole v => exact (numbered_mapColors v n).append (numbered_fragments fs _)
  termination_by structural fs

theorem numbered_keywords (ks : List (String × Value)) (n : Nat) :
    Numbered start (keywordCells (fun c => [c.cell]) true ks) n
      ((mapColorsKeywords intoCell ks).run n).2
      (keywordCells (fun c => [c.cell]) true ((mapColorsKeywords intoCell ks).run n).1) := by
  cases ks with
  | nil => exact .nil n
  | cons k ks => exact (numbered_mapColors k.2 n).append (numbered_keywords ks _)
  termination_by structural ks

theorem numbered_entries (es : List (Value × Value)) (n : Nat) :
    Numbered start (entryCells (fun c => [c.cell]) true es) n
      ((mapColorsEntries intoCell es).run n).2
      (entryCells (fun c => [c.cell]) true ((mapColorsEntries intoCell es).run n).1) := by
  cases es with
  | nil => exact .nil n
  | cons e es =>
    exact ((numbered_mapColors e.1 n).append (numbered_mapColors e.2 _)).append
      (numbered_entries es _)
  termination_by structural es

theorem numbered_arguments (as : List (Argument Value)) (n : Nat) :
    Numbered start (argumentCells (fun c => [c.cell]) true as) n
      ((mapColorsArguments intoCell as).run n).2
      (argumentCells (fun c => [c.cell]) true ((mapColorsArguments intoCell as).run n).1) := by
  cases as with
  | nil => exact .nil n
  | cons a as => exact (numbered_mapColors a.value n).append (numbered_arguments as _)
  termination_by structural as

end

/-- **Sharing puts every colour into a cell, and gives colours that had none different ones.** The
new cells, from the next one on, stand in order. -/
theorem share_numbers (v : Value) (next : Nat) (hnext : 0 < next)
    (hv : ∀ k ∈ v.ownCells, k < next) :
    (∀ k ∈ (v.share next).1.ownCells, k ≠ 0 ∧ k < (v.share next).2) ∧
      ((v.share next).1.ownCells.filter (next ≤ ·)).Pairwise (· < ·) := by
  have hrun : Numbered next v.ownCells next (v.share next).2 (v.share next).1.ownCells :=
    numbered_mapColors v next
  refine ⟨fun k hk => ?_, hrun.sorted hv (Nat.le_refl next)⟩
  have hle := hrun.le
  rcases hrun.mem hv k hk with hold | hnew <;> omega

end Value

end Stylesheet
