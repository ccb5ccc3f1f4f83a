import Stylesheet.Proofs.Equality.Layer
import Stylesheet.Proofs.Text.RoundTrip
import Stylesheet.Value.Render

/-!
# Nested lists read one way

**Theorem (`Value.inspect_eq_iff_beq`).** Two trees of lists over strings have the same text in an
inspection exactly when they are equal. The strings may hold anything but a carriage return in
front of a line break, so also commas, brackets and quote marks. A list without brackets and with
spaces has two items or more, and every other list has one or more.

As an item of a list with spaces every such value is packed: it begins with a quote mark, a
parenthesis or a bracket, and its text says where it ends, whatever follows (`Value.Delimited`). An
item of a list with commas is a row of packed values, and the inside of a list is rows with commas
between them; a comma at the end tells a lone row from a list with spaces. So the text of a list is
read off from the left, first its rows and then their values (`intercalate_append_inj`), and the
induction is on the tree.
-/

namespace Stylesheet

namespace Text

/-! ## Where a quoted text ends -/

/-- What stands behind the first mark `q` that no backslash escapes. -/
def afterMark? (q : Char) : List Char → Option (List Char)
  | [] => none
  | c :: cs =>
    if c = '\\' then
      match cs with
      | [] => none
      | _ :: cs => afterMark? q cs
    else if c = q then some cs
    else afterMark? q cs

theorem afterMark?_escape (q c : Char) (cs : List Char) :
    afterMark? q ('\\' :: c :: cs) = afterMark? q cs := by
  rw [afterMark?, if_pos rfl]

theorem afterMark?_plain {q c : Char} (hback : c ≠ '\\') (hmark : c ≠ q) (cs : List Char) :
    afterMark? q (c :: cs) = afterMark? q cs := by
  rw [afterMark?.eq_def]
  simp only [if_neg hback, if_neg hmark]

/-- A text that was written between marks ends at the mark behind it, whatever follows. -/
theorem afterMark?_escapeBody {q : Char} (hq : isMark q = true) (cs r : List Char) :
    afterMark? q (escapeBody q cs ++ q :: r) = some r := by
  have hback : q ≠ '\\' := by
    rintro rfl
    exact absurd hq (by decide)
  have hspace : ' ' ≠ q := by
    rintro rfl
    exact absurd hq (by decide)
  have hbreak (cs rest : List Char) :
      afterMark? q (newlineEscape cs ++ rest) = afterMark? q rest := by
    unfold newlineEscape
    split_ifs
    · exact (afterMark?_escape q 'a' _).trans (afterMark?_plain (by decide) hspace rest)
    · exact afterMark?_escape q 'a' rest
  fun_induction escapeBody q cs with
  | case1 =>
    rw [List.nil_append, afterMark?.eq_def]
    simp only [if_neg hback, if_true]
  | case2 cs ih | case3 cs ih => rw [List.append_assoc, hbreak, ih]
  | case4 cs _ _ ih => exact (afterMark?_escape q '\\' _).trans ih
  | case5 cs _ _ _ ih => exact (afterMark?_escape q q _).trans ih
  | case6 c cs _ _ hc hmark ih => exact (afterMark?_plain hc hmark _).trans ih

/-- A quoted text says where it ends, and up to carriage returns what was quoted. -/
theorem quoteWith_append_inj {p q : Char} (hp : isMark p = true) (hq : isMark q = true)
    {cs ds r r' : List Char} (h : quoteWith p cs ++ r = quoteWith q ds ++ r') :
    joinBreaks cs = joinBreaks ds ∧ r = r' := by
  simp only [quoteWith, List.cons_append, List.append_assoc, List.nil_append,
    List.cons.injEq] at h
  obtain ⟨rfl, h⟩ := h
  have hrest : some r = some r' := by
    rw [← afterMark?_escapeBody hp cs r, h, afterMark?_escapeBody hp ds r']
  obtain rfl := Option.some.inj hrest
  have hbody : escapeBody p cs = escapeBody p ds := List.append_cancel_right h
  have hread (cs : List Char) : unescapeBody? {} p false (escapeBody p cs) = some (joinBreaks cs) :=
    unescapeBody?_escapeBody rfl hp cs
  have htext : some (joinBreaks cs) = some (joinBreaks ds) := by
    rw [← hread cs, hbody, hread ds]
  exact ⟨Option.some.inj htext, rfl⟩

end Text

/-! ## Texts with a separator in between -/

/-- Texts that say where they end, in front of what satisfies `p`, also do so with a separator in
between, in front of what does not begin with the separator. -/
theorem intercalate_append_inj {α : Type} {sep : List Char} {p : List Char → Prop}
    {text : α → List Char} {same : α → α → Prop} (hsep : ∀ r, p (sep ++ r)) {as bs : List α}
    (htext : ∀ a ∈ as, ∀ b ∈ bs, ∀ r r', p r → p r' → text a ++ r = text b ++ r' →
      same a b ∧ r = r')
    (has : as ≠ []) (hbs : bs ≠ []) {r r' : List Char} (hr : p r ∧ ¬ sep <+: r)
    (hr' : p r' ∧ ¬ sep <+: r')
    (h : sep.intercalate (as.map text) ++ r = sep.intercalate (bs.map text) ++ r') :
    List.Forall₂ same as bs ∧ r = r' := by
  induction as generalizing bs with
  | nil => exact absurd rfl has
  | cons a as ih =>
    cases bs with
    | nil => exact absurd rfl hbs
    | cons b bs =>
      have hhead := htext a List.mem_cons_self b List.mem_cons_self
      cases as with
      | nil =>
        cases bs with
        | nil =>
          obtain ⟨hab, hrest⟩ := hhead r r' hr.1 hr'.1 (by simpa using h)
          exact ⟨.cons hab .nil, hrest⟩
        | cons b' bs =>
          obtain ⟨-, hrest⟩ := hhead r (sep ++ (sep.intercalate (text b' :: bs.map text) ++ r'))
            hr.1 (hsep _) (by simpa [List.intercalate_cons_cons] using h)
          exact absurd ⟨_, hrest.symm⟩ hr.2
      | cons a' as =>
        cases bs with
        | nil =>
          obtain ⟨-, hrest⟩ := hhead (sep ++ (sep.intercalate (text a' :: as.map text) ++ r)) r'
            (hsep _) hr'.1 (by simpa [List.intercalate_cons_cons] using h)
          exact absurd ⟨_, hrest⟩ hr'.2
        | cons b' bs =>
          obtain ⟨hab, hrest⟩ := hhead (sep ++ (sep.intercalate (text a' :: as.map text) ++ r))
            (sep ++ (sep.intercalate (text b' :: bs.map text) ++ r')) (hsep _) (hsep _)
            (by simpa [List.intercalate_cons_cons] using h)
          obtain ⟨htail, hrest⟩ := ih
            (fun x hx y hy => htext x (List.mem_cons_of_mem a hx) y (List.mem_cons_of_mem b hy))
            (List.cons_ne_nil a' as) (List.cons_ne_nil b' bs) (List.append_cancel_left hrest)
          exact ⟨.cons hab htail, hrest⟩

/-! ## Rows of packed values -/

namespace Value

/-- The text of a value as an item of a list with spaces. -/
def packed (v : Value) : List Char := (enclose .space v v.inspect).toList

/-- The packed values that an item of a list with commas consists of. -/
def row : Value → List Value
  | .list l => if l.bracketed = false ∧ l.separator = .space then l.items else [.list l]
  | v => [v]

/-- The text of a row. -/
def rowText (vs : List Value) : List Char := [' '].intercalate (vs.map packed)

end Value

namespace ListOf

/-- The rows of a list: one for each item if it has commas, and otherwise a single one. -/
def rows (l : ListOf Value) : List (List Value) :=
  match l.separator with
  | .comma => l.items.map Value.row
  | .space => [l.items]

/-- The comma behind a lone row. -/
def trail (l : ListOf Value) : List Char :=
  if l.separator = .comma ∧ l.items.length = 1 then [','] else []

/-- What a list begins with as an item of a list with spaces. -/
def opener (l : ListOf Value) : Char := if l.bracketed then '[' else '('

/-- What a list ends with as an item of a list with spaces. -/
def closer (l : ListOf Value) : Char := if l.bracketed then ']' else ')'

/-- The text between the brackets or parentheses of a list. -/
def inside (l : ListOf Value) : List Char :=
  [',', ' '].intercalate (l.rows.map Value.rowText) ++ l.trail

end ListOf

namespace Value

/-- A tree of lists over strings. No string holds a carriage return in front of a line break. Lists
with spaces and without brackets have two items or more, and all others one or more. -/
inductive Legible : Value → Prop where
  | string {s : StringValue} (h : ¬ ['\r', '\n'] <:+: s.text.toList) : Legible (.string s)
  | list {l : ListOf Value} (plain : l.arglist = false) (filled : l.items ≠ [])
      (paired : l.bracketed = false → l.separator = .space → 1 < l.items.length)
      (items : ∀ x ∈ l.items, Legible x) : Legible (.list l)

variable {v w : Value} {l m : ListOf Value}

theorem Legible.filled : Legible (.list l) → l.items ≠ []
  | .list _ filled _ _ => filled

theorem Legible.items : Legible (.list l) → ∀ x ∈ l.items, Legible x
  | .list _ _ _ items => items

/-! ## Texts of lists -/

theorem renderItems_inspecting (f : Format) (separator : Separator) (vs : List Value) :
    renderItems f true separator vs = vs.map fun v => enclose separator v (render f true v) := by
  simp [renderItems_eq_map]

theorem inspect_list (hfilled : l.items ≠ []) :
    (inspect (.list l)).toList =
      let text := (l.separator.text false).toList.intercalate
        (l.items.map fun v => (enclose l.separator v v.inspect).toList) ++ l.trail
      if l.bracketed then '[' :: text ++ [']']
      else if l.trail = [] then text else '(' :: text ++ [')'] := by
  have hempty : l.items.isEmpty = false := List.isEmpty_eq_false_iff.2 hfilled
  have htrail : l.trail = if (l.separator == .comma && l.items.length == 1) = true
      then [','] else [] := by
    simp [ListOf.trail]
  rw [inspect, render, renderItems_inspecting, ListOf.assemble, hempty, htrail]
  simp only [List.length_map, Bool.true_and, Bool.false_eq_true, if_false]
  split_ifs <;> simp [String.toList_intercalate, inspect, Function.comp_def] <;> contradiction

/-- An item of a list with commas is a row, or it is packed as in a list with spaces. -/
theorem row_cases (v : Value) :
    (∃ l, v = .list l ∧ l.bracketed = false ∧ l.separator = .space ∧ row v = l.items) ∨
      (row v = [v] ∧ ∀ text, enclose .comma v text = enclose .space v text) := by
  cases v with
  | list l =>
    by_cases hrow : l.bracketed = false ∧ l.separator = .space
    · exact .inl ⟨l, rfl, hrow.1, hrow.2, if_pos hrow⟩
    · refine .inr ⟨if_neg hrow, fun text => ?_⟩
      have hsame : l.needsParens .comma = l.needsParens .space := by
        cases hb : l.bracketed <;> cases hs : l.separator <;> simp_all [ListOf.needsParens]
      rw [enclose, enclose, hsame]
  | _ => exact .inr ⟨rfl, fun _ => rfl⟩

theorem enclose_comma (hv : Legible v) :
    (enclose .comma v v.inspect).toList = rowText (row v) := by
  rcases row_cases v with ⟨l, rfl, hplain, hspace, hrow⟩ | ⟨hrow, hsame⟩
  · have hopen : l.needsParens .comma = false := by simp [ListOf.needsParens, hspace]
    have htrail : l.trail = [] := by simp [ListOf.trail, hspace]
    rw [hrow, enclose, hopen, if_neg Bool.false_ne_true, inspect_list hv.filled, htrail, hplain,
      hspace, List.append_nil]
    rfl
  · rw [hrow, hsame]
    exact List.intercalate_singleton.symm

theorem Legible.inspect_list (h : Legible (.list l)) :
    (inspect (.list l)).toList =
      if l.bracketed then '[' :: l.inside ++ [']']
      else if l.trail = [] then l.inside else '(' :: l.inside ++ [')'] := by
  rw [Value.inspect_list h.filled]
  have hinside : (l.separator.text false).toList.intercalate
      (l.items.map fun v => (enclose l.separator v v.inspect).toList) ++ l.trail = l.inside := by
    unfold ListOf.inside ListOf.rows
    congr 1
    cases l.separator with
    | comma =>
      rw [List.map_map, List.map_congr_left fun v hv => enclose_comma (h.items v hv)]
      rfl
    | space => exact List.intercalate_singleton.symm
  simp only [hinside]

/-- A list is packed in brackets or in parentheses. -/
theorem Legible.packed_list (h : Legible (.list l)) :
    packed (.list l) = l.opener :: (l.inside ++ [l.closer]) := by
  have htext := h.inspect_list
  cases h with
  | list _ hfilled hpaired _ =>
    have hpos := List.length_pos_iff.2 hfilled
    unfold packed enclose ListOf.opener ListOf.closer
    cases hb : l.bracketed with
    | true => simp [ListOf.needsParens, hb, htext]
    | false =>
      by_cases hmany : 1 < l.items.length
      · have htrail : l.trail = [] := by
          simp [ListOf.trail]
          omega
        simp [ListOf.needsParens, hb, htext, hmany, htrail]
      · -- Without brackets, a single item has a comma behind it.
        have hcomma : l.separator = .comma := by
          cases hs : l.separator with
          | comma => rfl
          | space => exact absurd (hpaired hb hs) hmany
        have htrail : l.trail = [','] := by
          simp [ListOf.trail, hcomma]
          omega
        simp [ListOf.needsParens, hb, htext, hmany, htrail]

/-! ## Equality of trees -/

theorem Legible.beq_list_iff [Hasher] (hl : Legible (.list l)) (hm : Legible (.list m)) :
    (Value.list l).beq (.list m) = true ↔ l.separator = m.separator ∧
      l.bracketed = m.bracketed ∧ List.Forall₂ (fun x y => x.beq y = true) l.items m.items := by
  cases hl with
  | list hplain _ _ _ =>
    cases hm with
    | list hplain' _ _ _ => simp [beq, hplain, hplain', beqItems_eq, isEqv_iff_forall₂, and_assoc]

/-- A row has values, and they are trees as well. -/
theorem Legible.row (hv : Legible v) : v.row ≠ [] ∧ ∀ x ∈ v.row, Legible x := by
  rcases row_cases v with ⟨l, rfl, -, -, hrow⟩ | ⟨hrow, -⟩
  · rw [hrow]
    exact ⟨hv.filled, hv.items⟩
  · rw [hrow]
    exact ⟨List.cons_ne_nil v [], List.forall_mem_singleton.2 hv⟩

/-- Trees with equal rows are equal. -/
theorem Legible.beq_of_row [Hasher] (hv : Legible v) (hw : Legible w)
    (h : List.Forall₂ (fun x y => x.beq y = true) v.row w.row) : v.beq w = true := by
  -- A list is no row of a single value.
  have hlong {l : ListOf Value} (hl : Legible (.list l)) (hb : l.bracketed = false)
      (hs : l.separator = .space) : l.items.length ≠ 1 := by
    cases hl with
    | list _ _ hpaired _ => exact (hpaired hb hs).ne'
  rcases row_cases v with ⟨l, rfl, hl, hls, hrow⟩ | ⟨hrow, -⟩ <;>
    rcases row_cases w with ⟨m, rfl, hm, hms, hrow'⟩ | ⟨hrow', -⟩ <;> rw [hrow, hrow'] at h
  · exact (hv.beq_list_iff hw).2 ⟨hls.trans hms.symm, hl.trans hm.symm, h⟩
  · exact absurd h.length_eq (hlong hv hl hls)
  · exact absurd h.length_eq.symm (hlong hw hm hms)
  · cases h with
    | cons h _ => exact h

/-! ## Reading from the left -/

/-- Packed, the value is read as nothing else and has one end, whatever follows it. -/
def Delimited [Hasher] (v : Value) : Prop :=
  ∀ w, Legible w → ∀ r r', packed v ++ r = packed w ++ r' → v.beq w = true ∧ r = r'

theorem rowText_append_inj [Hasher] {vs ws : List Value} (hvs : ∀ v ∈ vs, Delimited v)
    (hws : ∀ w ∈ ws, Legible w) (hne : vs ≠ []) (hne' : ws ≠ []) {r r' : List Char}
    (hr : ¬ [' '] <+: r) (hr' : ¬ [' '] <+: r') (h : rowText vs ++ r = rowText ws ++ r') :
    List.Forall₂ (fun x y => x.beq y = true) vs ws ∧ r = r' :=
  intercalate_append_inj (p := fun _ => True) (fun _ => trivial)
    (fun v hv w hw r r' _ _ => hvs v hv w (hws w hw) r r') hne hne' ⟨trivial, hr⟩ ⟨trivial, hr'⟩ h

theorem rows_ne_nil (hne : l.items ≠ []) : l.rows ≠ [] := by
  unfold ListOf.rows
  cases l.separator with
  | comma => exact fun h => hne (List.map_eq_nil_iff.1 h)
  | space => exact List.cons_ne_nil l.items []

theorem legible_of_mem_rows (hl : ∀ x ∈ l.items, Legible x) (hne : l.items ≠ []) :
    ∀ vs ∈ l.rows, vs ≠ [] ∧ ∀ v ∈ vs, Legible v := by
  unfold ListOf.rows
  cases l.separator with
  | comma => exact List.forall_mem_map.2 fun x hx => (hl x hx).row
  | space => exact List.forall_mem_singleton.2 ⟨hne, hl⟩

/-- A text in front of which a list can end: it begins no further item. -/
def Closing (r : List Char) : Prop := ∀ c ∈ r.head?, c ≠ ' ' ∧ c ≠ ','

theorem trail_cases (l : ListOf Value) :
    (l.separator = .comma ∧ l.items.length = 1 ∧ l.trail = [',']) ∨
      (¬ (l.separator = .comma ∧ l.items.length = 1) ∧ l.trail = []) := by
  unfold ListOf.trail
  split_ifs with h
  · exact .inl ⟨h.1, h.2, rfl⟩
  · exact .inr ⟨h, rfl⟩

/-- Behind its rows a list ends, with or without a comma. -/
theorem Closing.trail {r : List Char} (hr : Closing r) (l : ListOf Value) :
    ¬ [' '] <+: l.trail ++ r ∧ ¬ [',', ' '] <+: l.trail ++ r := by
  have hspace : ¬ [' '] <+: r := by
    rintro ⟨rest, rfl⟩
    exact (hr ' ' rfl).1 rfl
  have hcomma : ¬ [',', ' '] <+: r := by
    rintro ⟨rest, rfl⟩
    exact (hr ',' rfl).2 rfl
  rcases trail_cases l with ⟨-, -, htrail⟩ | ⟨-, htrail⟩ <;> rw [htrail]
  · simp [hspace]
  · exact ⟨hspace, hcomma⟩

theorem trail_append_inj {r s : List Char} (hr : Closing r) (hs : Closing s)
    (h : l.trail ++ r = m.trail ++ s) : l.trail = m.trail ∧ r = s := by
  rcases trail_cases l with ⟨-, -, hl⟩ | ⟨-, hl⟩ <;>
    rcases trail_cases m with ⟨-, -, hm⟩ | ⟨-, hm⟩ <;> rw [hl, hm] at h ⊢
  · exact ⟨rfl, List.append_cancel_left h⟩
  · obtain rfl : ',' :: r = s := h
    exact absurd rfl (hs ',' rfl).2
  · obtain rfl : r = ',' :: s := h
    exact absurd rfl (hr ',' rfl).2
  · exact ⟨rfl, h⟩

/-- The inside of a list gives back its separator and its items. -/
theorem inside_append_inj [Hasher] (hl : ∀ x ∈ l.items, Legible x) (hm : ∀ x ∈ m.items, Legible x)
    (hne : l.items ≠ []) (hne' : m.items ≠ []) (hd : ∀ vs ∈ l.rows, ∀ v ∈ vs, Delimited v)
    {r r' : List Char} (hr : Closing r) (hr' : Closing r')
    (h : l.inside ++ r = m.inside ++ r') :
    l.separator = m.separator ∧
      List.Forall₂ (fun x y => x.beq y = true) l.items m.items ∧ r = r' := by
  obtain ⟨hrows, hrest⟩ :
      List.Forall₂ (List.Forall₂ fun x y => x.beq y = true) l.rows m.rows ∧
        l.trail ++ r = m.trail ++ r' := by
    have hl := legible_of_mem_rows hl hne
    have hm := legible_of_mem_rows hm hne'
    refine intercalate_append_inj (p := fun r => ¬ [' '] <+: r) (fun r => by simp)
      (fun vs hvs ws hws r r' => ?_) (rows_ne_nil hne) (rows_ne_nil hne') (hr.trail l)
      (hr'.trail m) (by simpa [ListOf.inside] using h)
    exact rowText_append_inj (hd vs hvs) (hm ws hws).2 (hl vs hvs).1 (hm ws hws).1
  obtain ⟨htrail, rfl⟩ := trail_append_inj hr hr' hrest
  -- A lone row of a list with commas has a comma behind it.
  have hlone {l m : ListOf Value} (hl : l.separator = .comma) (hm : m.separator = .space)
      (hlen : l.rows.length = m.rows.length) : l.trail ≠ m.trail := by
    have hone : l.items.length = 1 := by simpa [ListOf.rows, hl, hm] using hlen
    simp [ListOf.trail, hl, hm, hone]
  cases hs : l.separator <;> cases hs' : m.separator
  case space.space =>
    simp only [ListOf.rows, hs, hs'] at hrows
    cases hrows with
    | cons hitems _ => exact ⟨rfl, hitems, rfl⟩
  case space.comma => exact absurd htrail.symm (hlone hs' hs hrows.length_eq.symm)
  case comma.space => exact absurd htrail (hlone hs hs' hrows.length_eq)
  case comma.comma =>
    simp only [ListOf.rows, hs, hs', List.forall₂_map_left_iff,
      List.forall₂_map_right_iff] at hrows
    obtain ⟨hlen, hzip⟩ := List.forall₂_iff_zip.1 hrows
    refine ⟨rfl, List.forall₂_iff_zip.2 ⟨hlen, fun hxy => ?_⟩, rfl⟩
    obtain ⟨hx, hy⟩ := List.of_mem_zip hxy
    exact (hl _ hx).beq_of_row (hm _ hy) (hzip hxy)

/-! ## Every tree is delimited -/

theorem packed_string (s : StringValue) :
    packed (.string s) = Text.quoteWith (Text.bestMark s.text.toList Text.double) s.text.toList :=
  String.toList_ofList

/-- No bracket is a quote mark. -/
theorem packed_string_ne_list (s : StringValue) (hl : Legible (.list l)) (r r' : List Char) :
    packed (.string s) ++ r ≠ packed (.list l) ++ r' := by
  rw [packed_string, hl.packed_list]
  intro h
  have hmark := Text.isMark_bestMark s.text.toList Text.double
  rw [(List.cons.inj h).1, ListOf.opener] at hmark
  split_ifs at hmark <;> exact absurd hmark (by decide)

theorem delimited_string [Hasher] {s : StringValue} (hs : ¬ ['\r', '\n'] <:+: s.text.toList) :
    Delimited (.string s) := by
  intro w hw r r' h
  cases w with
  | string t =>
    obtain ⟨ht⟩ := hw
    rw [packed_string, packed_string] at h
    obtain ⟨htext, hrest⟩ := Text.quoteWith_append_inj (Text.isMark_bestMark _ _)
      (Text.isMark_bestMark _ _) h
    rw [(Text.joinBreaks_eq_self_iff _).2 hs, (Text.joinBreaks_eq_self_iff _).2 ht] at htext
    exact ⟨beq_iff_eq.2 (String.toList_inj.1 htext), hrest⟩
  | list l => exact absurd h (packed_string_ne_list s hw r r')
  | _ => cases hw

theorem closing_closer (l : ListOf Value) (r : List Char) : Closing (l.closer :: r) := by
  intro c hc
  obtain rfl : l.closer = c := by simpa using hc
  unfold ListOf.closer
  split_ifs <;> decide

theorem bracketed_eq_of_opener (h : l.opener = m.opener) : l.bracketed = m.bracketed := by
  unfold ListOf.opener at h
  cases hl : l.bracketed <;> cases hm : m.bracketed <;> simp_all

theorem delimited_list [Hasher] (hl : Legible (.list l))
    (hd : ∀ vs ∈ l.rows, ∀ v ∈ vs, Delimited v) : Delimited (.list l) := by
  intro w hw r r' h
  cases w with
  | string s => exact absurd h.symm (packed_string_ne_list s hl r' r)
  | list m =>
    simp only [hl.packed_list, hw.packed_list, List.cons_append, List.append_assoc,
      List.nil_append, List.cons.injEq] at h
    obtain ⟨hopener, h⟩ := h
    obtain ⟨hseparator, hitems, hrest⟩ := inside_append_inj hl.items hw.items hl.filled hw.filled
      hd (closing_closer l r) (closing_closer m r') h
    exact ⟨(hl.beq_list_iff hw).2 ⟨hseparator, bracketed_eq_of_opener hopener, hitems⟩,
      List.tail_eq_of_cons_eq hrest⟩
  | _ => cases hw

/-- Every tree is delimited, and so are the values of its row. -/
theorem Legible.delimited [Hasher] (hv : Legible v) : ∀ x ∈ v :: v.row, Delimited x := by
  induction hv with
  | string hs =>
    have h := delimited_string hs
    exact List.forall_mem_cons.2 ⟨h, List.forall_mem_singleton.2 h⟩
  | @list l hplain hfilled hpaired hitems ih =>
    have hrows : ∀ vs ∈ l.rows, ∀ v ∈ vs, Delimited v := by
      unfold ListOf.rows
      cases l.separator with
      | comma => exact List.forall_mem_map.2 fun x hx => (List.forall_mem_cons.1 (ih x hx)).2
      | space =>
        exact List.forall_mem_singleton.2 fun x hx => (List.forall_mem_cons.1 (ih x hx)).1
    have hself := delimited_list (.list hplain hfilled hpaired hitems) hrows
    refine List.forall_mem_cons.2 ⟨hself, ?_⟩
    rcases row_cases (.list l) with ⟨k, hk, -, -, hrow⟩ | ⟨hrow, -⟩ <;> rw [hrow]
    · obtain rfl : l = k := Value.list.inj hk
      exact fun x hx => (List.forall_mem_cons.1 (ih x hx)).1
    · exact List.forall_mem_singleton.2 hself

/-! ## Whole texts -/

/-- A tree by itself shows the inside of a list of trees: of itself, if it is a list of two items or
more without brackets, and otherwise of one that has it as a single item. -/
theorem Legible.exists_inside (hv : Legible v) :
    ∃ k : ListOf Value, v.inspect.toList = k.inside ∧ k.items ≠ [] ∧
      (∀ x ∈ k.items, Legible x) ∧
      ((v = .list k ∧ k.bracketed = false ∧ 1 < k.items.length) ∨ k.items = [v]) := by
  by_cases hbare : ∃ l, v = .list l ∧ l.bracketed = false ∧ 1 < l.items.length
  · obtain ⟨l, rfl, hplain, hmany⟩ := hbare
    have htrail : l.trail = [] := by
      simp [ListOf.trail]
      omega
    exact ⟨l, by rw [hv.inspect_list, hplain, htrail]; rfl, hv.filled, hv.items,
      .inl ⟨rfl, hplain, hmany⟩⟩
  · have hpacked : packed v = v.inspect.toList := by
      unfold packed enclose
      cases v with
      | list l =>
        have hopen : l.needsParens .space = false := by
          have : l.bracketed = false → ¬ 1 < l.items.length := fun hb hmany =>
            hbare ⟨l, rfl, hb, hmany⟩
          cases hb : l.bracketed <;> simp_all [ListOf.needsParens]
        simp only [hopen, Bool.false_eq_true, if_false]
      | _ => rfl
    refine ⟨{ items := [v], span := .nowhere }, ?_, List.cons_ne_nil v [],
      List.forall_mem_singleton.2 hv, .inr rfl⟩
    rw [← hpacked]
    simp [ListOf.inside, ListOf.rows, ListOf.trail, rowText]

/-- Equal trees stand in parentheses in the same places. -/
theorem Legible.enclose_eq [Hasher] (hv : Legible v) (hw : Legible w) (h : v.beq w = true)
    (outer : Separator) (text : String) : enclose outer v text = enclose outer w text := by
  cases hv with
  | string _ =>
    cases hw with
    | string _ => rfl
    | list _ _ _ _ => cases h
  | @list l hplain hfilled hpaired hitems =>
    cases w with
    | list m =>
      obtain ⟨hseparator, hbracketed, hequal⟩ :=
        ((Legible.list hplain hfilled hpaired hitems).beq_list_iff hw).1 h
      rw [enclose, enclose, ListOf.needsParens, hseparator, hbracketed, hequal.length_eq,
        ListOf.needsParens]
    | _ => cases h

/-- Equal trees have one text. -/
theorem Legible.inspect_of_beq [Hasher] (hv : Legible v) (hw : Legible w) (h : v.beq w = true) :
    v.inspect = w.inspect := by
  induction hv generalizing w with
  | @string s _ =>
    cases hw with
    | @string t _ => exact congrArg (Text.quote · none) (beq_iff_eq.1 h)
    | list _ _ _ _ => cases h
  | @list l hplain hfilled hpaired hitems ih =>
    cases w with
    | list m =>
      obtain ⟨hseparator, hbracketed, hequal⟩ :=
        ((Legible.list hplain hfilled hpaired hitems).beq_list_iff hw).1 h
      have htexts : (l.items.map fun x => (enclose l.separator x x.inspect).toList) =
          m.items.map fun x => (enclose l.separator x x.inspect).toList :=
        map_eq_of_isEqv (isEqv_iff_forall₂.2 hequal) fun x hx y hy hxy => by
          rw [(hitems x hx).enclose_eq (hw.items y hy) hxy, ih x hx (hw.items y hy) hxy]
      have htrail : l.trail = m.trail := by
        rw [ListOf.trail, ListOf.trail, hseparator, hequal.length_eq]
      rw [← String.toList_inj, Value.inspect_list hfilled, Value.inspect_list hw.filled, htexts,
        htrail, hseparator, hbracketed]
    | _ => cases h

/-- **Inspections of nested lists are unambiguous.** Trees of lists over strings have one text
exactly when they are equal. -/
theorem inspect_eq_iff_beq [Hasher] {a b : Value} (ha : Legible a) (hb : Legible b) :
    a.inspect = b.inspect ↔ a.beq b = true := by
  refine ⟨fun h => ?_, ha.inspect_of_beq hb⟩
  obtain ⟨l, hl, hne, hlegible, hal⟩ := ha.exists_inside
  obtain ⟨m, hm, hne', hlegible', hbm⟩ := hb.exists_inside
  have hd : ∀ vs ∈ l.rows, ∀ x ∈ vs, Delimited x := fun vs hvs x hx =>
    (List.forall_mem_cons.1 ((legible_of_mem_rows hlegible hne vs hvs).2 x hx).delimited).1
  have hend : Closing [] := fun c hc => by cases hc
  have hinside : l.inside = m.inside := by rw [← hl, ← hm, h]
  obtain ⟨hseparator, hitems, -⟩ := inside_append_inj hlegible hlegible' hne hne' hd hend hend
    (congrArg (· ++ []) hinside)
  -- A list of two items or more is no list of a single one.
  rcases hal with ⟨rfl, hplain, hmany⟩ | hal <;> rcases hbm with ⟨rfl, hplain', hmany'⟩ | hbm
  · exact (ha.beq_list_iff hb).2 ⟨hseparator, hplain.trans hplain'.symm, hitems⟩
  · exact absurd (hitems.length_eq.trans (congrArg List.length hbm)) hmany.ne'
  · exact absurd (hitems.length_eq.symm.trans (congrArg List.length hal)) hmany'.ne'
  · rw [hal, hbm] at hitems
    cases hitems with
    | cons hab _ => exact hab

/-- A string that looks like a list, printed with or without a mark. -/
def pairLike (mark? : Option Char) : Value := quoted .nowhere "a, b" mark?

/-- A lone item in brackets, with a comma behind it. -/
def loneQuote : Value :=
  .list {
    items := [quoted .nowhere "it's [\"c\",]" none], separator := .comma, bracketed := true,
    span := .nowhere }

/-- A pair with a space, and a lone item behind a comma. -/
def pairThenLone (mark? : Option Char) : Value :=
  .commaList .nowhere [.spaceList .nowhere [pairLike mark?, pairLike mark?], loneQuote]

/-- The same values, where the second is grouped with the third. -/
def itemThenPair : Value :=
  .spaceList .nowhere [pairLike none, .commaList .nowhere [pairLike none, loneQuote]]

theorem legible_pairLike (mark? : Option Char) : Legible (pairLike mark?) :=
  .string (by decide : ¬ ['\r', '\n'] <:+: "a, b".toList)

theorem legible_loneQuote : Legible loneQuote :=
  .list rfl (List.cons_ne_nil _ _) (fun h => nomatch h)
    (List.forall_mem_singleton.2 (.string (by decide)))

theorem Legible.pair (separator : Separator) (hv : Legible v) (hw : Legible w) :
    Legible (.list { items := [v, w], separator, span := .nowhere }) :=
  .list rfl (List.cons_ne_nil v [w]) (fun _ _ => Nat.one_lt_two)
    (List.forall_mem_cons.2 ⟨hv, List.forall_mem_singleton.2 hw⟩)

theorem legible_pairThenLone (mark? : Option Char) : Legible (pairThenLone mark?) :=
  .pair .comma (.pair .space (legible_pairLike mark?) (legible_pairLike mark?)) legible_loneQuote

/-- Marks do not show, but groups do. -/
theorem inspect_eq_iff_beq_pairThenLone :
    (pairThenLone none).inspect = (pairThenLone (some Text.double)).inspect ∧
      (pairThenLone none).inspect ≠ itemThenPair.inspect := by
  have hbare := legible_pairThenLone none
  have hregrouped : Legible itemThenPair :=
    .pair .space (legible_pairLike none) (.pair .comma (legible_pairLike none) legible_loneQuote)
  constructor
  · exact (inspect_eq_iff_beq hbare (legible_pairThenLone (some Text.double))).2 (by decide)
  · intro h
    have hbeq := (inspect_eq_iff_beq hbare hregrouped).1 h
    exact absurd hbeq (by decide)

end Value

end Stylesheet
