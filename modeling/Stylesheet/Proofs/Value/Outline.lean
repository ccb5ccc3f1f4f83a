import Stylesheet.Proofs.Digest.Undigested
import Stylesheet.Proofs.Text.CodePoint
import Stylesheet.Proofs.Value.Sharing
import Stylesheet.Proofs.Value.Unmarked
import Stylesheet.Value.Outline

/-!
# What an outline shows

**Theorem (`Value.outline_everywhere`).** A change at every depth that no node shows in its outline
is not shown in the outline of the value. So an outline shows no marks of delay
(`Value.outline_setDelayed`), no digests (`Value.outline_undigested`), and nothing of what is kept
with colours (`Value.outline_share`).

**Theorem (`Outline.textLiteral_append_inj`).** A text in an outline ends at its closing quote,
whatever follows, and no two texts are written alike. A reader takes off one character at a time,
plain or escaped (`Outline.readChar?_escapeChar`), and stops at a bare quote, which no escape begins
with.
-/

namespace Stylesheet

namespace Outline

/-! ## Texts -/

/-- The character that is escaped by a backslash in front of another one. -/
def unescaped (c : Char) : Char :=
  if c = 'n' then '\n' else if c = 'r' then '\r' else if c = 't' then '\t'
  else if c = '0' then Char.ofNat 0 else c

/-- The first character of a text that was escaped, and what follows it. A quote ends the text. -/
def readChar? : List Char → Option (Char × List Char)
  | [] => none
  | '"' :: _ => none
  | '\\' :: 'u' :: _ :: cs =>
    some (Char.ofNat (Text.hexNumber (cs.takeWhile (· != '\x7d'))),
      (cs.dropWhile (· != '\x7d')).tail)
  | '\\' :: c :: cs => some (unescaped c, cs)
  | c :: cs => some (c, cs)

theorem hexNumber_toDigits : ∀ n < 128, Text.hexNumber (Nat.toDigits 16 n) = n ∧
    (Nat.toDigits 16 n).all (· != '\x7d') = true := by
  decide

/-- **One character is read back**, whatever follows it. -/
theorem readChar?_escapeChar (c : Char) (cs : List Char) :
    readChar? ((escapeChar c).toList ++ cs) = some (c, cs) := by
  unfold escapeChar
  split_ifs with hn hr ht hquote hback hzero hcontrol
  · subst hn; rfl
  · subst hr; rfl
  · subst ht; rfl
  · subst hquote; rfl
  · subst hback; rfl
  · have hc : c = Char.ofNat 0 := by rw [← hzero, Char.ofNat_toNat]
    subst hc; rfl
  · obtain ⟨hnumber, hall⟩ := hexNumber_toDigits c.toNat (by omega)
    have hdigits := List.all_eq_true.1 hall
    have htext : ("\\u\x7b" ++ String.ofList (Nat.toDigits 16 c.toNat) ++ "\x7d").toList ++ cs =
        '\\' :: 'u' :: '\x7b' :: (Nat.toDigits 16 c.toNat ++ '\x7d' :: cs) := by
      simp
    rw [htext, readChar?, List.takeWhile_append_of_pos hdigits,
      List.dropWhile_append_of_pos hdigits]
    simp [hnumber, Char.ofNat_toNat]
  · have htext : (String.singleton c).toList ++ cs = c :: cs := by simp
    rw [htext, readChar?.eq_def]
    split <;> simp_all

/-- The characters of a text, each as it is escaped. -/
def escaped (cs : List Char) : List Char := cs.flatMap fun c => (escapeChar c).toList

theorem readChar?_escaped_cons (c : Char) (cs r : List Char) :
    readChar? (escaped (c :: cs) ++ r) = some (c, escaped cs ++ r) := by
  rw [escaped, List.flatMap_cons, List.append_assoc]
  exact readChar?_escapeChar c _

theorem toList_textLiteral (s : String) :
    (textLiteral s).toList = '"' :: (escaped s.toList ++ ['"']) := by
  simp [textLiteral, escaped, List.flatMap, Function.comp_def]

theorem escaped_append_inj {cs ds r r' : List Char}
    (h : escaped cs ++ '"' :: r = escaped ds ++ '"' :: r') : cs = ds ∧ r = r' := by
  have hread := congrArg readChar? h
  induction cs generalizing ds with
  | nil =>
    cases ds with
    | nil => exact ⟨rfl, List.tail_eq_of_cons_eq h⟩
    | cons d ds =>
      rw [readChar?_escaped_cons] at hread
      cases hread
  | cons c cs ih =>
    rw [readChar?_escaped_cons] at hread
    cases ds with
    | nil => cases hread
    | cons d ds =>
      rw [readChar?_escaped_cons] at hread
      obtain ⟨rfl, hrest⟩ := Prod.mk.inj (Option.some.inj hread)
      obtain ⟨rfl, rfl⟩ := ih hrest (congrArg readChar? hrest)
      exact ⟨rfl, rfl⟩

/-- **A text can be read off an outline**: it has one end, whatever follows. -/
theorem textLiteral_append_inj {s t : String} {r r' : List Char}
    (h : (textLiteral s).toList ++ r = (textLiteral t).toList ++ r') : s = t ∧ r = r' := by
  rw [toList_textLiteral, toList_textLiteral] at h
  obtain ⟨htext, hrest⟩ := escaped_append_inj (by simpa using h)
  exact ⟨String.toList_inj.1 htext, hrest⟩

end Outline

namespace Value

/-! ## Changes that do not show -/

variable {f : Value → Value}

theorem outlineItems_map {vs : List Value} (h : ∀ x ∈ vs, (f x).outline = x.outline) :
    outlineItems (vs.map f) = outlineItems vs := by
  induction vs with
  | nil => rfl
  | cons v vs ih =>
    rw [List.forall_mem_cons] at h
    exact congrArg₂ List.cons h.1 (ih h.2)

theorem outlineFragments_map {fs : List (Fragment Value)}
    (h : ∀ p ∈ fs, ∀ x ∈ p.parts, (f x).outline = x.outline) :
    outlineFragments (fs.map (Fragment.map f)) = outlineFragments fs := by
  induction fs with
  | nil => rfl
  | cons p fs ih =>
    rw [List.forall_mem_cons] at h
    cases p with
    | text s => exact congrArg (("Text(" ++ Outline.textLiteral s ++ ")") :: ·) (ih h.2)
    | hole v =>
      exact congrArg₂ (fun text rest => ("Interpolation(" ++ text ++ ")") :: rest)
        (h.1 v (Fragment.hole_mem_parts v)) (ih h.2)

theorem outlineEntries_map {es : List (Value × Value)}
    (h : ∀ e ∈ es, (f e.1).outline = e.1.outline ∧ (f e.2).outline = e.2.outline) :
    outlineEntries (es.map (Prod.map f f)) = outlineEntries es := by
  induction es with
  | nil => rfl
  | cons e es ih =>
    rw [List.forall_mem_cons] at h
    obtain ⟨⟨hkey, hval⟩, hrest⟩ := h
    have hpair : (f e.1).outline ++ ": " ++ (f e.2).outline =
        e.1.outline ++ ": " ++ e.2.outline := by
      rw [hkey, hval]
    exact congrArg₂ List.cons hpair (ih hrest)

theorem outlineArguments_map {as : List (Argument Value)}
    (h : ∀ a ∈ as, (f a.value).outline = a.value.outline) :
    outlineArguments (as.map (Argument.map f)) = outlineArguments as := by
  induction as with
  | nil => rfl
  | cons a as ih =>
    rw [List.forall_mem_cons] at h
    rw [List.map_cons, outlineArguments, outlineArguments, ih h.2]
    simp only [Argument.map, h.1]

/-- An outline asks of the parts of a value their outlines only. -/
theorem outline_mapParts {v : Value} (h : ∀ x ∈ v.parts, (f x).outline = x.outline) :
    (v.mapParts f).outline = v.outline := by
  cases v with
  | template t =>
    have hfragments := outlineFragments_map fun p hp x hx => h x (Template.mem_parts hp hx)
    exact congrArg (fun texts => "Schema(" ++ Outline.sequence texts ++ ")") hfragments
  | list l =>
    have hitems := outlineItems_map fun x hx => h x (ListOf.item_mem_parts hx)
    exact congrArg (fun texts =>
      "List(" ++ l.separator.name ++ ", " ++ Outline.sequence texts ++ ")") hitems
  | map m =>
    have hentries := outlineEntries_map fun e he =>
      ⟨h e.1 (MapOf.key_mem_parts he), h e.2 (MapOf.value_mem_parts he)⟩
    exact congrArg (fun texts => "\x7b" ++ ", ".intercalate texts ++ "\x7d") hentries
  | call c =>
    have harguments := outlineArguments_map fun a ha => h a.value (Call.argument_mem_parts ha)
    exact congrArg (fun texts =>
      "Call(" ++ c.name ++ ", " ++ Outline.sequence texts ++ ")") harguments
  | operation e =>
    exact congrArg₂ (fun left right =>
      "Binary(" ++ left ++ " " ++ e.operand.op.symbol ++ " " ++ right ++ ")")
      (h e.left e.left_mem_parts) (h e.right e.right_mem_parts)
  | _ => rfl

/-- **What no node shows in its outline, a whole value does not show.** -/
theorem outline_everywhere (hf : ∀ v, (f v).outline = v.outline) (v : Value) :
    (v.everywhere f).outline = v.outline := by
  induction v using Value.induction with
  | step v ih => rw [everywhere_eq, hf, outline_mapParts ih]

theorem outline_unmarked (v : Value) : v.unmarked.outline = v.outline :=
  outline_everywhere (fun v => by cases v <;> rfl) v

/-- An outline shows no digests. -/
theorem outline_undigested (v : Value) : v.undigested.outline = v.outline := by
  refine outline_everywhere (fun v => ?_) v
  cases v with
  | color c => cases c <;> rfl
  | _ => rfl

theorem outline_shown (v : Value) : v.shown.outline = v.outline :=
  outline_everywhere (fun v => by cases v <;> rfl) v

/-- An outline shows no marks. -/
theorem outline_setDelayed (on : Bool) (v : Value) : (v.setDelayed on).outline = v.outline := by
  rw [← outline_unmarked, unmarked_setDelayed, outline_unmarked]

/-- An outline does not show who shares a colour. -/
theorem outline_share (v : Value) (next : Nat) : (v.share next).1.outline = v.outline := by
  rw [← outline_shown, share_eq, shown_mapColors showsNothing_intoCell, outline_shown]

end Value

end Stylesheet
