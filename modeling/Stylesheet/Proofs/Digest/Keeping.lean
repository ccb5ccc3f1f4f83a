import Stylesheet.Proofs.Digest.Bare
import Stylesheet.Value.Change

/-!
# Changes that keep the digest

Digesting a value and marking it as delayed reach the values inside, and keep the digest of every
one, whatever it carries. Such a change replaces the parts of a layer by values of the same digest,
so a digest that is carried stays right, and one that is taken is right (`Value.Keeps.replace`). By
induction the change keeps the digest of the value, and its topmost node settled
(**`Value.digested_keeps`**, **`Value.setDelayed_keeps`**).

Trimming changes the content of the nodes on its way, which drop their digests
(`Value.Settled.trimEnd`).
-/

namespace Stylesheet

namespace Value

/-! ## Inside a value -/

section Digesting

variable [Hasher]

theorem digestedItems_eq (vs : List Value) : digestedItems vs = vs.map digested := by
  induction vs with
  | nil => rfl
  | cons v vs ih => exact congrArg (digested v :: ·) ih

theorem digestedFragments_eq (fs : List (Fragment Value)) :
    digestedFragments fs = fs.map (Fragment.map digested) := by
  induction fs with
  | nil => rfl
  | cons f fs ih =>
    rw [List.map_cons, ← ih]
    cases f <;> rfl

theorem digestedArguments_eq (as : List (Argument Value)) :
    digestedArguments as = as.map (Argument.map digested) := by
  induction as with
  | nil => rfl
  | cons a as ih => exact congrArg (a.map digested :: ·) ih

theorem digestedKeywords_eq (ks : List (String × Value)) :
    digestedKeywords ks = ks.map (Prod.map id digested) := by
  induction ks with
  | nil => rfl
  | cons e ks ih => exact congrArg ((e.1, digested e.2) :: ·) ih

theorem digestedEntries_eq (es : List (Value × Value)) :
    digestedEntries es = es.map (Prod.map digested digested) := by
  induction es with
  | nil => rfl
  | cons e es ih => exact congrArg ((digested e.1, digested e.2) :: ·) ih

end Digesting

theorem setDelayedFragments_eq (on : Bool) (fs : List (Fragment Value)) :
    setDelayedFragments on fs = fs.map (Fragment.map (setDelayed on)) := by
  induction fs with
  | nil => rfl
  | cons f fs ih =>
    rw [List.map_cons, ← ih]
    cases f <;> rfl

/-! ## One layer -/

variable [Hasher]

/-- A change that keeps the digest, and a settled node settled. -/
def Keeps (v w : Value) : Prop := w.digest = v.digest ∧ (v.Settled → w.Settled)

theorem Keeps.refl (v : Value) : Keeps v v := ⟨rfl, id⟩

/-- A layer whose parts are replaced by parts of the same digest. It may keep its own digest or
take the one it answers with. -/
theorem Keeps.replace {f : Value → Value} {v w : Value}
    (hf : ∀ x ∈ v.parts, (f x).digest = x.digest) (hkind : w.node.kind = v.node.kind)
    (hcontent : w.node.contentBy digest = (v.node.mapParts f).contentBy digest)
    (hfaithful : v.node.Faithful → w.node.Faithful)
    (hmemo : w.node.memo = v.node.memo ∨ w.node.memo = some (v.node.digestBy digest)) :
    Keeps v w := by
  have hsame : w.node.contentBy digest = v.node.contentBy digest := by
    rw [hcontent, Node.contentBy_mapParts]
    exact Node.contentBy_congr hf
  constructor
  · rw [digest_eq, digest_eq, hkind]
    rcases hmemo with hmemo | hmemo
    · rw [Node.digestBy, hmemo, hsame]
      rfl
    · rw [Node.digestBy, hmemo, Option.getD_some]
  · refine fun hv => ⟨fun word hword => ?_, hfaithful hv.2⟩
    rw [hsame]
    rcases hmemo with hmemo | hmemo
    · exact hv.1 word (hmemo ▸ hword)
    · rw [hmemo] at hword
      rw [← Option.some.inj hword, hv.digestBy_eq]

/-! ## Digesting -/

theorem renewed_digested (c : Color) :
    c.digested.renewed = c.renewed ∧ c.digested.words = c.words := by
  cases c <;> exact ⟨rfl, rfl⟩

theorem countedKeywords_digested (l : ListOf Value) (memo : Memo) :
    ({ l with
      items := l.items.map digested
      keywords := if l.arglist then l.keywords.map (Prod.map id digested) else l.keywords
      memo } : ListOf Value).countedKeywords = (l.map digested).countedKeywords := by
  rw [ListOf.countedKeywords_map]
  unfold ListOf.countedKeywords
  cases l.arglist <;> rfl

/-- Digesting keeps the digest. -/
theorem digested_keeps (v : Value) : Keeps v v.digested := by
  induction v using Value.induction with
  | step v ih =>
    have hparts : ∀ x ∈ v.parts, x.digested.digest = x.digest := fun x hx => (ih x hx).1
    cases v with
    | number n => exact .replace hparts rfl rfl id (.inr rfl)
    | color c =>
      obtain ⟨hrenewed, hwords⟩ := renewed_digested c
      have hfaithful : c.words = c.renewed.words → c.digested.words = c.digested.renewed.words := by
        rw [hrenewed, hwords]
        exact id
      have hmemo : c.digested.memo = some c.digest := by cases c <;> rfl
      exact .replace hparts rfl (congrArg Hasher.digest hwords) hfaithful (.inr hmemo)
    | string s => exact .replace hparts rfl rfl id (.inr rfl)
    | template t =>
      unfold digested
      split
      · exact .refl _
      · rw [digestedFragments_eq, Template.digest, words_template]
        exact .replace hparts rfl rfl id (.inr rfl)
    | list l =>
      unfold digested
      split
      · exact .refl _
      · -- Keywords of a plain list are not digested, and neither are they parts.
        have hcounted := countedKeywords_digested l (some l.digest)
        rw [digestedItems_eq, digestedKeywords_eq]
        refine .replace hparts rfl (congrArg Hasher.digest ?_) id (.inr ?_)
        · unfold ListOf.wordsBy
          rw [hcounted]
          rfl
        · rw [ListOf.digest, words_list]
          rfl
    | map m =>
      unfold digested
      split
      · exact .refl _
      · rw [digestedEntries_eq, MapOf.digest, words_map]
        exact .replace hparts rfl rfl id (.inr rfl)
    | call c =>
      unfold digested
      split
      · exact .refl _
      · rw [digestedArguments_eq, Call.digest, words_call]
        exact .replace hparts rfl rfl id (.inr rfl)
    | operation e =>
      unfold digested
      split
      · exact .refl _
      · exact .replace hparts rfl rfl id (.inr rfl)
    | _ => exact .refl _

/-! ## Delaying -/

theorem setDelayed_template_keeps (on : Bool) {t : Template Value}
    (hparts : ∀ x ∈ t.parts, (x.setDelayed on).digest = x.digest) :
    Keeps (template t) (template (t.setDelayed on)) := by
  unfold Template.setDelayed
  rw [setDelayedFragments_eq]
  exact .replace hparts rfl rfl id (.inl rfl)

theorem setDelayed_operation_keeps (on : Bool) {e : Operation Value}
    (hparts : ∀ x ∈ e.parts, (x.setDelayed on).digest = x.digest) :
    Keeps (operation e) (operation (e.setDelayed on)) :=
  .replace hparts rfl rfl id (.inl rfl)

/-- Marking keeps the digest. -/
theorem setDelayed_keeps (on : Bool) (v : Value) : Keeps v (v.setDelayed on) := by
  induction v using Value.induction with
  | step v ih =>
    have hparts : ∀ x ∈ v.parts, (x.setDelayed on).digest = x.digest := fun x hx => (ih x hx).1
    have hsame : ∀ x ∈ v.parts, (id x).digest = x.digest := fun _ _ => rfl
    cases v with
    | number n => exact .replace hsame rfl rfl id (.inl rfl)
    | list l =>
      -- The mark is the list's own, so its parts are replaced by themselves.
      refine .replace hsame rfl ?_ id (.inl rfl)
      rw [Node.contentBy_mapParts]
      rfl
    | template t =>
      unfold setDelayed
      split
      · exact .refl _
      · exact setDelayed_template_keeps on hparts
    | operation e =>
      unfold setDelayed
      split
      · exact .refl _
      · exact setDelayed_operation_keeps on hparts
    | _ => exact .refl _

/-! ## Trimming -/

namespace Settled

theorem trimEnd_string {s : StringValue} (h : (string s).Settled) : (string s.trimEnd).Settled := by
  unfold StringValue.trimEnd
  split
  · exact drop rfl trivial
  · exact h

theorem trimEnd_template {t : Template Value} (h : (template t).Settled) :
    (template t.trimEnd).Settled := by
  unfold Template.trimEnd
  split
  · exact drop rfl trivial
  · exact h

/-- Trimming keeps a settled node settled. -/
theorem trimEnd {v : Value} (h : v.Settled) : v.trimEnd.Settled := by
  cases v with
  | string s => exact trimEnd_string h
  | template t =>
    have htrimmed := trimEnd_template h
    unfold Template.trimEnd at htrimmed
    unfold Value.trimEnd
    split
    · rwa [if_pos ‹_›] at htrimmed
    · exact h
  | _ => exact h

end Settled

end Value

end Stylesheet
