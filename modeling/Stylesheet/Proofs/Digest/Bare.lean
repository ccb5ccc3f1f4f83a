import Stylesheet.Proofs.Digest.Layer
import Stylesheet.Proofs.Value.Everywhere

/-!
# Digests of newly built values

A node is renewed (`Value.renewed`) when it is built anew of the same parts: it carries no digest,
and a colour no derived form. A value is bare (`Value.bare`) when it is renewed at every depth.

A node is settled (`Value.Settled`) when the digest it carries, if any, is that of its present
content, and a colour's derived form has the channels that a new one would have. **A settled node
answers like the renewed one (`Value.Settled.digest_eq`)**, and where the parts answer like the
bare ones, the renewed node is digested like the bare value (`Value.digest_renewed_eq_bare`).

To show that a change keeps a node settled it is enough to look at its layer: the change drops the
digest (`Settled.drop`), or it keeps both the digest and the content (`Settled.keep`).
-/

namespace Stylesheet

variable {α β : Type}

/-! ## Renewed layers -/

/-- The colour as it was made, without a derived form and a digest. -/
def Color.renewed : Color → Color
  | .rgb c => .rgb { form := c.form, cell := c.cell }
  | .hsl c => .hsl { form := c.form, cell := c.cell }

namespace Node

/-- The layer without what it carries. -/
def renewed : Node α → Node α
  | .number n => .number { n with memo := none }
  | .color c => .color c.renewed
  | .string s => .string { s with memo := none }
  | .template t => .template { t with memo := none }
  | .list l => .list { l with memo := none }
  | .map m => .map { m with memo := none }
  | .call c => .call { c with memo := none }
  | .operation e => .operation { e with memo := none }
  | n => n

/-- The derived form of a colour, if it has one, is what its own form makes of it. -/
def Faithful : Node α → Prop
  | .color c => c.words = c.renewed.words
  | _ => True

theorem kind_renewed (n : Node α) : n.renewed.kind = n.kind := by
  cases n <;> rfl

theorem memo_renewed (n : Node α) : n.renewed.memo = none := by
  cases n with
  | color c => cases c <;> rfl
  | _ => rfl

theorem renewed_mapParts (f : α → β) (n : Node α) :
    (n.mapParts f).renewed = n.renewed.mapParts f := by
  cases n <;> rfl

theorem contentBy_renewed [Hasher] {n : Node α} (h : n.Faithful) (d : α → UInt64) :
    n.renewed.contentBy d = n.contentBy d := by
  cases n with
  | color c => exact congrArg Hasher.digest h.symm
  | _ => rfl

end Node

namespace Value

/-! ## Renewed values -/

/-- The value with its topmost node built anew of the same parts. -/
def renewed : Value → Value
  | .number n => .number { n with memo := none }
  | .color c => .color c.renewed
  | .string s => .string { s with memo := none }
  | .template t => .template { t with memo := none }
  | .list l => .list { l with memo := none }
  | .map m => .map { m with memo := none }
  | .call c => .call { c with memo := none }
  | .operation e => .operation { e with memo := none }
  | v => v

theorem node_renewed (v : Value) : v.renewed.node = v.node.renewed := by
  cases v <;> rfl

/-! ## Bare values -/

/-- The value without any carried digest or derived form, at every depth. -/
def bare : Value → Value := everywhere renewed

/-- The topmost layer of a bare value. -/
theorem node_bare (v : Value) : v.bare.node = v.node.renewed.mapParts bare := by
  rw [bare, everywhere_eq, node_renewed, node_mapParts, Node.renewed_mapParts]

/-! ## Digests of new nodes -/

variable [Hasher]

/-- The digest a node carries, if any, is that of its present content, and a derived form is a
faithful one. -/
def Settled (v : Value) : Prop :=
  (∀ word ∈ v.node.memo, word = v.node.contentBy digest) ∧ v.node.Faithful

theorem digest_renewed {v : Value} (h : v.node.Faithful) :
    v.renewed.digest = tagged v.node.kind (v.node.contentBy digest) := by
  rw [digest_eq, node_renewed, Node.kind_renewed, Node.digestBy, Node.memo_renewed,
    Option.getD_none, Node.contentBy_renewed h]

/-- A new node of parts that answer like bare ones answers like the bare value. -/
theorem digest_renewed_eq_bare {v : Value} (h : v.node.Faithful)
    (hparts : ∀ x ∈ v.parts, x.digest = x.bare.digest) : v.renewed.digest = v.bare.digest := by
  have hcontent : v.node.contentBy (digest ∘ bare) = v.node.contentBy digest :=
    Node.contentBy_congr fun x hx => (hparts x hx).symm
  rw [digest_renewed h, digest_eq v.bare, node_bare, Node.kind_mapParts, Node.kind_renewed,
    Node.digestBy, Node.memo_mapParts, Node.memo_renewed, Option.getD_none,
    Node.contentBy_mapParts, Node.contentBy_renewed h, hcontent]

namespace Settled

variable {v w : Value}

/-- A settled node answers with the digest of its content, carried or not. -/
theorem digestBy_eq (h : v.Settled) : v.node.digestBy digest = v.node.contentBy digest := by
  rw [Node.digestBy]
  cases hmemo : v.node.memo with
  | none => rfl
  | some word => exact h.1 word hmemo

/-- **A settled node answers like the renewed one.** -/
theorem digest_eq (h : v.Settled) : v.digest = v.renewed.digest := by
  rw [Value.digest_eq, h.digestBy_eq, digest_renewed h.2]

/-! ## Changes of one layer -/

/-- A node that carries no digest. -/
theorem drop (hmemo : v.node.memo = none) (hfaithful : v.node.Faithful) : v.Settled := by
  refine ⟨fun word hword => ?_, hfaithful⟩
  rw [hmemo] at hword
  cases hword

/-- A node that carries the digest of one with the same content. -/
theorem keep (h : v.Settled) (hmemo : w.node.memo = v.node.memo)
    (hcontent : w.node.contentBy digest = v.node.contentBy digest)
    (hfaithful : w.node.Faithful) : w.Settled := by
  refine ⟨fun word hword => ?_, hfaithful⟩
  rw [hmemo] at hword
  rw [hcontent]
  exact h.1 word hword

end Settled

end Value

end Stylesheet
