import Stylesheet.Proofs.Digest.Layer
import Stylesheet.Proofs.Equality.Layer
import Stylesheet.Proofs.Value.Everywhere
import Stylesheet.Proofs.Value.Print

/-!
# Changes that are not seen

A change of one node is unseen (`Value.Unseen`) when comparisons, digests of content and texts of
the layer do not tell the changed node from the old one. **Made at every depth, it is not seen in
the whole value either**: the value prints alike (`Value.Unseen.printsAlike`), has the digest that
it had where the node keeps the one it carries (`Value.Unseen.digest_everywhere`), and compares with
others as it did where no digest changes (`Value.Unseen.beq_everywhere`). Each law holds of the
topmost node by assumption, and of replaced parts because the layer asks nothing but the parts.
-/

namespace Stylesheet.Value

theorem PrintsAlike.symm {v w : Value} (h : PrintsAlike v w) : PrintsAlike w v where
  render g inspecting := (h.render g inspecting).symm
  isInvisible := h.isInvisible.symm
  enclose outer text := (h.enclose outer text).symm
  spliced g := (h.spliced g).symm

theorem PrintsAlike.trans {u v w : Value} (h : PrintsAlike u v) (h' : PrintsAlike v w) :
    PrintsAlike u w where
  render g inspecting := (h.render g inspecting).trans (h'.render g inspecting)
  isInvisible := h.isInvisible.trans h'.isInvisible
  enclose outer text := (h.enclose outer text).trans (h'.enclose outer text)
  spliced g := (h.spliced g).trans (h'.spliced g)

/-- The change of a node is not seen by what looks at one layer. The digest that the node carries
may change with it. -/
structure Unseen (f : Value → Value) : Prop where
  parts : ∀ v, (f v).parts = v.parts
  compared : ∀ test eq v w, (f v).node.beqBy test eq (f w).node = v.node.beqBy test eq w.node
  kind : ∀ v, (f v).node.kind = v.node.kind
  content : ∀ [Hasher] (d : Value → UInt64) v, (f v).node.contentBy d = v.node.contentBy d
  prints : ∀ v, PrintsAlike (f v) v

namespace Unseen

variable {f : Value → Value} (hf : Unseen f)

include hf

theorem printsAlike (v : Value) : PrintsAlike (v.everywhere f) v := by
  induction v using Value.induction with
  | step v ih =>
    rw [everywhere_eq]
    exact (hf.prints _).trans (.mapParts ih)

theorem kind_everywhere (v : Value) : (v.everywhere f).node.kind = v.node.kind := by
  rw [everywhere_eq, hf.kind, node_mapParts, Node.kind_mapParts]

variable [Hasher]

/-- The content is digested alike where the parts are. -/
theorem contentBy_everywhere {v : Value}
    (hparts : ∀ x ∈ v.parts, (x.everywhere f).digest = x.digest) :
    (v.everywhere f).node.contentBy digest = v.node.contentBy digest := by
  rw [everywhere_eq, hf.content, node_mapParts, Node.contentBy_mapParts]
  exact Node.contentBy_congr hparts

/-- A value whose nodes keep the digests that they carry is digested alike. -/
theorem digest_everywhere (hmemo : ∀ v, (f v).node.memo = v.node.memo) (v : Value) :
    (v.everywhere f).digest = v.digest := by
  induction v using Value.induction with
  | step v ih =>
    have hcarried : (v.everywhere f).node.memo = v.node.memo := by
      rw [everywhere_eq, hmemo, node_mapParts, Node.memo_mapParts]
    rw [digest_eq, digest_eq, hf.kind_everywhere, Node.digestBy, Node.digestBy, hcarried,
      hf.contentBy_everywhere ih]

/-- The changed values are compared by what their parts are changed to. -/
theorem beq_everywhere_eq (v w : Value) : (v.everywhere f).beq (w.everywhere f) =
    v.node.beqBy (fun x y => (x.everywhere f).meets (y.everywhere f))
      (fun x y => (x.everywhere f).beq (y.everywhere f)) w.node := by
  rw [beq_eq_beqBy_node, everywhere_eq, everywhere_eq, hf.compared, node_mapParts, node_mapParts,
    Node.beqBy_mapParts]

/-- Values that are digested alike at every depth compare as they did. -/
theorem beq_everywhere {v w : Value} (hv : v.Each fun x => (x.everywhere f).digest = x.digest)
    (hw : w.Each fun x => (x.everywhere f).digest = x.digest) :
    (v.everywhere f).beq (w.everywhere f) = v.beq w := by
  induction v using Value.induction generalizing w with
  | step v ih =>
    have hparts : ∀ x ∈ v.parts, ∀ y ∈ w.parts,
        (x.everywhere f).beq (y.everywhere f) = x.beq y :=
      fun x hx y hy => ih x hx (hv.part x hx) (hw.part y hy)
    have hkeys : ∀ x ∈ v.parts, ∀ y ∈ w.parts,
        (x.everywhere f).meets (y.everywhere f) = x.meets y := fun x hx y hy => by
      unfold meets
      rw [hparts x hx y hy, (hv.part x hx).here, (hw.part y hy).here]
    rw [hf.beq_everywhere_eq, Node.beqBy_congr hkeys hparts, ← beq_eq_beqBy_node]

end Unseen

end Stylesheet.Value
