import Mathlib.Algebra.BigOperators.Group.List.Basic
import NeonEds.Mm.HeapRuns

/-!
# The layout of a heap

`heapLayout P m` are the blocks of the heap from the lowest address up to the sentinel, each with its
size, which is negative for a block in use.

* `HeapOk.layout_eq`       the layout of a heap in use are its blocks;
* `HeapOk.layout_unique`   the blocks in use determine the layout;
* `HeapOk.layout_free`     a heap without a block in use is one free block.
-/

namespace NeonEds
open Exec

section
variable (P : HeapPort)

def heapLayout (m : Nmem) : List (ℕ × ℤ) :=
  (blocksOf P m.storage).tags.walk P.sizeofHeapPhy m.base (m.storage.hi - m.storage.lo) m.storage.lo

/-- the sizes of the free blocks -/
def heapFreeBytes (m : Nmem) : ℕ := ((heapLayout P m).map fun x => x.2.toNat).sum

end

section
variable {P : HeapPort} {base : ℕ} {m m' : Nmem} {bs fl bs' fl' : List ℕ} {b k : ℕ}

namespace HeapOk

theorem layout_eq (h : HeapOk P base m bs fl) :
    heapLayout P m = bs.map fun b => (b, (blocksOf P m.storage).tags.size b) := by
  have hpos := P.sizeofHeapPhy_pos
  have hlen := h.rep.blocks.length_le hpos
  unfold heapLayout
  rw [h.lo_eq, h.hi_eq]
  exact h.rep.blocks.walk_eq hpos (by omega)

theorem mem_layout_free (h : HeapOk P base m bs fl) {p : ℤ → Prop} :
    (∀ x ∈ heapLayout P m, 0 < x.2 → p x.2) ↔
      ∀ b ∈ fl, p ((blocksOf P m.storage).tags.size b) := by
  rw [h.layout_eq]
  constructor
  · intro hall b hb
    obtain ⟨hbs, hpos⟩ := (h.rep.mem_free b).mp hb
    exact hall _ (List.mem_map.mpr ⟨b, hbs, rfl⟩) hpos
  · intro hall x hx hpos
    obtain ⟨b, hb, rfl⟩ := List.mem_map.mp hx
    exact hall b ((h.rep.mem_free b).mpr ⟨hb, hpos⟩)

/-- **The blocks in use determine the layout.** -/
theorem layout_unique (h : HeapOk P base m bs fl) (h' : HeapOk P base m' bs' fl')
    (hbase : m'.base = m.base)
    (hused : used bs' (blocksOf P m'.storage) = used bs (blocksOf P m.storage)) :
    bs' = bs ∧ heapLayout P m' = heapLayout P m := by
  have hpos := P.sizeofHeapPhy_pos
  have hiff : ∀ x z, z < 0 → (x ∈ bs ∧ (blocksOf P m.storage).tags.size x = z ↔
      x ∈ bs' ∧ (blocksOf P m'.storage).tags.size x = z) := by
    intro x z hz
    have hsome : ∀ {l : List ℕ} {B : HeapBlocks}, x ∈ l ∧ B.tags.size x = z ↔
        used l B x = some z.natAbs := by
      intro l B
      rw [used_eq_some]
      constructor
      · rintro ⟨hx, hsize⟩
        exact ⟨hx, by omega, by omega⟩
      · rintro ⟨hx, hsize, _⟩
        exact ⟨hx, by omega⟩
    rw [hsome, hsome, hused]
  have hrep' := h'.rep.blocks
  rw [hbase] at hrep'
  obtain ⟨rfl, hsizes⟩ := h.rep.blocks.unique hrep' hpos hpos hiff
  refine ⟨rfl, ?_⟩
  rw [h.layout_eq, h'.layout_eq]
  exact List.map_congr_left fun x hx => congrArg (Prod.mk x) (hsizes x hx)

theorem freeBytes_add (h : HeapOk P base m bs fl) :
    base + heapFreeBytes P m + (bs.map fun b =>
      P.sizeofHeapPhy + (-(blocksOf P m.storage).tags.size b).toNat).sum = m.base := by
  have hsum := h.rep.blocks.sum
  have hsplit : (bs.map fun b => P.sizeofHeapPhy +
      ((blocksOf P m.storage).tags.size b).natAbs).sum = (bs.map fun b =>
        ((blocksOf P m.storage).tags.size b).toNat).sum + (bs.map fun b =>
          P.sizeofHeapPhy + (-(blocksOf P m.storage).tags.size b).toNat).sum := by
    rw [← List.sum_map_add]
    exact congrArg List.sum (List.map_congr_left fun b _ => by omega)
  unfold heapFreeBytes
  rw [h.layout_eq, List.map_map]
  show base + (bs.map fun b => ((blocksOf P m.storage).tags.size b).toNat).sum + _ = _
  omega

end HeapOk

end

end NeonEds
