import NeonEds.Mm.HeapBlocks

/-!
# What the branches of the heap functions write

One lemma for each branch of `heap_alloc` and `heap_free` and for the set up in `heap_init_alloc`: at
addresses that are read right the branch does not fault, what it writes is told as a change of
`HeapBlocks`, and the branches write nothing outside of the blocks.
-/

namespace NeonEds
open Exec

theorem int32_eq {z : ℤ} (h1 : -2147483648 ≤ z) (h2 : z < 2147483648) : int32 z = z := by
  unfold int32
  rw [Int.bmod_eq_of_le] <;> omega

section
variable {P : HeapPort} {lo hi : ℕ} {A : ℕ → Prop} {st₀ st : Storage} {B : HeapBlocks}

theorem HeapPort.ptr_pos (P : HeapPort) : 0 < P.ptr := by
  rcases P.ptr_eq with hp | hp <;> omega

theorem HeapPort.wide (P : HeapPort) : 2 ^ 32 ≤ 2 ^ (8 * P.ptr) :=
  Nat.pow_le_pow_right (by decide) (by rcases P.ptr_eq with hp | hp <;> omega)

theorem sizeT_natCast (P : HeapPort) (x : ℕ) : P.sizeT x = x % 2 ^ (8 * P.ptr) :=
  Int.toNat_natCast (x % 2 ^ (8 * P.ptr))

theorem HeapPort.sizeT_eq {z : ℤ} {x : ℕ} (hz : z = x) (hx : x < 2 ^ (8 * P.ptr)) : P.sizeT z = x := by
  unfold HeapPort.sizeT
  rw [hz]
  norm_cast
  exact Nat.mod_eq_of_lt hx

theorem HeapPort.ptrAdd_eq {p : ℕ} {z : ℤ} {x : ℕ} (hz : (p : ℤ) + z = x) (hx : x < 2 ^ (8 * P.ptr)) :
    P.ptrAdd p z = x := HeapPort.sizeT_eq hz hx

namespace Reads

theorem mem_eq (h : Reads P lo hi A st B) {b : ℕ} (hb : A b) :
    P.ptrAdd b P.sizeofHeapPhy = b + P.sizeofHeapPhy := by
  have h1 := (h.inside b hb).2
  have h2 := h.hi_lt
  refine HeapPort.ptrAdd_eq (by push_cast; rfl) ?_
  unfold HeapPort.sizeofHeapBlock at h1
  unfold HeapPort.sizeofHeapPhy
  omega

end Reads

namespace Tracks

/-! ## `heap_alloc` -/

theorem heapAllocWhole (h : Tracks P lo hi A st₀ st B) {c nx pv : ℕ} (hc : A c)
    (hnx : B.free.next c = some nx) (hpv : B.free.prev c = some pv) (hAn : A nx) (hAp : A pv)
    (hne : nx ≠ c) (hz : int32 (-B.tags.size c) = -B.tags.size c) :
    ∃ st', NeonEds.heapAllocWhole P st c = .ok (c + P.sizeofHeapPhy, st') ∧
      Tracks P lo hi A st₀ st'
        { tags := { B.tags with size := Function.update B.tags.size c (-B.tags.size c) }
          free := B.free.unlink pv nx } := by
  unfold NeonEds.heapAllocWhole
  dsimp only
  rw [h.freeNext hc hnx, ok_bind, h.freePrev hc hpv, ok_bind]
  obtain ⟨st₁, hw₁, h₁⟩ := h.setFreePrev hAn hAp
  rw [hw₁, ok_bind, h₁.freePrev hc (v := pv) (by simp [hne.symm, hpv]), ok_bind,
    h₁.freeNext hc (v := nx) (by simp [hnx]), ok_bind]
  obtain ⟨st₂, hw₂, h₂⟩ := h₁.setFreeNext hAp hAn
  rw [hw₂, ok_bind, h₂.phySize hc, ok_bind]
  obtain ⟨st₃, hw₃, h₃⟩ := h₂.setPhySize hc (z := B.tags.size c * (-1)) (by rw [Int.mul_neg_one, hz])
  rw [HeapBlocks.setFreeNext_tags, HeapBlocks.setFreePrev_tags, hw₃, ok_bind, h.mem_eq hc]
  refine ⟨st₃, rfl, h₃.congr fun b _ => ⟨rfl, ?_, rfl, rfl⟩⟩
  rw [HeapBlocks.setPhySize_size, Int.mul_neg_one]
  rfl

theorem heapAllocSplit (h : Tracks P lo hi A st₀ st B) {c t n size nx pv : ℕ} (hc : A c) (ht : A t)
    (hn : A n) (hnx : B.free.next c = some nx) (hpv : B.free.prev c = some pv) (hAn : A nx)
    (hAp : A pv) (hct : c ≠ t) (hnt : nx ≠ t) (ht_eq : t = c + size + P.sizeofHeapPhy)
    (hn_eq : (n : ℤ) = c + B.tags.size c + P.sizeofHeapPhy) (hsize : (size : ℤ) < 2147483648)
    (hz : B.tags.size c < 2147483648) (hlt : (size : ℤ) + P.sizeofHeapPhy < B.tags.size c) :
    ∃ st', NeonEds.heapAllocSplit P st c size = .ok (c + P.sizeofHeapPhy, st') ∧
      Tracks P lo hi A st₀ st'
        { tags :=
            { prev := Function.update (Function.update B.tags.prev t c) n t
              size := Function.update (Function.update B.tags.size t
                (B.tags.size c - size - P.sizeofHeapPhy)) c (-size) }
          free := B.free.replace pv nx t } := by
  have hp := P.ptr_eq
  have hphy : P.sizeofHeapPhy = 2 * P.ptr := rfl
  have hsz : int32 (size : ℤ) = size := int32_eq (by omega) (by omega)
  have hph : int32 (P.sizeofHeapPhy : ℤ) = P.sizeofHeapPhy := int32_eq (by omega) (by omega)
  have htmp : P.ptrAdd c (size + P.sizeofHeapPhy) = t :=
    HeapPort.ptrAdd_eq (by omega) (h.lt ht)
  unfold NeonEds.heapAllocSplit
  dsimp only
  rw [h.mem_eq hc, htmp, hsz, hph]
  obtain ⟨st₁, hw₁, h₁⟩ := h.setPhyPrev ht hc
  rw [hw₁, ok_bind, h₁.phySize hc, ok_bind]
  obtain ⟨st₂, hw₂, h₂⟩ := h₁.setPhySize ht (z := B.tags.size c) (int32_eq (by omega) (by omega))
  rw [HeapBlocks.setPhyPrev_size, hw₂, ok_bind, h₂.phySize ht, ok_bind, HeapBlocks.setPhySize_size,
    Function.update_self]
  obtain ⟨st₃, hw₃, h₃⟩ := h₂.setPhySize ht (z := B.tags.size c - size)
    (int32_eq (by omega) (by omega))
  rw [hw₃, ok_bind, h₃.phySize ht, ok_bind, HeapBlocks.setPhySize_size, Function.update_self]
  obtain ⟨st₄, hw₄, h₄⟩ := h₃.setPhySize ht (z := B.tags.size c - size - P.sizeofHeapPhy)
    (int32_eq (by omega) (by omega))
  rw [hw₄, ok_bind]
  obtain ⟨st₅, hw₅, h₅⟩ := h₄.setPhySize hc (z := (size : ℤ) * (-1)) (int32_eq (by omega) (by omega))
  rw [hw₅, ok_bind, h₅.freeNext hc (v := nx) hnx, ok_bind]
  obtain ⟨st₆, hw₆, h₆⟩ := h₅.setFreeNext ht hAn
  rw [hw₆, ok_bind, h₆.freePrev hc (v := pv) hpv, ok_bind]
  obtain ⟨st₇, hw₇, h₇⟩ := h₆.setFreePrev ht hAp
  rw [hw₇, ok_bind, h₇.freeNext ht (v := nx) (by simp), ok_bind]
  obtain ⟨st₈, hw₈, h₈⟩ := h₇.setFreePrev hAn ht
  rw [hw₈, ok_bind, h₈.freePrev ht (v := pv) (by simp [hnt.symm]), ok_bind]
  obtain ⟨st₉, hw₉, h₉⟩ := h₈.setFreeNext hAp ht
  rw [hw₉, ok_bind, h₉.phySize ht, ok_bind]
  have hts : (((((((((B.setPhyPrev t c).setPhySize t (B.tags.size c)).setPhySize t
      (B.tags.size c - size)).setPhySize t (B.tags.size c - size - P.sizeofHeapPhy)).setPhySize c
      ((size : ℤ) * (-1))).setFreeNext t nx).setFreePrev t pv).setFreePrev nx t).setFreeNext pv t).tags.size t
      = B.tags.size c - size - P.sizeofHeapPhy := by simp [hct.symm]
  have hnext : P.ptrAdd t (B.tags.size c - size - P.sizeofHeapPhy + P.sizeofHeapPhy) = n :=
    HeapPort.ptrAdd_eq (by omega) (h.lt hn)
  obtain ⟨st₁₀, hw₁₀, h₁₀⟩ := h₉.setPhyPrev hn ht
  rw [hts, hnext, hw₁₀, ok_bind]
  refine ⟨st₁₀, rfl, h₁₀.congr fun b _ => ⟨rfl, ?_, rfl, rfl⟩⟩
  simp [Function.update_idem]

/-! ## `heap_free` -/

section
variable {c t n p nx pv : ℕ}

theorem heapFreePrev (h : Tracks P lo hi A st₀ st B) (hc : A c) (ht : A t) (hp : A p)
    (hprev : B.tags.prev c = p) (h0 : 0 ≤ B.tags.size p) (h1 : 0 ≤ B.tags.size c)
    (hlt : B.tags.size p + B.tags.size c + P.sizeofHeapPhy < 2147483648) :
    ∃ st', NeonEds.heapFreePrev P st c t = .ok st' ∧
      Tracks P lo hi A st₀ st'
        { tags :=
            { prev := Function.update B.tags.prev t p
              size := Function.update B.tags.size p
                (B.tags.size p + B.tags.size c + P.sizeofHeapPhy) }
          free := B.free } := by
  have hph : int32 (P.sizeofHeapPhy : ℤ) = P.sizeofHeapPhy := int32_eq (by omega) (by omega)
  unfold NeonEds.heapFreePrev
  rw [hph, h.phyPrev hc, ok_bind, hprev, h.phySize hp, ok_bind, h.phySize hc, ok_bind]
  obtain ⟨st₁, hw₁, h₁⟩ := h.setPhySize hp (z := B.tags.size p + B.tags.size c)
    (int32_eq (by omega) (by omega))
  rw [hw₁, ok_bind, h₁.phyPrev hc, ok_bind, HeapBlocks.setPhySize_prev, hprev, h₁.phySize hp, ok_bind,
    HeapBlocks.setPhySize_size, Function.update_self]
  obtain ⟨st₂, hw₂, h₂⟩ := h₁.setPhySize hp (z := B.tags.size p + B.tags.size c + P.sizeofHeapPhy)
    (int32_eq (by omega) (by omega))
  rw [hw₂, ok_bind, h₂.phyPrev hc, ok_bind, HeapBlocks.setPhySize_prev, HeapBlocks.setPhySize_prev,
    hprev]
  obtain ⟨st₃, hw₃, h₃⟩ := h₂.setPhyPrev ht hp
  refine ⟨st₃, hw₃, h₃.congr fun b _ => ⟨rfl, ?_, rfl, rfl⟩⟩
  simp [Function.update_idem]

theorem heapFreeNext (h : Tracks P lo hi A st₀ st B) (hc : A c) (ht : A t) (hn : A n)
    (hnx : B.free.next t = some nx) (hpv : B.free.prev t = some pv) (hAn : A nx) (hAp : A pv)
    (hpc : pv ≠ c) (h0 : 0 ≤ B.tags.size c) (h1 : 0 ≤ B.tags.size t)
    (hlt : B.tags.size c + B.tags.size t + P.sizeofHeapPhy < 2147483648)
    (hn_eq : (n : ℤ) = c + (B.tags.size c + B.tags.size t + P.sizeofHeapPhy) + P.sizeofHeapPhy) :
    ∃ st', NeonEds.heapFreeNext P st c t = .ok st' ∧
      Tracks P lo hi A st₀ st'
        { tags :=
            { prev := Function.update B.tags.prev n c
              size := Function.update B.tags.size c
                (B.tags.size c + B.tags.size t + P.sizeofHeapPhy) }
          free := B.free.replace pv nx c } := by
  have hph : int32 (P.sizeofHeapPhy : ℤ) = P.sizeofHeapPhy := int32_eq (by omega) (by omega)
  unfold NeonEds.heapFreeNext
  dsimp only
  rw [hph, h.freeNext ht hnx, ok_bind]
  obtain ⟨st₁, hw₁, h₁⟩ := h.setFreeNext hc hAn
  rw [hw₁, ok_bind, h₁.freePrev ht (v := pv) hpv, ok_bind]
  obtain ⟨st₂, hw₂, h₂⟩ := h₁.setFreePrev hc hAp
  rw [hw₂, ok_bind, h₂.freePrev hc (v := pv) (by simp), ok_bind]
  obtain ⟨st₃, hw₃, h₃⟩ := h₂.setFreeNext hAp hc
  rw [hw₃, ok_bind, h₃.freeNext hc (v := nx) (by simp [hpc.symm]), ok_bind]
  obtain ⟨st₄, hw₄, h₄⟩ := h₃.setFreePrev hAn hc
  rw [hw₄, ok_bind, h₄.phySize hc, ok_bind, h₄.phySize ht, ok_bind, HeapBlocks.setFreePrev_tags,
    HeapBlocks.setFreeNext_tags, HeapBlocks.setFreePrev_tags, HeapBlocks.setFreeNext_tags]
  obtain ⟨st₅, hw₅, h₅⟩ := h₄.setPhySize hc (z := B.tags.size c + B.tags.size t)
    (int32_eq (by omega) (by omega))
  rw [hw₅, ok_bind, h₅.phySize hc, ok_bind, HeapBlocks.setPhySize_size, Function.update_self]
  obtain ⟨st₆, hw₆, h₆⟩ := h₅.setPhySize hc (z := B.tags.size c + B.tags.size t + P.sizeofHeapPhy)
    (int32_eq (by omega) (by omega))
  rw [hw₆, ok_bind, h₆.phySize hc, ok_bind, HeapBlocks.setPhySize_size, Function.update_self]
  have hnext : P.ptrAdd c (B.tags.size c + B.tags.size t + P.sizeofHeapPhy + P.sizeofHeapPhy) = n :=
    HeapPort.ptrAdd_eq (by omega) (h.lt hn)
  obtain ⟨st₇, hw₇, h₇⟩ := h₆.setPhyPrev hn hc
  rw [hnext, hw₇]
  refine ⟨st₇, rfl, h₇.congr fun b _ => ⟨rfl, ?_, rfl, rfl⟩⟩
  simp [Function.update_idem]

theorem heapFreeBoth (h : Tracks P lo hi A st₀ st B) (hc : A c) (ht : A t) (hn : A n) (hp : A p)
    (hprev : B.tags.prev c = p) (hnx : B.free.next t = some nx) (hpv : B.free.prev t = some pv)
    (hAn : A nx) (hAp : A pv) (hpt : pv ≠ t) (h0 : 0 ≤ B.tags.size p) (h1 : 0 ≤ B.tags.size c)
    (h2 : 0 ≤ B.tags.size t)
    (hlt : B.tags.size p + (B.tags.size c + B.tags.size t) + 2 * P.sizeofHeapPhy < 2147483648)
    (hn_eq : (n : ℤ) = p + (B.tags.size p + (B.tags.size c + B.tags.size t) + 2 * P.sizeofHeapPhy) +
      P.sizeofHeapPhy) :
    ∃ st', NeonEds.heapFreeBoth P st c t = .ok st' ∧
      Tracks P lo hi A st₀ st'
        { tags :=
            { prev := Function.update B.tags.prev n p
              size := Function.update B.tags.size p
                (B.tags.size p + (B.tags.size c + B.tags.size t) + 2 * P.sizeofHeapPhy) }
          free := B.free.unlink pv nx } := by
  have hph : int32 (2 * P.sizeofHeapPhy : ℤ) = 2 * P.sizeofHeapPhy := int32_eq (by omega) (by omega)
  unfold NeonEds.heapFreeBoth
  dsimp only
  rw [hph, h.freePrev ht hpv, ok_bind, h.freeNext ht hnx, ok_bind]
  obtain ⟨st₁, hw₁, h₁⟩ := h.setFreeNext hAp hAn
  rw [hw₁, ok_bind, h₁.freeNext ht (v := nx) (by simp [hpt.symm, hnx]), ok_bind,
    h₁.freePrev ht (v := pv) hpv, ok_bind]
  obtain ⟨st₂, hw₂, h₂'⟩ := h₁.setFreePrev hAn hAp
  rw [hw₂, ok_bind, h₂'.phyPrev hc, ok_bind, HeapBlocks.setFreePrev_tags, HeapBlocks.setFreeNext_tags,
    hprev, h₂'.phySize hp, ok_bind, h₂'.phySize hc, ok_bind, h₂'.phySize ht, ok_bind,
    HeapBlocks.setFreePrev_tags, HeapBlocks.setFreeNext_tags]
  obtain ⟨st₃, hw₃, h₃⟩ := h₂'.setPhySize hp (z := B.tags.size p + (B.tags.size c + B.tags.size t))
    (int32_eq (by omega) (by omega))
  rw [hw₃, ok_bind, h₃.phyPrev hc, ok_bind]
  have hprev₃ : (((B.setFreeNext pv nx).setFreePrev nx pv).setPhySize p
      (B.tags.size p + (B.tags.size c + B.tags.size t))).tags.prev c = p := hprev
  rw [hprev₃, h₃.phySize hp, ok_bind, HeapBlocks.setPhySize_size, Function.update_self]
  obtain ⟨st₄, hw₄, h₄⟩ := h₃.setPhySize hp
    (z := B.tags.size p + (B.tags.size c + B.tags.size t) + 2 * P.sizeofHeapPhy)
    (int32_eq (by omega) (by omega))
  rw [hw₄, ok_bind, h₄.phyPrev hc, ok_bind, HeapBlocks.setPhySize_prev, hprev₃, h₄.phySize hp, ok_bind,
    HeapBlocks.setPhySize_size, Function.update_self]
  have hnext : P.ptrAdd p (B.tags.size p + (B.tags.size c + B.tags.size t) + 2 * P.sizeofHeapPhy +
      P.sizeofHeapPhy) = n := HeapPort.ptrAdd_eq (by omega) (h.lt hn)
  obtain ⟨st₅, hw₅, h₅⟩ := h₄.setPhyPrev hn hp
  rw [hnext, ok_bind, hw₅]
  refine ⟨st₅, rfl, h₅.congr fun b _ => ⟨rfl, ?_, rfl, rfl⟩⟩
  simp [Function.update_idem]

theorem heapFreeNone {s : ℕ} (h : Tracks P lo hi A st₀ st B) (hc : A c) (hs : A s)
    (hnx : B.free.next s = some nx) (hAn : A nx) (hsc : s ≠ c) :
    ∃ st', NeonEds.heapFreeNone P s st c = .ok st' ∧
      Tracks P lo hi A st₀ st' { B with free := B.free.insertAfter s nx c } := by
  unfold NeonEds.heapFreeNone
  rw [h.freeNext hs hnx, ok_bind]
  obtain ⟨st₁, hw₁, h₁⟩ := h.setFreeNext hc hAn
  rw [hw₁, ok_bind]
  obtain ⟨st₂, hw₂, h₂⟩ := h₁.setFreePrev hc hs
  rw [hw₂, ok_bind, h₂.freePrev hc (v := s) (by simp), ok_bind]
  obtain ⟨st₃, hw₃, h₃⟩ := h₂.setFreeNext hs hc
  rw [hw₃, ok_bind, h₃.freeNext hc (v := nx) (by simp [hsc.symm]), ok_bind]
  obtain ⟨st₄, hw₄, h₄⟩ := h₃.setFreePrev hAn hc
  exact ⟨st₄, hw₄, h₄⟩

end

end Tracks

/-! ## `heap_init_alloc` -/

theorem Reads.heapInitBlocks {b s size : ℕ} (h : Reads P lo hi A st B) (hb : A b) (hs : A s)
    (hsize : size < 2147483648) (hle : P.sizeofHeapBlock + P.sizeofHeapPhy ≤ size) :
    ∃ st', NeonEds.heapInitBlocks P st b s size = .ok st' ∧
      Reads P lo hi A st'
        { tags :=
            { prev := Function.update (Function.update B.tags.prev b s) s b
              size := Function.update (Function.update B.tags.size b
                (size - P.sizeofHeapBlock - P.sizeofHeapPhy)) s (-1) }
          free := ((((B.free.setNext b (some s)).setPrev b (some s)).setNext s (some b)).setPrev s
            (some b)) } := by
  have hsz : int32 (size : ℤ) = size := int32_eq (by omega) (by omega)
  have hph : int32 (P.sizeofHeapPhy : ℤ) = P.sizeofHeapPhy := int32_eq (by omega) (by omega)
  have hbl : int32 (P.sizeofHeapBlock : ℤ) = P.sizeofHeapBlock := int32_eq (by omega) (by omega)
  unfold NeonEds.heapInitBlocks
  rw [hsz, hph, hbl]
  obtain ⟨st₁, hw₁, h₁⟩ := h.setPhySize hb (z := size) hsz
  rw [hw₁, ok_bind, h₁.phySize hb, ok_bind, HeapBlocks.setPhySize_size, Function.update_self]
  obtain ⟨st₂, hw₂, h₂⟩ := h₁.setPhySize hb (z := size - P.sizeofHeapBlock)
    (int32_eq (by omega) (by omega))
  rw [hw₂, ok_bind, h₂.phySize hb, ok_bind, HeapBlocks.setPhySize_size, Function.update_self]
  obtain ⟨st₃, hw₃, h₃⟩ := h₂.setPhySize hb (z := size - P.sizeofHeapBlock - P.sizeofHeapPhy)
    (int32_eq (by omega) (by omega))
  rw [hw₃, ok_bind]
  obtain ⟨st₄, hw₄, h₄⟩ := h₃.setPhyPrev hb hs
  rw [hw₄, ok_bind]
  obtain ⟨st₅, hw₅, h₅⟩ := h₄.setFreeNext hb hs
  rw [hw₅, ok_bind]
  obtain ⟨st₆, hw₆, h₆⟩ := h₅.setFreePrev hb hs
  rw [hw₆, ok_bind]
  obtain ⟨st₇, hw₇, h₇⟩ := h₆.setPhySize hs (z := -1) (int32_eq (by omega) (by omega))
  rw [hw₇, ok_bind]
  obtain ⟨st₈, hw₈, h₈⟩ := h₇.setPhyPrev hs hb
  rw [hw₈, ok_bind]
  obtain ⟨st₉, hw₉, h₉⟩ := h₈.setFreeNext hs hb
  rw [hw₉, ok_bind]
  obtain ⟨st₁₀, hw₁₀, h₁₀⟩ := h₉.setFreePrev hs hb
  refine ⟨st₁₀, hw₁₀, h₁₀.congr fun x _ => ⟨rfl, ?_, rfl, rfl⟩⟩
  simp [Function.update_idem]

end

end NeonEds
