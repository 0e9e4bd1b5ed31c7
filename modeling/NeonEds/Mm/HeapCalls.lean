import NeonEds.Mm.Align
import NeonEds.Mm.HeapRep

/-!
# The heap functions

* `heapFree_ok`        a block in use is given back, `heap_free` does not fault;
* `heapAlloc_ok`       a request gets a block that was not in use, or NULL where no free block is as large
                       as the request, rounded up;
* `heapInitAlloc_ok`   the same of the first request, which sets up the heap.
-/

namespace NeonEds
open Exec

/-- a heap in use -/
structure HeapOk (P : HeapPort) (base : ℕ) (m : Nmem) (bs fl : List ℕ) : Prop where
  rep : HeapRep P base m.base bs fl (blocksOf P m.storage)
  lo_eq : m.storage.lo = base
  hi_eq : m.storage.hi = m.base + P.sizeofHeapBlock
  hi_lt : m.base + P.sizeofHeapBlock < 2 ^ (8 * P.ptr)
  small : m.base + P.sizeofHeapBlock < base + 2147483647
  base_pos : 0 < base
  vfAlloc : m.vfAlloc = .heapAlloc
  vfFree : m.vfFree = true

/-- the payloads of the blocks in use, but for the block `c`, hold what they held -/
def PayloadsKept (P : HeapPort) (bs : List ℕ) (m : Nmem) (st' : Storage) (c : ℕ) : Prop :=
  ∀ d k, used bs (blocksOf P m.storage) d = some k → d ≠ c →
    ∀ x, d + P.sizeofHeapPhy ≤ x → x < d + P.sizeofHeapPhy + k → st'.byte x = m.storage.byte x

section
variable {P : HeapPort} {base : ℕ} {m : Nmem} {bs fl : List ℕ} {c k : ℕ}

theorem HeapPort.sizeofHeapBlock_eq (P : HeapPort) : P.sizeofHeapBlock = 2 * P.sizeofHeapPhy := by
  unfold HeapPort.sizeofHeapBlock HeapPort.sizeofHeapPhy
  omega

namespace HeapOk

theorem block_le (h : HeapOk P base m bs fl) (hc : c ∈ bs) :
    base ≤ c ∧ c + P.sizeofHeapPhy + ((blocksOf P m.storage).tags.size c).natAbs ≤ m.base ∧
      P.sizeofHeapPhy ≤ ((blocksOf P m.storage).tags.size c).natAbs := h.rep.blocks.bounds hc

theorem reads (h : HeapOk P base m bs fl) :
    Reads P base (m.base + P.sizeofHeapBlock) (fun b => b = m.base ∨ b ∈ bs) m.storage
      (blocksOf P m.storage) := by
  have hblk := P.sizeofHeapBlock_eq
  refine ⟨h.lo_eq, h.hi_eq, h.hi_lt, fun b hb => ?_, fun b c hb hc hbc => ?_,
    fun b _ => ⟨rfl, rfl, rfl, rfl⟩⟩
  · rcases hb with rfl | hb
    · exact ⟨h.rep.blocks.le, le_refl _⟩
    · have := h.block_le hb
      omega
  · rcases hb with rfl | hb
    · rcases hc with rfl | hc
      · exact absurd rfl hbc
      · have hap := h.rep.blocks.apart hc (Or.inl rfl) hbc
        have := (h.block_le hc).2.2
        unfold Tags.next at hap
        omega
    · have hap := h.rep.blocks.apart hb hc hbc.symm
      have := (h.block_le hb).2.2
      unfold Tags.next at hap
      omega

theorem reads_inside (h : HeapOk P base m bs fl) (hc : c ∈ bs) {t : ℕ}
    (ht : c + P.sizeofHeapBlock ≤ t)
    (htn : t + P.sizeofHeapBlock
      ≤ c + P.sizeofHeapPhy + ((blocksOf P m.storage).tags.size c).natAbs) :
    Reads P base (m.base + P.sizeofHeapBlock) (fun b => b = t ∨ b = m.base ∨ b ∈ bs) m.storage
      (blocksOf P m.storage) := by
  have hr := h.reads
  have hcb := h.block_le hc
  have hblk := P.sizeofHeapBlock_eq
  -- the others lie outside of the block `c`
  have hout : ∀ b, b = m.base ∨ b ∈ bs → b + P.sizeofHeapBlock ≤ t ∨ t + P.sizeofHeapBlock ≤ b := by
    intro b hb
    by_cases hbc : b = c
    · rw [hbc]
      exact Or.inl ht
    · have hap := h.rep.blocks.apart hc hb hbc
      unfold Tags.next at hap
      omega
  refine ⟨hr.lo_eq, hr.hi_eq, hr.hi_lt, fun b hb => ?_, fun b d hb hd hbd => ?_,
    fun b _ => ⟨rfl, rfl, rfl, rfl⟩⟩
  · rcases hb with rfl | hb
    · omega
    · exact hr.inside b hb
  · rcases hb with rfl | hb
    · rcases hd with rfl | hd
      · exact absurd rfl hbd
      · exact (hout d hd).symm
    · rcases hd with rfl | hd
      · exact hout b hb
      · exact hr.spaced b d hb hd hbd

theorem of_reads (h : HeapOk P base m bs fl) {A : ℕ → Prop} {st : Storage} {B : HeapBlocks}
    {bs' fl' : List ℕ} (hr : Reads P base (m.base + P.sizeofHeapBlock) A st B)
    (hrep : HeapRep P base m.base bs' fl' B) (hA : ∀ b, b = m.base ∨ b ∈ bs' → A b) :
    HeapOk P base { m with storage := st } bs' fl' ∧ used bs' (blocksOf P st) = used bs' B := by
  have hblock := fun b hb => hr.block b (hA b hb)
  refine ⟨⟨hrep.congr (fun b hb => (hblock b hb).prev) (fun b hb => (hblock b hb).size)
    (fun b hb => (hblock b (hrep.mem_of_ring hb)).free), hr.lo_eq, hr.hi_eq, h.hi_lt, h.small,
    h.base_pos, h.vfAlloc, h.vfFree⟩, ?_⟩
  funext b
  exact used_congr Iff.rfl (fun hb => (hblock b (Or.inr hb)).size)

theorem apart_used (h : HeapOk P base m bs fl) (hc : used bs (blocksOf P m.storage) c = some k) {b : ℕ}
    (hb : b = m.base ∨ b ∈ bs) (hbc : b ≠ c) :
    b + P.sizeofHeapBlock ≤ c ∨ c + P.sizeofHeapPhy + k ≤ b := by
  obtain ⟨hcb, hz, _⟩ := used_eq_some.mp hc
  have hblk := P.sizeofHeapBlock_eq
  have hap := h.rep.blocks.apart hcb hb hbc
  unfold Tags.next at hap
  rw [hz] at hap
  omega

/-- a write into the blocks, and into blocks that lie in `c`, which leaves the links of the used blocks
alone, leaves their payloads alone -/
theorem payloadsKept (h : HeapOk P base m bs fl) {A : ℕ → Prop} {st' : Storage} {B' : HeapBlocks}
    (hr : Tracks P base (m.base + P.sizeofHeapBlock) A m.storage st' B')
    (hA : ∀ b, A b → (b = m.base ∨ b ∈ bs) ∨ c ∈ bs ∧ c ≤ b ∧ b + P.sizeofHeapBlock
      ≤ c + P.sizeofHeapPhy + ((blocksOf P m.storage).tags.size c).natAbs)
    (hAll : ∀ b ∈ bs, A b)
    (hfree : ∀ b ∈ bs, b ∉ m.base :: fl → b ≠ c → B'.free.EqAt (blocksOf P m.storage).free b) :
    PayloadsKept P bs m st' c := by
  intro d k hd hdc x h1 h2
  obtain ⟨hdb, hz, hk⟩ := used_eq_some.mp hd
  have hphy : P.sizeofHeapPhy = 2 * P.ptr := rfl
  have hblk : P.sizeofHeapBlock = 4 * P.ptr := rfl
  by_cases hx : x < d + P.sizeofHeapBlock
  · -- the place of the links of a free block
    have hlinks := (hr.block d (hAll d hdb)).free.trans
      (hfree d hdb (h.rep.notMem_ring hdb (by omega)) hdc)
    by_cases hnext : x < d + 3 * P.ptr
    · exact byte_eq_of_loadBytes_eq (Option.some.inj hlinks.1) (by omega) (by omega)
    · exact byte_eq_of_loadBytes_eq (Option.some.inj hlinks.2) (by omega) (by omega)
  · apply hr.kept
    intro b hb
    by_cases hbd : b = d
    · omega
    · rcases hA b hb with hb | ⟨hcb, hb1, hb2⟩
      · have hap := h.apart_used hd hb hbd
        omega
      · have hap := h.apart_used hd (Or.inr hcb) (Ne.symm hdc)
        have hap' := h.rep.blocks.apart hcb (Or.inr hdb) hdc
        unfold Tags.next at hap'
        omega

end HeapOk

/-! ## `heap_free` -/

/-- after `run` the storage holds blocks of `bs`, `c` is not in use any more, and of the other blocks only
those of the free list were linked anew -/
def GivenBack (P : HeapPort) (base s lo hi : ℕ) (bs fl : List ℕ) (st₀ : Storage) (B : HeapBlocks)
    (c : ℕ) (run : Exec Storage) : Prop :=
  ∃ st' B', run = .ok st' ∧ Tracks P lo hi (fun b => b = s ∨ b ∈ bs) st₀ st' B' ∧
    (∀ b, b ∉ s :: fl → b ≠ c → B'.free.EqAt B.free b) ∧
    ∃ bs' fl', HeapRep P base s bs' fl' B' ∧
      used bs' B' = Function.update (used bs B) c none ∧ ∀ b ∈ bs', b ∈ bs

section
variable {s lo hi p t : ℕ} {st₀ st : Storage} {B : HeapBlocks}

theorem heapFreeNone_ok (h : HeapRep P base s bs fl B) (hc : c ∈ bs) (hz : B.tags.size c < 0)
    (hr : Tracks P lo hi (fun b => b = s ∨ b ∈ bs) st₀ st (B.setPhySize c (-B.tags.size c)))
    (hpz : B.tags.size (B.tags.prev c) ≤ 0) (htz : B.tags.size (B.tags.next P.sizeofHeapPhy c) ≤ 0) :
    GivenBack P base s lo hi bs fl st₀ B c (heapFreeNone P s st c) := by
  obtain ⟨y, hym, hy⟩ := h.ring.exists_next (List.mem_cons_self ..)
  obtain ⟨st', hw, hr'⟩ := hr.heapFreeNone (Or.inr hc) (Or.inl rfl) hy (h.mem_of_ring hym)
    (h.ne_sentinel hc).symm
  refine ⟨st', _, hw, hr', fun b hb hbc => ?_, h.freeNone hc hz hy hpz htz (Function.update_self ..)
    (fun x hx => Function.update_of_ne hx ..) rfl rfl⟩
  exact B.free.eqAt_insertAfter (ne_of_mem_of_not_mem (List.mem_cons_self ..) hb).symm
    (ne_of_mem_of_not_mem hym hb).symm hbc

theorem heapFreeNext_ok (h : HeapRep P base s bs fl B) (hc : c ∈ bs) (hz : B.tags.size c < 0)
    (hsmall : s < base + 2147483647)
    (hr : Tracks P lo hi (fun b => b = s ∨ b ∈ bs) st₀ st (B.setPhySize c (-B.tags.size c)))
    (ht : t = B.tags.next P.sizeofHeapPhy c) (hpz : B.tags.size (B.tags.prev c) ≤ 0)
    (htt : 0 < B.tags.size t) : GivenBack P base s lo hi bs fl st₀ B c (heapFreeNext P st c t) := by
  have htc : t ≠ c := ht ▸ P.next_ne B.tags c
  have hts : t = s ∨ t ∈ bs := ht ▸ h.next_mem hc
  have htb := h.mem_of_pos hts htt
  obtain ⟨x, y, hx, hy, hxm, hym, _, _⟩ := h.ring_neighbours ((h.mem_free t).mpr ⟨htb, htt⟩)
  have hxc : x ≠ c := fun e => h.notMem_ring hc hz (e ▸ hxm)
  have hself : (B.setPhySize c (-B.tags.size c)).tags.size c = -B.tags.size c := Function.update_self ..
  have hother : (B.setPhySize c (-B.tags.size c)).tags.size t = B.tags.size t :=
    Function.update_of_ne htc ..
  -- the block after that one begins where the two end
  have hbase := (h.blocks.bounds hc).1
  have hend := (h.blocks.bounds htb).2.1
  have hn : (B.tags.next P.sizeofHeapPhy t : ℤ)
      = c + (-B.tags.size c + B.tags.size t + P.sizeofHeapPhy) + P.sizeofHeapPhy := by
    rw [ht] at htt ⊢
    unfold Tags.next at htt ⊢
    omega
  obtain ⟨st', hw, hr'⟩ := hr.heapFreeNext (Or.inr hc) hts (h.next_mem htb) hy hx (h.mem_of_ring hym)
    (h.mem_of_ring hxm) hxc (by rw [hself]; omega) (by rw [hother]; omega)
    (by rw [hself, hother]; omega) (by rw [hself, hother]; exact hn)
  rw [hself, hother] at hr'
  refine ⟨st', _, hw, hr', fun b hb hbc => ?_,
    h.freeNext hc hz (t := t) ht hx hy hpz htt (Function.update_self ..)
    (fun x hxc => (Function.update_of_ne hxc ..).trans (Function.update_of_ne hxc ..)) rfl rfl⟩
  exact B.free.eqAt_replace (ne_of_mem_of_not_mem hxm hb).symm (ne_of_mem_of_not_mem hym hb).symm hbc

theorem heapFreePrev_ok (h : HeapRep P base s bs fl B) (hc : c ∈ bs) (hz : B.tags.size c < 0)
    (hsmall : s < base + 2147483647)
    (hr : Tracks P lo hi (fun b => b = s ∨ b ∈ bs) st₀ st (B.setPhySize c (-B.tags.size c)))
    (hp : p = B.tags.prev c) (hpp : 0 < B.tags.size p)
    (htz : B.tags.size (B.tags.next P.sizeofHeapPhy c) ≤ 0) :
    GivenBack P base s lo hi bs fl st₀ B c (heapFreePrev P st c (B.tags.next P.sizeofHeapPhy c)) := by
  obtain ⟨hpc, hpm⟩ := hp ▸ h.prev_mem hc
  have hpb := h.mem_of_pos (hpm.imp_right And.left) hpp
  have hself : (B.setPhySize c (-B.tags.size c)).tags.size c = -B.tags.size c := Function.update_self ..
  have hother : (B.setPhySize c (-B.tags.size c)).tags.size p = B.tags.size p :=
    Function.update_of_ne hpc ..
  have hlt : B.tags.size p + -B.tags.size c + P.sizeofHeapPhy < 2147483648 := by
    have hbase := (h.blocks.bounds hpb).1
    have hnext := (hpm.resolve_left (h.ne_sentinel hpb)).2
    have hend := (h.blocks.bounds hc).2.1
    unfold Tags.next at hnext hend
    omega
  obtain ⟨st', hw, hr'⟩ := hr.heapFreePrev (Or.inr hc) (h.next_mem hc) (Or.inr hpb) hp.symm
    (by rw [hother]; omega) (by rw [hself]; omega) (by rw [hself, hother]; exact hlt)
  rw [hself, hother] at hr'
  refine ⟨st', _, hw, hr', fun b _ _ => ⟨rfl, rfl⟩,
    h.freePrev hc hz (hp ▸ hpp) htz ?_ (fun x hxc hxp => ?_) ?_ rfl⟩
  · rw [← hp]
    exact Function.update_self ..
  · rw [← hp] at hxp
    exact (Function.update_of_ne hxp ..).trans (Function.update_of_ne hxc ..)
  · rw [← hp]
    rfl

theorem heapFreeBoth_ok (h : HeapRep P base s bs fl B) (hc : c ∈ bs) (hz : B.tags.size c < 0)
    (hsmall : s < base + 2147483647)
    (hr : Tracks P lo hi (fun b => b = s ∨ b ∈ bs) st₀ st (B.setPhySize c (-B.tags.size c)))
    (hp : p = B.tags.prev c) (ht : t = B.tags.next P.sizeofHeapPhy c) (hpp : 0 < B.tags.size p)
    (htt : 0 < B.tags.size t) : GivenBack P base s lo hi bs fl st₀ B c (heapFreeBoth P st c t) := by
  have htc : t ≠ c := ht ▸ P.next_ne B.tags c
  have hts : t = s ∨ t ∈ bs := ht ▸ h.next_mem hc
  have htb := h.mem_of_pos hts htt
  obtain ⟨hpc, hpm⟩ := hp ▸ h.prev_mem hc
  have hpb := h.mem_of_pos (hpm.imp_right And.left) hpp
  obtain ⟨x, y, hx, hy, hxm, hym, hxt, _⟩ := h.ring_neighbours ((h.mem_free t).mpr ⟨htb, htt⟩)
  have hself : (B.setPhySize c (-B.tags.size c)).tags.size c = -B.tags.size c := Function.update_self ..
  have hotherp : (B.setPhySize c (-B.tags.size c)).tags.size p = B.tags.size p :=
    Function.update_of_ne hpc ..
  have hothert : (B.setPhySize c (-B.tags.size c)).tags.size t = B.tags.size t :=
    Function.update_of_ne htc ..
  -- the three blocks are one piece
  have hbase := (h.blocks.bounds hpb).1
  have hend := (h.blocks.bounds htb).2.1
  have hn : (B.tags.next P.sizeofHeapPhy t : ℤ) = p + (B.tags.size p +
      (-B.tags.size c + B.tags.size t) + 2 * P.sizeofHeapPhy) + P.sizeofHeapPhy := by
    have hnext := (hpm.resolve_left (h.ne_sentinel hpb)).2
    unfold Tags.next at ht hnext ⊢
    omega
  obtain ⟨st', hw, hr'⟩ := hr.heapFreeBoth (Or.inr hc) hts (h.next_mem htb) (Or.inr hpb) hp.symm hy hx
    (h.mem_of_ring hym) (h.mem_of_ring hxm) hxt (by rw [hotherp]; omega) (by rw [hself]; omega)
    (by rw [hothert]; omega) (by rw [hself, hotherp, hothert]; omega)
    (by rw [hself, hotherp, hothert]; exact hn)
  rw [hself, hotherp, hothert] at hr'
  refine ⟨st', _, hw, hr', fun b hb _ => ?_,
    h.freeBoth hc hz (t := t) ht hx hy (hp ▸ hpp) htt ?_ (fun x hxc hxp => ?_) ?_ rfl⟩
  · exact B.free.eqAt_unlink (ne_of_mem_of_not_mem hxm hb).symm (ne_of_mem_of_not_mem hym hb).symm
  · rw [← hp]
    exact Function.update_self ..
  · rw [← hp] at hxp
    exact (Function.update_of_ne hxp ..).trans (Function.update_of_ne hxc ..)
  · rw [← hp]
    rfl

theorem heapFreeJoin_ok (h : HeapRep P base s bs fl B) (hc : c ∈ bs) (hz : B.tags.size c < 0)
    (hsmall : s < base + 2147483647) (hp : p = B.tags.prev c)
    (ht : t = B.tags.next P.sizeofHeapPhy c)
    (hr : Tracks P lo hi (fun b => b = s ∨ b ∈ bs) st₀ st (B.setPhySize c (-B.tags.size c))) :
    GivenBack P base s lo hi bs fl st₀ B c
      (heapFreeJoin P s (B.tags.size p) (B.tags.size t) st c t) := by
  have hp0 : B.tags.size p ≠ 0 := hp ▸ h.tag_ne_zero ((h.prev_mem hc).2.imp_right And.left)
  have ht0 : B.tags.size t ≠ 0 := ht ▸ h.tag_ne_zero (h.next_mem hc)
  unfold heapFreeJoin
  rcases Int.lt_or_gt_of_ne hp0 with hpp | hpp <;> rcases Int.lt_or_gt_of_ne ht0 with htt | htt
  · rw [if_neg (by omega), if_neg (by omega), if_neg (by omega)]
    exact heapFreeNone_ok h hc hz hr (hp ▸ hpp.le) (ht ▸ htt.le)
  · rw [if_neg (by omega), if_pos ⟨hpp, htt⟩]
    exact heapFreeNext_ok h hc hz hsmall hr ht (hp ▸ hpp.le) htt
  · rw [if_pos ⟨hpp, htt⟩, ht]
    exact heapFreePrev_ok h hc hz hsmall hr hp hpp (ht ▸ htt.le)
  · rw [if_neg (by omega), if_neg (by omega), if_pos ⟨hpp, htt⟩]
    exact heapFreeBoth_ok h hc hz hsmall hr hp ht hpp htt

end

/-- **A block in use is given back**, and the payloads of the others are not touched. -/
theorem heapFree_kept (h : HeapOk P base m bs fl)
    (hc : used bs (blocksOf P m.storage) c = some k) :
    ∃ st' bs' fl', heapFree P m (c + P.sizeofHeapPhy) = .ok { m with storage := st' } ∧
      HeapOk P base { m with storage := st' } bs' fl' ∧
      used bs' (blocksOf P st') = Function.update (used bs (blocksOf P m.storage)) c none ∧
      PayloadsKept P bs m st' c := by
  obtain ⟨hcb, hz, hk⟩ := used_eq_some.mp hc
  have hpos := P.sizeofHeapPhy_pos
  have hblk := P.sizeofHeapBlock_eq
  have hrep := h.rep
  have hr := Tracks.refl h.reads
  obtain ⟨hbc, hcs, _⟩ := h.block_le hcb
  have hlt := h.hi_lt
  have hsmall := h.small
  generalize hB : blocksOf P m.storage = B at hrep hr hz hcs ⊢
  have hzneg : B.tags.size c < 0 := by omega
  -- the blocks before and after
  obtain ⟨p, hp⟩ : ∃ p, p = B.tags.prev c := ⟨_, rfl⟩
  obtain ⟨t, ht⟩ : ∃ t, t = B.tags.next P.sizeofHeapPhy c := ⟨_, rfl⟩
  have hts := hrep.next_mem hcb
  obtain ⟨hpc, hpm⟩ := hrep.prev_mem hcb
  rw [← ht] at hts
  rw [← hp] at hpc hpm
  have hps : p = m.base ∨ p ∈ bs := hpm.imp_right And.left
  have htc : t ≠ c := ht ▸ P.next_ne B.tags c
  have hcurr : P.ptrAdd (c + P.sizeofHeapPhy) (-P.sizeofHeapPhy) = c :=
    HeapPort.ptrAdd_eq (by omega) (by omega)
  have htmp : P.ptrAdd c (-B.tags.size c + P.sizeofHeapPhy) = t := by
    refine HeapPort.ptrAdd_eq ?_ (hr.lt hts)
    rw [ht]
    unfold Tags.next
    omega
  unfold heapFree
  dsimp only
  rw [require_of (show c + P.sizeofHeapPhy ≠ 0 by omega), ok_bind, hcurr, hr.phySize (Or.inr hcb), ok_bind]
  obtain ⟨st₁, hw₁, hr₁⟩ := hr.setPhySize (Or.inr hcb) (z := -B.tags.size c)
    (int32_eq (by omega) (by omega))
  rw [Int.mul_neg_one, hw₁, ok_bind, hr₁.phySize (Or.inr hcb), ok_bind, HeapBlocks.setPhySize_size,
    Function.update_self, htmp, hr₁.phyPrev (Or.inr hcb), ok_bind, HeapBlocks.setPhySize_prev, ← hp,
    hr₁.phySize hps, ok_bind, hr₁.phySize hts, ok_bind, HeapBlocks.setPhySize_size,
    Function.update_of_ne hpc, Function.update_of_ne htc]
  obtain ⟨st', B', hrun, hr', hfree, bs', fl', hrep', hused, hsub⟩ :=
    heapFreeJoin_ok hrep hcb hzneg (by omega) hp ht hr₁
  obtain ⟨hok, hused'⟩ := h.of_reads hr'.toReads hrep' (fun b hb => hb.imp_right (hsub b))
  rw [← hB] at hfree
  exact ⟨st', bs', fl', by rw [hrun]; rfl, hok, hused'.trans hused, h.payloadsKept hr'
    (fun b hb => Or.inl hb) (fun b hb => Or.inr hb) (fun b _ => hfree b)⟩

theorem heapFree_ok (h : HeapOk P base m bs fl)
    (hc : used bs (blocksOf P m.storage) c = some k) :
    ∃ st' bs' fl', heapFree P m (c + P.sizeofHeapPhy) = .ok { m with storage := st' } ∧
      HeapOk P base { m with storage := st' } bs' fl' ∧
      used bs' (blocksOf P st') = Function.update (used bs (blocksOf P m.storage)) c none := by
  obtain ⟨st', bs', fl', hrun, hok, hused, _⟩ := heapFree_kept h hc
  exact ⟨st', bs', fl', hrun, hok, hused⟩

/-! ## `heap_alloc` -/

theorem nalignUp_two_pow (P : HeapPort) (n : ℕ) {k : ℕ} (hk : k ≤ 8 * P.ptr) :
    P.nalignUp n (2 ^ k) = (n + 2 ^ k - 1) % 2 ^ (8 * P.ptr) / 2 ^ k * 2 ^ k := by
  have hpos := Nat.two_pow_pos k
  have hsize : P.sizeT ((n : ℤ) + (2 ^ k : ℕ) - 1) = (n + 2 ^ k - 1) % 2 ^ (8 * P.ptr) := by
    rw [show (n : ℤ) + (2 ^ k : ℕ) - 1 = ((n + 2 ^ k - 1 : ℕ) : ℤ) by omega, sizeT_natCast]
  unfold HeapPort.nalignUp
  rw [hsize]
  exact and_mask_eq (Nat.mod_lt _ (Nat.two_pow_pos _)) hk

theorem nalignUp_eq (P : HeapPort) {n : ℕ} (hn : n < 2147483648) :
    P.nalignUp n P.sizeofHeapPhy = roundUp n P.sizeofHeapPhy := by
  have hwide := P.wide
  obtain ⟨k, hk, hphy⟩ : ∃ k, k ≤ 4 ∧ P.sizeofHeapPhy = 2 ^ k := by
    rcases P.ptr_eq with hp | hp
    · exact ⟨3, by decide, by unfold HeapPort.sizeofHeapPhy; rw [hp]; rfl⟩
    · exact ⟨4, by decide, by unfold HeapPort.sizeofHeapPhy; rw [hp]; rfl⟩
  have hk16 : 2 ^ k ≤ 16 := Nat.pow_le_pow_right (n := 2) (by decide) hk
  rw [hphy, nalignUp_two_pow P n (by rcases P.ptr_eq with hp | hp <;> omega),
    Nat.mod_eq_of_lt (by omega)]
  rfl

theorem lt_of_roundUp_lt (P : HeapPort) {n : ℕ} (hn : roundUp n P.sizeofHeapPhy < 2147483648) :
    n < 2147483647 := by
  unfold roundUp HeapPort.sizeofHeapPhy at hn
  rcases P.ptr_eq with hp | hp
  · rw [hp] at hn
    omega
  · rw [hp] at hn
    omega

theorem heapAllocLoop_ok (h : HeapOk P base m bs fl) {r : ℕ} (hr : r < 2147483648) :
    ∀ (bound : ℕ) (before rest : List ℕ), fl = before ++ rest → rest.length < bound →
      (∀ x ∈ before, (blocksOf P m.storage).tags.size x < r) →
      (heapAllocLoop P m.base r bound m.storage (rest.head?.getD m.base) = .ok (0, m.storage) ∧
        ∀ x ∈ fl, (blocksOf P m.storage).tags.size x < r) ∨
      ∃ c ∈ fl, (r : ℤ) ≤ (blocksOf P m.storage).tags.size c ∧
        heapAllocLoop P m.base r bound m.storage (rest.head?.getD m.base)
          = if (blocksOf P m.storage).tags.size c > int32 (P.sizeT (r + P.sizeofHeapBlock)) then
              heapAllocSplit P m.storage c r
            else heapAllocWhole P m.storage c := by
  have hread := h.reads
  have hint : int32 (r : ℤ) = r := int32_eq (by omega) (by omega)
  intro bound
  induction bound with
  | zero => exact fun _ _ _ hlt => absurd hlt (Nat.not_lt_zero _)
  | succ bound ih =>
    intro before rest hfl hlt hbefore
    cases rest with
    | nil =>
      left
      refine ⟨if_pos rfl, fun x hx => hbefore x ?_⟩
      rw [hfl, List.append_nil] at hx
      exact hx
    | cons c rest =>
      have hcfl : c ∈ fl := by simp [hfl]
      have hc := ((h.rep.mem_free c).mp hcfl).1
      have hstep : heapAllocLoop P m.base r (bound + 1) m.storage ((c :: rest).head?.getD m.base)
          = if (blocksOf P m.storage).tags.size c ≥ r then
              if (blocksOf P m.storage).tags.size c > int32 (P.sizeT (r + P.sizeofHeapBlock)) then
                heapAllocSplit P m.storage c r
              else heapAllocWhole P m.storage c
            else freeNext P m.storage c >>= fun curr => heapAllocLoop P m.base r bound m.storage curr := by
        rw [List.head?_cons, Option.getD_some, heapAllocLoop, if_neg (h.rep.ne_sentinel hc),
          hread.phySize (Or.inr hc), ok_bind, hint]
      rw [hstep]
      by_cases hle : (r : ℤ) ≤ (blocksOf P m.storage).tags.size c
      · right
        refine ⟨c, hcfl, hle, ?_⟩
        rw [if_pos hle]
      · rw [if_neg hle]
        have hring := h.rep.ring
        rw [hfl] at hring
        have hnext : (blocksOf P m.storage).free.next c = some (rest.head?.getD m.base) := by
          cases rest with
          | nil => exact hring.next_last
          | cons d rest => exact hring.next_mem
        rw [hread.freeNext (Or.inr hc) hnext, ok_bind]
        refine ih (before ++ [c]) rest (by rw [hfl]; simp) (by simpa using hlt) (fun x hx => ?_)
        rcases List.mem_append.mp hx with hx | hx
        · exact hbefore x hx
        · rw [List.mem_singleton.mp hx]
          omega

theorem heapAllocTake_ok (h : HeapOk P base m bs fl) {r : ℕ} (hr : r < 2147483648)
    (hleast : P.sizeofHeapPhy ≤ r) (hdvd : P.sizeofHeapPhy ∣ r) (hc : c ∈ fl)
    (hle : (r : ℤ) ≤ (blocksOf P m.storage).tags.size c) :
    ∃ st' bs' fl' k, (if (blocksOf P m.storage).tags.size c
          > int32 (P.sizeT (r + P.sizeofHeapBlock)) then heapAllocSplit P m.storage c r
        else heapAllocWhole P m.storage c) = .ok (c + P.sizeofHeapPhy, st') ∧
      HeapOk P base { m with storage := st' } bs' fl' ∧ r ≤ k ∧
      used bs' (blocksOf P st') = Function.update (used bs (blocksOf P m.storage)) c (some k) ∧
      PayloadsKept P bs m st' c := by
  have hpos := P.sizeofHeapPhy_pos
  have hblk := P.sizeofHeapBlock_eq
  have hread := h.reads
  have hrep := h.rep
  obtain ⟨hcb, hcpos⟩ := (hrep.mem_free c).mp hc
  obtain ⟨hbc, hcs, _⟩ := h.block_le hcb
  have hlt := h.hi_lt
  have hsmall := h.small
  have hsz : int32 (P.sizeT (r + P.sizeofHeapBlock)) = r + P.sizeofHeapBlock := by
    rw [HeapPort.sizeT_eq (x := r + P.sizeofHeapBlock) (by omega) (by omega)]
    exact (int32_eq (by omega) (by omega)).trans (by omega)
  obtain ⟨x, y, hx, hy, hxm, hym, hxc, hyc⟩ := hrep.ring_neighbours hc
  rw [hsz]
  generalize hB : blocksOf P m.storage = B at hrep hread hcpos hcs hle hx hy ⊢
  by_cases hcut : B.tags.size c > r + P.sizeofHeapBlock
  · -- the rest of the block is a block of its own
    rw [if_pos hcut]
    obtain ⟨t, ht⟩ : ∃ t, t = c + r + P.sizeofHeapPhy := ⟨_, rfl⟩
    have hr := h.reads_inside hcb (t := t) (by omega) (by rw [hB]; omega)
    rw [hB] at hr
    have hyt : y ≠ t := by
      rintro rfl
      have hap := hrep.blocks.apart hcb (hrep.mem_of_ring hym) hyc
      unfold Tags.next at hap
      omega
    obtain ⟨st', hw, hr'⟩ := (Tracks.refl hr).heapAllocSplit (t := t) (n := B.tags.next P.sizeofHeapPhy c)
      (Or.inr (Or.inr hcb)) (Or.inl rfl) (Or.inr (hrep.next_mem hcb)) hy hx
      (Or.inr (hrep.mem_of_ring hym)) (Or.inr (hrep.mem_of_ring hxm)) (by omega) hyt ht
      (by unfold Tags.next; omega) (by omega) (by omega) (by omega)
    obtain ⟨bs', fl', hrep', hused, hsub⟩ := hrep.allocSplit hc hx hy ht hleast hdvd (by omega) rfl
    obtain ⟨hok, hused'⟩ := h.of_reads hr'.toReads hrep' (fun b hb => by
      rcases hb with hb | hb
      · exact Or.inr (Or.inl hb)
      · exact (hsub b hb).imp_right Or.inr)
    refine ⟨st', bs', fl', r, hw, hok, le_refl r, hused'.trans hused, h.payloadsKept hr' (fun b hb => ?_)
      (fun b hb => Or.inr (Or.inr hb)) (fun b hbs hb hbc => ?_)⟩
    · rcases hb with rfl | hb
      · exact Or.inr ⟨hcb, by omega, by rw [hB]; omega⟩
      · exact Or.inl hb
    · have hbt : b ≠ t := by
        have hap := hrep.blocks.apart hcb (Or.inr hbs) hbc
        unfold Tags.next at hap
        omega
      rw [hB]
      exact B.free.eqAt_replace (ne_of_mem_of_not_mem hxm hb).symm (ne_of_mem_of_not_mem hym hb).symm
        hbt
  · rw [if_neg hcut]
    obtain ⟨st', hw, hr'⟩ := (Tracks.refl hread).heapAllocWhole (Or.inr hcb) hy hx (hrep.mem_of_ring hym)
      (hrep.mem_of_ring hxm) hyc (int32_eq (by omega) (by omega))
    obtain ⟨fl', hrep', hused⟩ := hrep.allocWhole hc hx hy rfl
    obtain ⟨hok, hused'⟩ := h.of_reads hr'.toReads hrep' (fun b hb => hb)
    refine ⟨st', bs, fl', _, hw, hok, by omega, hused'.trans hused, h.payloadsKept hr'
      (fun b hb => Or.inl hb) (fun b hb => Or.inr hb) (fun b _ hb _ => ?_)⟩
    rw [hB]
    exact B.free.eqAt_unlink (ne_of_mem_of_not_mem hxm hb).symm (ne_of_mem_of_not_mem hym hb).symm

theorem HeapOk.next_sentinel (h : HeapOk P base m bs fl) :
    (blocksOf P m.storage).free.next m.base = some (fl.head?.getD m.base) := by
  have hring := h.rep.ring
  cases fl with
  | nil => exact hring.next_nil
  | cons b fl => exact hring.next_cons

theorem HeapOk.free_length (h : HeapOk P base m bs fl) :
    fl.length < m.storage.hi - m.storage.lo := by
  have hpos := P.sizeofHeapPhy_pos
  have hblk := P.sizeofHeapBlock_eq
  have hsub : fl.length ≤ bs.length :=
    (List.subperm_of_subset h.rep.ring.list_nodup
      (fun b hb => ((h.rep.mem_free b).mp hb).1)).length_le
  have hle := h.rep.blocks.length_le hpos
  rw [h.lo_eq, h.hi_eq]
  omega

theorem heapAlloc_eq (h : HeapOk P base m bs fl) {n : ℕ} (h1 : 1 ≤ n) (hn : n < 2147483647) :
    heapAlloc P m n = heapAllocLoop P m.base (roundUp n P.sizeofHeapPhy)
      (m.storage.hi - m.storage.lo) m.storage (fl.head?.getD m.base) >>= fun x =>
        require P.apiValidation (x.1 ≠ 0) >>= fun _ => .ok (x.1, { m with storage := x.2 }) := by
  unfold heapAlloc
  dsimp only
  rw [require_of ⟨by omega, by omega⟩, ok_bind, h.reads.freeNext (Or.inl rfl) h.next_sentinel, ok_bind,
    nalignUp_eq P (by omega)]
  rfl

/-- **A request** gets a block that was not in use, and the payloads in use are not touched, or no free
block is as large as the request. -/
theorem heapAlloc_kept (h : HeapOk P base m bs fl) {n : ℕ} (h1 : 1 ≤ n)
    (hn : roundUp n P.sizeofHeapPhy < 2147483648) :
    (∃ c st' bs' fl' k, heapAlloc P m n = .ok (c + P.sizeofHeapPhy, { m with storage := st' }) ∧
      HeapOk P base { m with storage := st' } bs' fl' ∧ n ≤ k ∧
      used bs (blocksOf P m.storage) c = none ∧
      used bs' (blocksOf P st') = Function.update (used bs (blocksOf P m.storage)) c (some k) ∧
      PayloadsKept P bs m st' c) ∨
    ((∀ b ∈ fl, (blocksOf P m.storage).tags.size b < roundUp n P.sizeofHeapPhy) ∧
      heapAlloc P m n = if P.apiValidation = true then .error .assertion else .ok (0, m)) := by
  have hpos := P.sizeofHeapPhy_pos
  obtain ⟨hnr, hdvd, hleast⟩ := roundUp_ok h1 hpos
  rw [heapAlloc_eq h h1 (lt_of_roundUp_lt P hn)]
  obtain ⟨r, hr⟩ : ∃ r, r = roundUp n P.sizeofHeapPhy := ⟨_, rfl⟩
  rw [← hr] at hn hnr hdvd hleast ⊢
  rcases heapAllocLoop_ok h hn (m.storage.hi - m.storage.lo) [] fl rfl h.free_length
    (fun x hx => absurd hx List.not_mem_nil) with ⟨hloop, hsmall⟩ | ⟨c, hc, hle, hloop⟩
  · right
    refine ⟨hsmall, ?_⟩
    rw [hloop, ok_bind]
    unfold require
    cases P.apiValidation with
    | true => rfl
    | false => rfl
  · left
    obtain ⟨st', bs', fl', k, hw, hok, hrk, hused, hkept⟩ := heapAllocTake_ok h hn hleast hdvd hc hle
    refine ⟨c, st', bs', fl', k, ?_, hok, by omega, ?_, hused, hkept⟩
    · rw [hloop, hw, ok_bind, require_of (show c + P.sizeofHeapPhy ≠ 0 by omega)]
      rfl
    · have hcpos := ((h.rep.mem_free c).mp hc).2
      exact used_eq_none.mpr (Or.inr (by omega))

theorem heapAlloc_ok (h : HeapOk P base m bs fl) {n : ℕ} (h1 : 1 ≤ n)
    (hn : roundUp n P.sizeofHeapPhy < 2147483648) :
    (∃ c st' bs' fl' k, heapAlloc P m n = .ok (c + P.sizeofHeapPhy, { m with storage := st' }) ∧
      HeapOk P base { m with storage := st' } bs' fl' ∧ n ≤ k ∧
      used bs (blocksOf P m.storage) c = none ∧
      used bs' (blocksOf P st') = Function.update (used bs (blocksOf P m.storage)) c (some k)) ∨
    ((∀ b ∈ fl, (blocksOf P m.storage).tags.size b < roundUp n P.sizeofHeapPhy) ∧
      heapAlloc P m n = if P.apiValidation = true then .error .assertion else .ok (0, m)) := by
  refine (heapAlloc_kept h h1 hn).imp_left ?_
  rintro ⟨c, st', bs', fl', k, hrun, hok, hnk, hnone, hused, _⟩
  exact ⟨c, st', bs', fl', k, hrun, hok, hnk, hnone, hused⟩

/-! ## `heap_init_alloc` -/

/-- what `heap_init_alloc` is given: a storage that it accepts, somewhere in the memory -/
structure NmemUnused (P : HeapPort) (base size : ℕ) (m : Nmem) : Prop where
  base_eq : m.base = base
  size_eq : m.size = size
  lo_eq : m.storage.lo = base
  hi_eq : m.storage.hi = base + size
  base_pos : 0 < base
  in_memory : base + size < 2 ^ (8 * P.ptr)
  size_gt : 2 * P.sizeofHeapBlock < size
  size_lt : size < 2147483647
  vfAlloc : m.vfAlloc = .heapInitAlloc

/-- `heap_init_alloc` without the request -/
def heapInitObj (P : HeapPort) (heapObj : Nmem) : Exec Nmem := do
  require P.apiValidation (heapObj.base ≠ 0)
  require P.apiValidation (heapObj.size > 2 * P.sizeofHeapBlock)
  require P.apiValidation (heapObj.size < 2 ^ 31 - 1)
  let sentinel := P.ptrAdd (P.ptrAdd heapObj.base heapObj.size) (-P.sizeofHeapBlock)
  let begin := heapObj.base
  let st ← heapInitBlocks P heapObj.storage begin sentinel heapObj.size
  let beginSize ← phySize P st begin
  return { vfAlloc := .heapAlloc, vfFree := true, base := sentinel, free := P.sizeT beginSize,
           size := P.sizeT beginSize, storage := st }

theorem heapInitAlloc_eq (P : HeapPort) (m : Nmem) (n : ℕ) :
    heapInitAlloc P m n = heapInitObj P m >>= fun m => heapAlloc P m n := by
  unfold heapInitAlloc heapInitObj
  simp only [bind_assoc, pure_eq, ok_bind]

/-- **The heap is set up**: it is one free block. -/
theorem heapInitObj_ok {size : ℕ} (h : NmemUnused P base size m) :
    ∃ m', heapInitObj P m = .ok m' ∧ HeapOk P base m' [base] [base] ∧
      used [base] (blocksOf P m'.storage) = (fun _ => none) ∧
      (blocksOf P m'.storage).tags.size base = size - P.sizeofHeapBlock - P.sizeofHeapPhy ∧
      m'.free = size - P.sizeofHeapBlock - P.sizeofHeapPhy ∧
      m'.base + P.sizeofHeapBlock = base + size := by
  have hpos := P.sizeofHeapPhy_pos
  have hblk := P.sizeofHeapBlock_eq
  have hgt := h.size_gt
  have hlt := h.size_lt
  have hmem := h.in_memory
  have hbase := h.base_pos
  obtain ⟨s, hs⟩ : ∃ s, s + P.sizeofHeapBlock = base + size := ⟨base + size - P.sizeofHeapBlock, by omega⟩
  have hend : P.ptrAdd base size = base + size := HeapPort.ptrAdd_eq (by omega) hmem
  have hsent : P.ptrAdd (base + size) (-P.sizeofHeapBlock) = s :=
    HeapPort.ptrAdd_eq (by omega) (by omega)
  have hread : Reads P base (s + P.sizeofHeapBlock) (fun b => b = s ∨ b ∈ [base]) m.storage
      (blocksOf P m.storage) := by
    refine ⟨h.lo_eq, h.hi_eq.trans hs.symm, by omega, fun b hb => ?_, fun b c hb hc hbc => ?_,
      fun b _ => ⟨rfl, rfl, rfl, rfl⟩⟩
    · rw [List.mem_singleton] at hb
      omega
    · rw [List.mem_singleton] at hb hc
      omega
  have hfit : size < 2147483648 := by omega
  obtain ⟨st', hw, hr⟩ := hread.heapInitBlocks (Or.inr (List.mem_singleton_self base)) (Or.inl rfl) hfit
    (by omega)
  have hbs : base ≠ s := by omega
  have hsize : ((size : ℤ) - P.sizeofHeapBlock - P.sizeofHeapPhy) = s - base - P.sizeofHeapPhy := by
    omega
  rw [hsize] at hr
  generalize hB : HeapBlocks.mk _ _ = B at hr
  have hrep : HeapRep P base s [base] [base] B := by
    rw [← hB]
    refine HeapRep.init hbs ?_ ?_ ?_ ?_ (by omega) ?_ ?_ ?_ ?_ <;> simp [hbs]
  have hblock := fun b hb => hr.block b (by exact hb)
  have hbegin : B.tags.size base = s - base - P.sizeofHeapPhy := by
    rw [← hB]
    simp [hbs]
  have hrun : heapInitObj P m = .ok ⟨.heapAlloc, true, s,
      P.sizeT (s - base - P.sizeofHeapPhy), P.sizeT (s - base - P.sizeofHeapPhy), st'⟩ := by
    unfold heapInitObj
    dsimp only
    rw [h.base_eq, h.size_eq, require_of (show base ≠ 0 by omega), ok_bind,
      require_of (show size > 2 * P.sizeofHeapBlock from hgt), ok_bind, require_of (by omega), ok_bind,
      hend, hsent, hw, ok_bind, hr.phySize (Or.inr (List.mem_singleton_self _)), ok_bind, hbegin]
    rfl
  refine ⟨_, hrun, ⟨?_, hr.lo_eq, hr.hi_eq, hr.hi_lt, by dsimp only; omega, hbase, rfl, rfl⟩, ?_, ?_, ?_,
    hs⟩
  · exact hrep.congr (fun b hb => (hblock b hb).prev) (fun b hb => (hblock b hb).size)
      (fun b hb => (hblock b (hrep.mem_of_ring hb)).free)
  · funext b
    rw [used_eq_none]
    by_cases hb : b ∈ [base]
    · have hpositive := ((hrep.mem_free b).mp hb).2
      rw [← (hblock b (Or.inr hb)).size] at hpositive
      exact Or.inr (le_of_lt hpositive)
    · exact Or.inl hb
  · rw [hsize, ← hbegin]
    exact (hblock base (Or.inr (List.mem_singleton_self _))).size
  · exact HeapPort.sizeT_eq (by omega) (by omega)

/-- **The first request**: the heap is one free block, then it is a request as any other. -/
theorem heapInitAlloc_ok {size : ℕ} (h : NmemUnused P base size m) (n : ℕ) :
    ∃ m', heapInitAlloc P m n = heapAlloc P m' n ∧ HeapOk P base m' [base] [base] ∧
      used [base] (blocksOf P m'.storage) = (fun _ => none) ∧
      (blocksOf P m'.storage).tags.size base = size - P.sizeofHeapBlock - P.sizeofHeapPhy := by
  obtain ⟨m', hrun, hok, hused, hsize, _⟩ := heapInitObj_ok h
  refine ⟨m', ?_, hok, hused, hsize⟩
  rw [heapInitAlloc_eq, hrun, ok_bind]

end

end NeonEds
