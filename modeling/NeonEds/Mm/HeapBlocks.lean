import NeonEds.Lib.BoundaryTags
import NeonEds.Lib.Dll
import NeonEds.Mm.Heap

/-!
# The blocks in the bytes

`HeapBlocks` is the content of the fields of all blocks, `blocksOf P st` what the bytes of the storage
`st` say.  `Reads P lo hi A st B`: at the addresses `A`, which have room for a block each and lie
apart, the bytes say what `B` says.  Then an access to a field of a block is an access to `B`: the bytes
are not looked at again.  `Tracks` says moreover that the bytes outside of the blocks are those of `st₀`.
-/

namespace NeonEds
open Exec

structure HeapBlocks where
  tags : Tags
  free : Links ℕ

namespace HeapBlocks

def setPhyPrev (B : HeapBlocks) (b v : ℕ) : HeapBlocks :=
  { B with tags := { B.tags with prev := Function.update B.tags.prev b v } }

def setPhySize (B : HeapBlocks) (b : ℕ) (z : ℤ) : HeapBlocks :=
  { B with tags := { B.tags with size := Function.update B.tags.size b z } }

def setFreeNext (B : HeapBlocks) (b v : ℕ) : HeapBlocks :=
  { B with free := B.free.setNext b (some v) }

def setFreePrev (B : HeapBlocks) (b v : ℕ) : HeapBlocks :=
  { B with free := B.free.setPrev b (some v) }

/-- the fields of `b` are the same in both -/
structure EqAt (B' B : HeapBlocks) (b : ℕ) : Prop where
  prev : B'.tags.prev b = B.tags.prev b
  size : B'.tags.size b = B.tags.size b
  free : B'.free.EqAt B.free b

section
variable (B : HeapBlocks) (b v : ℕ) (z : ℤ)

@[simp] theorem setPhyPrev_prev :
    (B.setPhyPrev b v).tags.prev = Function.update B.tags.prev b v := rfl
@[simp] theorem setPhyPrev_size : (B.setPhyPrev b v).tags.size = B.tags.size := rfl
@[simp] theorem setPhyPrev_free : (B.setPhyPrev b v).free = B.free := rfl
@[simp] theorem setPhySize_prev : (B.setPhySize b z).tags.prev = B.tags.prev := rfl
@[simp] theorem setPhySize_size :
    (B.setPhySize b z).tags.size = Function.update B.tags.size b z := rfl
@[simp] theorem setPhySize_free : (B.setPhySize b z).free = B.free := rfl
@[simp] theorem setFreeNext_tags : (B.setFreeNext b v).tags = B.tags := rfl
@[simp] theorem setFreeNext_free : (B.setFreeNext b v).free = B.free.setNext b (some v) := rfl
@[simp] theorem setFreePrev_tags : (B.setFreePrev b v).tags = B.tags := rfl
@[simp] theorem setFreePrev_free : (B.setFreePrev b v).free = B.free.setPrev b (some v) := rfl

end

end HeapBlocks

section
variable (P : HeapPort)

def blocksOf (st : Storage) : HeapBlocks where
  tags :=
    { prev := fun b => loadBytes st.byte b P.ptr
      size := fun b => loadInt st.byte (b + P.ptr) 4 }
  free :=
    { next := fun b => some (loadBytes st.byte (b + 2 * P.ptr) P.ptr)
      prev := fun b => some (loadBytes st.byte (b + 3 * P.ptr) P.ptr) }

@[simp] theorem blocksOf_prev (st : Storage) (b : ℕ) :
    (blocksOf P st).tags.prev b = loadBytes st.byte b P.ptr := rfl
@[simp] theorem blocksOf_size (st : Storage) (b : ℕ) :
    (blocksOf P st).tags.size b = loadInt st.byte (b + P.ptr) 4 := rfl
@[simp] theorem blocksOf_next (st : Storage) (b : ℕ) :
    (blocksOf P st).free.next b = some (loadBytes st.byte (b + 2 * P.ptr) P.ptr) := rfl
@[simp] theorem blocksOf_freePrev (st : Storage) (b : ℕ) :
    (blocksOf P st).free.prev b = some (loadBytes st.byte (b + 3 * P.ptr) P.ptr) := rfl

structure Reads (lo hi : ℕ) (A : ℕ → Prop) (st : Storage) (B : HeapBlocks) : Prop where
  lo_eq : st.lo = lo
  hi_eq : st.hi = hi
  hi_lt : hi < 2 ^ (8 * P.ptr)
  inside : ∀ b, A b → lo ≤ b ∧ b + P.sizeofHeapBlock ≤ hi
  spaced : ∀ b c, A b → A c → b ≠ c → b + P.sizeofHeapBlock ≤ c ∨ c + P.sizeofHeapBlock ≤ b
  block : ∀ b, A b → (blocksOf P st).EqAt B b

/-- nothing was written outside of the blocks since `st₀` -/
structure Tracks (lo hi : ℕ) (A : ℕ → Prop) (st₀ st : Storage) (B : HeapBlocks) : Prop
    extends Reads P lo hi A st B where
  kept : ∀ x, (∀ b, A b → x < b ∨ b + P.sizeofHeapBlock ≤ x) → st.byte x = st₀.byte x

end

section
variable {P : HeapPort} {lo hi : ℕ} {A : ℕ → Prop} {st₀ st st' : Storage} {B B' : HeapBlocks}
  {b v : ℕ} {z : ℤ}

theorem blocksOf_eqAt {st st' : Storage}
    (h : ∀ x, b ≤ x → x < b + P.sizeofHeapBlock → st'.byte x = st.byte x) :
    (blocksOf P st').EqAt (blocksOf P st) b := by
  have hp := P.ptr_eq
  unfold HeapPort.sizeofHeapBlock at h
  refine ⟨?_, ?_, ?_, ?_⟩
  · rw [blocksOf_prev, blocksOf_prev, loadBytes_congr fun x h1 h2 => h x (by omega) (by omega)]
  · rw [blocksOf_size, blocksOf_size, loadInt_congr fun x h1 h2 => h x (by omega) (by omega)]
  · rw [blocksOf_next, blocksOf_next, loadBytes_congr fun x h1 h2 => h x (by omega) (by omega)]
  · rw [blocksOf_freePrev, blocksOf_freePrev,
      loadBytes_congr fun x h1 h2 => h x (by omega) (by omega)]

namespace Reads

theorem congr (h : Reads P lo hi A st B) (hB : ∀ b, A b → B.EqAt B' b) : Reads P lo hi A st B' := by
  refine ⟨h.lo_eq, h.hi_eq, h.hi_lt, h.inside, h.spaced, fun b hb => ?_⟩
  have h1 := h.block b hb
  have h2 := hB b hb
  exact ⟨h1.prev.trans h2.prev, h1.size.trans h2.size, h1.free.trans h2.free⟩

theorem lt (h : Reads P lo hi A st B) (hb : A b) : b < 2 ^ (8 * P.ptr) := by
  have h1 := (h.inside b hb).2
  have h2 := h.hi_lt
  omega

/-! ### reading -/

theorem phyPrev (h : Reads P lo hi A st B) (hb : A b) :
    NeonEds.phyPrev P st b = .ok (B.tags.prev b) := by
  obtain ⟨h1, h2⟩ := h.inside b hb
  unfold HeapPort.sizeofHeapBlock at h2
  unfold NeonEds.phyPrev Storage.load
  rw [if_pos (by rw [h.lo_eq, h.hi_eq]; omega)]
  rw [← (h.block b hb).prev, blocksOf_prev]

theorem phySize (h : Reads P lo hi A st B) (hb : A b) :
    NeonEds.phySize P st b = .ok (B.tags.size b) := by
  obtain ⟨h1, h2⟩ := h.inside b hb
  have hp := P.ptr_eq
  unfold HeapPort.sizeofHeapBlock at h2
  unfold NeonEds.phySize Storage.loadInt
  rw [if_pos (by rw [h.lo_eq, h.hi_eq]; omega)]
  rw [← (h.block b hb).size, blocksOf_size]

theorem freeNext (h : Reads P lo hi A st B) (hb : A b) (hv : B.free.next b = some v) :
    NeonEds.freeNext P st b = .ok v := by
  obtain ⟨h1, h2⟩ := h.inside b hb
  unfold HeapPort.sizeofHeapBlock at h2
  unfold NeonEds.freeNext Storage.load
  rw [if_pos (by rw [h.lo_eq, h.hi_eq]; omega)]
  exact congrArg Except.ok (Option.some.inj ((h.block b hb).free.1.trans hv))

theorem freePrev (h : Reads P lo hi A st B) (hb : A b) (hv : B.free.prev b = some v) :
    NeonEds.freePrev P st b = .ok v := by
  obtain ⟨h1, h2⟩ := h.inside b hb
  unfold HeapPort.sizeofHeapBlock at h2
  unfold NeonEds.freePrev Storage.load
  rw [if_pos (by rw [h.lo_eq, h.hi_eq]; omega)]
  exact congrArg Except.ok (Option.some.inj ((h.block b hb).free.2.trans hv))

/-! ### writing -/

theorem write (h : Reads P lo hi A st B) (hb : A b) {a n k : ℕ} (ha : b ≤ a)
    (han : a + n ≤ b + P.sizeofHeapBlock)
    (hother : ∀ c, c ≠ b → B'.EqAt B c)
    (hself : (blocksOf P { st with byte := storeBytes st.byte a n k }).EqAt B' b) :
    Reads P lo hi A { st with byte := storeBytes st.byte a n k } B' := by
  refine ⟨h.lo_eq, h.hi_eq, h.hi_lt, h.inside, h.spaced, fun c hc => ?_⟩
  by_cases hcb : c = b
  · rw [hcb]
    exact hself
  · have hsp := h.spaced c b hc hb hcb
    have h1 : (blocksOf P { st with byte := storeBytes st.byte a n k }).EqAt (blocksOf P st) c := by
      apply blocksOf_eqAt
      intro x hx1 hx2
      exact storeBytes_of_apart (by omega) k
    have h2 := h.block c hc
    have h3 := hother c hcb
    exact ⟨h1.prev.trans (h2.prev.trans h3.prev.symm), h1.size.trans (h2.size.trans h3.size.symm),
      h1.free.trans (h2.free.trans ⟨h3.free.1.symm, h3.free.2.symm⟩)⟩

theorem loadBytes_store (hv : v < 2 ^ (8 * P.ptr)) (m : ℕ → BitVec 8) (a : ℕ) :
    loadBytes (storeBytes m a P.ptr v) a P.ptr = v := by
  rw [loadBytes_storeBytes, Nat.mod_eq_of_lt]
  rw [pow_mul] at hv
  exact hv

theorem setPhyPrev (h : Reads P lo hi A st B) (hb : A b) (hv : A v) :
    ∃ st', NeonEds.setPhyPrev P st b v = .ok st' ∧ Reads P lo hi A st' (B.setPhyPrev b v) := by
  obtain ⟨h1, h2⟩ := h.inside b hb
  have hp := P.ptr_eq
  have hblk := h.block b hb
  unfold HeapPort.sizeofHeapBlock at h2
  refine ⟨_, if_pos (by rw [h.lo_eq, h.hi_eq]; omega), h.write hb (le_refl b)
    (by unfold HeapPort.sizeofHeapBlock; omega) (fun c hc => ?_) ⟨?_, ?_, ?_, ?_⟩⟩
  · exact ⟨Function.update_of_ne hc .., rfl, rfl, rfl⟩
  · rw [blocksOf_prev, loadBytes_store (h.lt hv), HeapBlocks.setPhyPrev_prev, Function.update_self]
  · rw [blocksOf_size, loadInt_storeBytes_of_apart (by omega), ← blocksOf_size, hblk.size]
    rfl
  · rw [blocksOf_next, loadBytes_storeBytes_of_apart (by omega), ← blocksOf_next, hblk.free.1]
    rfl
  · rw [blocksOf_freePrev, loadBytes_storeBytes_of_apart (by omega), ← blocksOf_freePrev,
      hblk.free.2]
    rfl

theorem setPhySize (h : Reads P lo hi A st B) (hb : A b) (hz : int32 z = z) :
    ∃ st', NeonEds.setPhySize P st b z = .ok st' ∧ Reads P lo hi A st' (B.setPhySize b z) := by
  obtain ⟨h1, h2⟩ := h.inside b hb
  have hp := P.ptr_eq
  have hblk := h.block b hb
  unfold HeapPort.sizeofHeapBlock at h2
  refine ⟨_, if_pos (by rw [h.lo_eq, h.hi_eq]; omega), h.write hb (Nat.le_add_right b P.ptr)
    (by unfold HeapPort.sizeofHeapBlock; omega) (fun c hc => ?_) ⟨?_, ?_, ?_, ?_⟩⟩
  · exact ⟨rfl, Function.update_of_ne hc .., rfl, rfl⟩
  · rw [blocksOf_prev, loadBytes_storeBytes_of_apart (by omega), ← blocksOf_prev, hblk.prev]
    rfl
  · rw [HeapBlocks.setPhySize_size, Function.update_self]
    exact loadInt_storeInt st.byte (b + P.ptr) 4 hz
  · rw [blocksOf_next, loadBytes_storeBytes_of_apart (by omega), ← blocksOf_next, hblk.free.1]
    rfl
  · rw [blocksOf_freePrev, loadBytes_storeBytes_of_apart (by omega), ← blocksOf_freePrev,
      hblk.free.2]
    rfl

theorem setFreeNext (h : Reads P lo hi A st B) (hb : A b) (hv : A v) :
    ∃ st', NeonEds.setFreeNext P st b v = .ok st' ∧ Reads P lo hi A st' (B.setFreeNext b v) := by
  obtain ⟨h1, h2⟩ := h.inside b hb
  have hp := P.ptr_eq
  have hblk := h.block b hb
  unfold HeapPort.sizeofHeapBlock at h2
  refine ⟨_, if_pos (by rw [h.lo_eq, h.hi_eq]; omega), h.write hb (Nat.le_add_right b (2 * P.ptr))
    (by unfold HeapPort.sizeofHeapBlock; omega) (fun c hc => ?_) ⟨?_, ?_, ?_, ?_⟩⟩
  · exact ⟨rfl, rfl, Function.update_of_ne hc .., rfl⟩
  · rw [blocksOf_prev, loadBytes_storeBytes_of_apart (by omega), ← blocksOf_prev, hblk.prev]
    rfl
  · rw [blocksOf_size, loadInt_storeBytes_of_apart (by omega), ← blocksOf_size, hblk.size]
    rfl
  · rw [blocksOf_next, loadBytes_store (h.lt hv), HeapBlocks.setFreeNext_free, Links.setNext_next,
      Function.update_self]
  · rw [blocksOf_freePrev, loadBytes_storeBytes_of_apart (by omega), ← blocksOf_freePrev,
      hblk.free.2]
    rfl

theorem setFreePrev (h : Reads P lo hi A st B) (hb : A b) (hv : A v) :
    ∃ st', NeonEds.setFreePrev P st b v = .ok st' ∧ Reads P lo hi A st' (B.setFreePrev b v) := by
  obtain ⟨h1, h2⟩ := h.inside b hb
  have hp := P.ptr_eq
  have hblk := h.block b hb
  unfold HeapPort.sizeofHeapBlock at h2
  refine ⟨_, if_pos (by rw [h.lo_eq, h.hi_eq]; omega), h.write hb (Nat.le_add_right b (3 * P.ptr))
    (by unfold HeapPort.sizeofHeapBlock; omega) (fun c hc => ?_) ⟨?_, ?_, ?_, ?_⟩⟩
  · exact ⟨rfl, rfl, rfl, Function.update_of_ne hc ..⟩
  · rw [blocksOf_prev, loadBytes_storeBytes_of_apart (by omega), ← blocksOf_prev, hblk.prev]
    rfl
  · rw [blocksOf_size, loadInt_storeBytes_of_apart (by omega), ← blocksOf_size, hblk.size]
    rfl
  · rw [blocksOf_next, loadBytes_storeBytes_of_apart (by omega), ← blocksOf_next, hblk.free.1]
    rfl
  · rw [blocksOf_freePrev, loadBytes_store (h.lt hv), HeapBlocks.setFreePrev_free,
      Links.setPrev_prev, Function.update_self]

end Reads

namespace Tracks

theorem refl (h : Reads P lo hi A st B) : Tracks P lo hi A st st B := ⟨h, fun _ _ => rfl⟩

theorem congr (h : Tracks P lo hi A st₀ st B) (hB : ∀ b, A b → B.EqAt B' b) :
    Tracks P lo hi A st₀ st B' := ⟨h.toReads.congr hB, h.kept⟩

theorem store (h : Tracks P lo hi A st₀ st B) (hb : A b) {a n k : ℕ} (ha : b ≤ a)
    (han : a + n ≤ b + P.sizeofHeapBlock) (hw : st.store a n k = .ok st')
    (hr : Reads P lo hi A st' B') : Tracks P lo hi A st₀ st' B' := by
  refine ⟨hr, fun x hx => ?_⟩
  obtain ⟨_, rfl⟩ := Storage.store_eq_ok hw
  have hxb := hx b hb
  exact (storeBytes_of_apart (by omega) k).trans (h.kept x hx)

theorem setPhyPrev (h : Tracks P lo hi A st₀ st B) (hb : A b) (hv : A v) :
    ∃ st', NeonEds.setPhyPrev P st b v = .ok st' ∧ Tracks P lo hi A st₀ st' (B.setPhyPrev b v) := by
  obtain ⟨st', hw, hr⟩ := h.toReads.setPhyPrev hb hv
  exact ⟨st', hw, h.store hb (le_refl b) (by unfold HeapPort.sizeofHeapBlock; omega) hw hr⟩

theorem setPhySize (h : Tracks P lo hi A st₀ st B) (hb : A b) (hz : int32 z = z) :
    ∃ st', NeonEds.setPhySize P st b z = .ok st' ∧ Tracks P lo hi A st₀ st' (B.setPhySize b z) := by
  have hp := P.ptr_eq
  obtain ⟨st', hw, hr⟩ := h.toReads.setPhySize hb hz
  exact ⟨st', hw, h.store hb (Nat.le_add_right b P.ptr) (by unfold HeapPort.sizeofHeapBlock; omega)
    hw hr⟩

theorem setFreeNext (h : Tracks P lo hi A st₀ st B) (hb : A b) (hv : A v) :
    ∃ st', NeonEds.setFreeNext P st b v = .ok st' ∧
      Tracks P lo hi A st₀ st' (B.setFreeNext b v) := by
  obtain ⟨st', hw, hr⟩ := h.toReads.setFreeNext hb hv
  exact ⟨st', hw, h.store hb (Nat.le_add_right b (2 * P.ptr))
    (by unfold HeapPort.sizeofHeapBlock; omega) hw hr⟩

theorem setFreePrev (h : Tracks P lo hi A st₀ st B) (hb : A b) (hv : A v) :
    ∃ st', NeonEds.setFreePrev P st b v = .ok st' ∧
      Tracks P lo hi A st₀ st' (B.setFreePrev b v) := by
  obtain ⟨st', hw, hr⟩ := h.toReads.setFreePrev hb hv
  exact ⟨st', hw, h.store hb (Nat.le_add_right b (3 * P.ptr))
    (by unfold HeapPort.sizeofHeapBlock; omega) hw hr⟩

end Tracks

end

end NeonEds
