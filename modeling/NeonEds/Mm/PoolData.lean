import Mathlib.Data.List.Pairwise
import NeonEds.Mm.HeapData
import NeonEds.Mm.PoolRuns

/-!
# What the blocks of a pool hold

From a pool that is set up, whatever its number of blocks: for its users it is a store of byte arrays as
the heap is, and no byte changes but those that `PoolOp.Writes` names.
-/

namespace NeonEds
open Exec

section
variable (P : HeapPort) (blockSize junk : ℕ)

/-- a legal run of users that ask for no more than a block, every call with the pointer that it answered -/
inductive PoolRun : PoolMem → List ℕ → List (PoolOp × ℕ) → PoolMem → List ℕ → Prop where
  | nil {m : PoolMem} {live : List ℕ} : PoolRun m live [] m live
  | cons {m m₁ m' : PoolMem} {live live' : List ℕ} {op : PoolOp} {r : ℕ} {ops : List (PoolOp × ℕ)}
      (hl : LegalPoolOp blockSize live op) (hsize : ∀ size, op = .alloc size → size ≤ blockSize)
      (hrun : runPoolOp P junk m op = .ok (r, m₁))
      (h : PoolRun m₁ (poolLiveAfter live op r) ops m' live') : PoolRun m live ((op, r) :: ops) m' live'

/-- the bytes of the blocks that are out -/
def poolPayloads (m : PoolMem) (live : List ℕ) : PayloadStore (BitVec 8) :=
  fun p => if p ∈ live then some (bytesAt m.storage p blockSize) else none

def PoolOp.toStore : PoolOp → StoreOp (BitVec 8)
  | .alloc size => .alloc size
  | .free mem => .free mem
  | .write mem offset byte => .write mem offset byte

/-- the addresses that a call writes: a request none, a release the link in its block -/
def PoolOp.Writes (P : HeapPort) : PoolOp → ℕ → Prop
  | .alloc _, _ => False
  | .free mem, x => mem ≤ x ∧ x < mem + P.ptr
  | .write mem offset _, x => x = mem + offset

end

section
variable {P : HeapPort} {n blockSize junk : ℕ} {m m' : PoolMem} {fl live live' : List ℕ} {b p r : ℕ}

theorem poolAlloc_storage (hrun : poolAlloc P m = .ok (r, m')) : m'.storage = m.storage := by
  unfold poolAlloc at hrun
  dsimp only at hrun
  split at hrun
  · obtain ⟨next, _, hrun⟩ := bind_eq_ok.mp hrun
    rw [← (Prod.mk.inj (Except.ok.inj hrun)).2]
  · rw [← (Prod.mk.inj (Except.ok.inj hrun)).2]

theorem poolFree_storage (hrun : poolFree P m b = .ok m') {x : ℕ} (hx : x < b ∨ b + P.ptr ≤ x) :
    m'.storage.byte x = m.storage.byte x := by
  obtain ⟨st, hstore, hrun⟩ := bind_eq_ok.mp hrun
  obtain ⟨_, rfl⟩ := Storage.store_eq_ok hstore
  rw [← Except.ok.inj hrun]
  exact storeBytes_of_apart hx m.base

theorem poolPayloads_mem (h : p ∈ live) :
    poolPayloads blockSize m live p = some (bytesAt m.storage p blockSize) := if_pos h

theorem poolPayloads_notMem (h : p ∉ live) : poolPayloads blockSize m live p = none := if_neg h

theorem poolPayloads_eq (hmem : p ∈ live' ↔ p ∈ live)
    (hbytes : p ∈ live → ∀ i < blockSize, m'.storage.byte (p + i) = m.storage.byte (p + i)) :
    poolPayloads blockSize m' live' p = poolPayloads blockSize m live p := by
  by_cases hp : p ∈ live
  · rw [poolPayloads_mem hp, poolPayloads_mem (hmem.mpr hp), bytesAt_congr (hbytes hp)]
  · rw [poolPayloads_notMem hp, poolPayloads_notMem (fun h => hp (hmem.mp h))]

namespace PoolRep

theorem live_nodup (h : PoolRep P n blockSize m fl live) : live.Nodup := by
  have hw := ptr_le_width P blockSize
  have hp := P.ptr_pos
  refine (List.pairwise_append.mp h.apart).2.1.imp (fun hab => ?_)
  omega

theorem live_apart (h : PoolRep P n blockSize m fl live) (hb : b ∈ live) (hp : p ∈ live)
    (hpb : p ≠ b) :
    p + blockWidth P blockSize ≤ b ∨ b + blockWidth P blockSize ≤ p := by
  have hsymm : Std.Symm fun a b : ℕ =>
      a + blockWidth P blockSize ≤ b ∨ b + blockWidth P blockSize ≤ a := ⟨fun _ _ => Or.symm⟩
  exact (List.pairwise_append.mp h.apart).2.1.forall hp hb hpb

theorem free_byte (h : PoolRep P n blockSize m fl live) (hb : b ∈ live) (hrun : poolFree P m b = .ok m')
    (hp : p ∈ live) (hpb : p ≠ b) {i : ℕ} (hi : i < blockSize) :
    m'.storage.byte (p + i) = m.storage.byte (p + i) := by
  have hw := ptr_le_width P blockSize
  have hs := size_le_width P blockSize
  have hap := h.live_apart hb hp hpb
  exact poolFree_storage hrun (by omega)

theorem write_byte (h : PoolRep P n blockSize m fl live) (hb : b ∈ live) {offset : ℕ}
    (ho : offset < blockSize) (byte : BitVec 8) (hp : p ∈ live) {i : ℕ} (hi : i < blockSize)
    (hne : p ≠ b ∨ i ≠ offset) :
    (poolWriteByte m (b + offset) byte).storage.byte (p + i) = m.storage.byte (p + i) := by
  have hs := size_le_width P blockSize
  apply Function.update_of_ne
  by_cases hpb : p = b
  · have := hne.resolve_left (fun h => h hpb)
    omega
  · have hap := h.live_apart hb hp hpb
    omega

theorem alloc_payloads (h : PoolRep P n blockSize m fl live) {size : ℕ} (hsize : size ≤ blockSize)
    (hrun : poolAlloc P m = .ok (r, m')) : PayloadStep (poolPayloads blockSize m live) (.alloc size) r
      (poolPayloads blockSize m' (if r = 0 then live else r :: live)) := by
  obtain ⟨r₁, m₁, fl', hok, _, h'⟩ := h.alloc
  rw [hrun] at hok
  obtain ⟨rfl, rfl⟩ := Prod.mk.inj (Except.ok.inj hok)
  have hstorage := poolAlloc_storage hrun
  have hbytes : ∀ q i, m'.storage.byte (q + i) = m.storage.byte (q + i) := by
    intro q i
    rw [hstorage]
  by_cases hr : r = 0
  · have hsame : poolPayloads blockSize m' live = poolPayloads blockSize m live := by
      funext q
      exact poolPayloads_eq Iff.rfl (fun _ i _ => hbytes q i)
    rw [if_pos hr, hsame, hr]
    exact .refused
  · rw [if_neg hr] at h' ⊢
    have hfresh : r ∉ live := (List.nodup_cons.mp h'.live_nodup).1
    have hafter : poolPayloads blockSize m' (r :: live) = Function.update
        (poolPayloads blockSize m live) r (some (bytesAt m'.storage r blockSize)) := by
      funext q
      by_cases hq : q = r
      · rw [hq, Function.update_self, poolPayloads_mem List.mem_cons_self]
      · rw [Function.update_of_ne hq]
        apply poolPayloads_eq
        · rw [List.mem_cons, or_iff_right hq]
        · exact fun _ i _ => hbytes q i
    rw [hafter]
    exact .alloc hr (poolPayloads_notMem hfresh) (by rw [bytesAt_length]; exact hsize)

theorem free_payloads (h : PoolRep P n blockSize m fl live) (hb : b ∈ live)
    (hrun : poolFree P m b = .ok m') : poolPayloads blockSize m' (live.erase b)
      = Function.update (poolPayloads blockSize m live) b none := by
  funext q
  by_cases hq : q = b
  · rw [hq, Function.update_self]
    exact poolPayloads_notMem h.live_nodup.not_mem_erase
  · rw [Function.update_of_ne hq]
    apply poolPayloads_eq (List.mem_erase_of_ne hq)
    exact fun hql i hi => h.free_byte hb hrun hql hq hi

/-- **A user** changes one byte of its own block. -/
theorem write_payloads (h : PoolRep P n blockSize m fl live) (hb : b ∈ live) {offset : ℕ}
    (ho : offset < blockSize) (byte : BitVec 8) :
    poolPayloads blockSize (poolWriteByte m (b + offset) byte) live
      = Function.update (poolPayloads blockSize m live) b
        (some ((bytesAt m.storage b blockSize).set offset byte)) := by
  funext q
  by_cases hq : q = b
  · rw [hq, Function.update_self, poolPayloads_mem hb]
    exact congrArg some (bytesAt_update m.storage b ho byte)
  · rw [Function.update_of_ne hq]
    apply poolPayloads_eq Iff.rfl
    exact fun hql i hi => h.write_byte hb ho byte hql hi (.inl hq)

/-- **One call leaves the bytes alone that it does not name.** -/
theorem step_byte {op : PoolOp} (h : PoolRep P n blockSize m fl live)
    (hrun : runPoolOp P junk m op = .ok (r, m')) {x : ℕ} (hx : ¬ op.Writes P x) :
    m'.storage.byte x = m.storage.byte x := by
  cases op with
  | alloc size =>
    have hop : poolAlloc P m = .ok (r, m') := by
      rw [← hrun]
      unfold runPoolOp poolNmemAllocI
      rw [h.vfAlloc]
    rw [poolAlloc_storage hop]
  | free mem =>
    obtain ⟨m₁, hfree, hrun⟩ := bind_eq_ok.mp hrun
    obtain ⟨rfl, rfl⟩ := Prod.mk.inj (Except.ok.inj hrun)
    have hfree' : poolFree P m mem = .ok m₁ := by
      rw [← hfree]
      exact (if_pos h.vfFree).symm
    apply poolFree_storage hfree'
    have : ¬ (mem ≤ x ∧ x < mem + P.ptr) := hx
    omega
  | write mem offset byte =>
    obtain ⟨rfl, rfl⟩ := Prod.mk.inj (Except.ok.inj hrun)
    exact Function.update_of_ne hx ..

/-- **One call, for the users of the pool.** -/
theorem step_payloads {op : PoolOp} (h : PoolRep P n blockSize m fl live)
    (hl : LegalPoolOp blockSize live op) (hsize : ∀ size, op = .alloc size → size ≤ blockSize)
    (hrun : runPoolOp P junk m op = .ok (r, m')) :
    PayloadStep (poolPayloads blockSize m live) op.toStore r
      (poolPayloads blockSize m' (poolLiveAfter live op r)) ∧
    ∃ fl', PoolRep P n blockSize m' fl' (poolLiveAfter live op r) := by
  cases op with
  | alloc size =>
    have hop : poolAlloc P m = .ok (r, m') := by
      rw [← hrun]
      unfold runPoolOp poolNmemAllocI
      rw [h.vfAlloc]
    refine ⟨h.alloc_payloads (hsize size rfl) hop, ?_⟩
    obtain ⟨r₁, m₁, fl', hok, _, h'⟩ := h.alloc
    rw [hop] at hok
    obtain ⟨rfl, rfl⟩ := Prod.mk.inj (Except.ok.inj hok)
    exact ⟨fl', h'⟩
  | free mem =>
    obtain ⟨m₁, hfree, hrun⟩ := bind_eq_ok.mp hrun
    obtain ⟨rfl, rfl⟩ := Prod.mk.inj (Except.ok.inj hrun)
    have hfree' : poolFree P m mem = .ok m₁ := by
      rw [← hfree]
      exact (if_pos h.vfFree).symm
    obtain ⟨m₂, hok, h'⟩ := h.free hl
    obtain rfl := Except.ok.inj (hfree'.symm.trans hok)
    refine ⟨?_, _, h'⟩
    show PayloadStep _ (.free mem) 0 (poolPayloads blockSize m₁ (live.erase mem))
    rw [h.free_payloads hl hfree']
    exact .free (poolPayloads_mem hl)
  | write mem offset byte =>
    obtain ⟨rfl, rfl⟩ := Prod.mk.inj (Except.ok.inj hrun)
    refine ⟨?_, fl, h.write hl.1 hl.2 byte⟩
    show PayloadStep _ (.write mem offset byte) 0
      (poolPayloads blockSize (poolWriteByte m (mem + offset) byte) live)
    rw [h.write_payloads hl.1 hl.2 byte]
    exact .write (poolPayloads_mem hl.1) (by rw [bytesAt_length]; exact hl.2)

end PoolRep

/-- **A pool refines a store of byte arrays**, and a run changes no byte that none of its calls names. -/
theorem poolRun_refines {ops : List (PoolOp × ℕ)} (h : PoolRep P n blockSize m fl live)
    (hrun : PoolRun P blockSize junk m live ops m' live') :
    PayloadRun (poolPayloads blockSize m live) (ops.map fun x => (x.1.toStore, x.2))
      (poolPayloads blockSize m' live') ∧
    ∀ x, (∀ o ∈ ops, ¬ o.1.Writes P x) → m'.storage.byte x = m.storage.byte x := by
  induction hrun generalizing fl with
  | nil => exact ⟨.nil, fun _ _ => rfl⟩
  | cons hl hsize hop _ ih =>
    obtain ⟨hstep, fl', h'⟩ := h.step_payloads hl hsize hop
    obtain ⟨hrest, hbytes⟩ := ih h'
    refine ⟨.cons hstep hrest, fun x hx => ?_⟩
    obtain ⟨hfirst, hothers⟩ := List.forall_mem_cons.mp hx
    exact (hbytes x hothers).trans (h.step_byte hop hfirst)

end

/-- two blocks of 16 bytes, both free -/
def poolOfTwo : PoolMem :=
  ⟨.poolAlloc, true, 1000, 32, 32, 2, ⟨1000, 1032, storeBytes (fun _ => 0#8) 1000 4 1016⟩⟩

theorem poolOfTwo_rep : PoolRep heapPort32 2 16 poolOfTwo [1000, 1016] [] := by
  have hfirst : loadBytes poolOfTwo.storage.byte 1000 4 = 1016 := by decide +kernel
  have hsecond : loadBytes poolOfTwo.storage.byte 1016 4 = 0 := by decide +kernel
  exact ⟨rfl, rfl, ⟨rfl, by decide, hfirst, by decide, hsecond⟩, rfl, by decide, by decide, by decide⟩

theorem poolRun_refines_two : ∃ m', PoolRun heapPort32 16 0 poolOfTwo []
      [(.alloc 3, 1000), (.write 1000 5 7#8, 0)] m' [1000] ∧
    PayloadRun (poolPayloads 16 poolOfTwo []) [(.alloc 3, 1000), (.write 1000 5 7#8, 0)]
      (poolPayloads 16 m' [1000]) ∧
    ∀ x, (∀ o ∈ [(PoolOp.alloc 3, 1000), (.write 1000 5 7#8, 0)], ¬ o.1.Writes heapPort32 x) →
      m'.storage.byte x = poolOfTwo.storage.byte x := by
  have hwrite : LegalPoolOp 16 [1000] (.write 1000 5 7#8) := ⟨List.mem_singleton_self _, by decide⟩
  have hsmall : ∀ size, PoolOp.alloc 3 = .alloc size → size ≤ 16 := by
    intro size h
    rw [← PoolOp.alloc.inj h]
    decide
  obtain ⟨m, hm⟩ : ∃ m, runPoolOp heapPort32 0 poolOfTwo (.alloc 3) = .ok (1000, m) := ⟨_, rfl⟩
  have hrun : PoolRun heapPort32 16 0 poolOfTwo [] [(.alloc 3, 1000), (.write 1000 5 7#8, 0)]
      (poolWriteByte m 1005 7#8) [1000] :=
    .cons trivial hsmall hm (.cons hwrite (fun size h => by cases h) rfl .nil)
  exact ⟨_, hrun, poolRun_refines poolOfTwo_rep hrun⟩

end NeonEds
