import NeonEds.Lib.Allocator
import NeonEds.Mm.HeapOrder
import NeonEds.Mm.PoolData

/-!
# Memory objects (include/mm/mem.h)

A memory object is a heap or a pool; `nmem_alloc_i` and `nmem_free_i` call the functions of its class.
`MemInit` is what an object was when its use began, `MemInit.Rep` are the states that it is found in:

* a heap is in a state that legal calls reach, with the payloads that are out;
* the free and the used blocks of a pool are all its blocks.

`MemInit.keeps`: both are allocators.  `MemInit.reads`: what is written into a block stays there.
-/

namespace NeonEds
open Exec

inductive MemObj where
  | heap (m : Nmem)
  | pool (m : PoolMem)

/-- NULL is 0 -/
def ofPtr (r : ℕ) : Option ℕ := if r = 0 then none else some r

namespace MemObj
variable (P : HeapPort) (junk : ℕ)

def nmemAllocI : MemObj → ℕ → Exec (Option ℕ × MemObj)
  | .heap m, size => do
    let (r, m) ← NeonEds.nmemAllocI P m size
    return (ofPtr r, .heap m)
  | .pool m, size => do
    let (r, m) ← poolNmemAllocI P junk m size
    return (ofPtr r, .pool m)

def nmemFreeI : MemObj → ℕ → Exec MemObj
  | .heap m, mem => do
    let m ← NeonEds.nmemFreeI P m mem
    return .heap m
  | .pool m, mem => do
    let m ← poolNmemFreeI P m mem
    return .pool m

def writeByte : MemObj → ℕ → ℕ → BitVec 8 → MemObj
  | .heap m, mem, offset, byte => .heap (NeonEds.writeByte m (mem + offset) byte)
  | .pool m, mem, offset, byte => .pool (poolWriteByte m (mem + offset) byte)

def readByte : MemObj → ℕ → ℕ → BitVec 8
  | .heap m, mem, offset => m.storage.byte (mem + offset)
  | .pool m, mem, offset => m.storage.byte (mem + offset)

def allocator : Allocator MemObj ℕ (BitVec 8) := ⟨nmemAllocI P junk, nmemFreeI P, writeByte⟩

end MemObj

/-- a heap that was not used yet, or a pool of `n` blocks in the storage from `lo` to `hi` -/
inductive MemInit where
  | heap (m₀ : Nmem) (base size : ℕ)
  | pool (n blockSize lo hi : ℕ)

namespace MemInit
variable (P : HeapPort)

/-- the sizes that the users may ask for: a pool does not look at them -/
def asks : MemInit → ℕ → Prop
  | .heap .., size => 1 ≤ size ∧ roundUp size P.sizeofHeapPhy < 2147483648
  | .pool _ blockSize _ _, size => size ≤ blockSize

/-- the addresses of the storage -/
def own : MemInit → ℕ → Prop
  | .heap _ base size, p => base ≤ p ∧ p < base + size
  | .pool _ _ lo hi, p => lo ≤ p ∧ p < hi

def Rep : MemInit → MemObj → (ℕ → Option ℕ) → Prop
  | .heap m₀ _ _, .heap m, out => HeapReach P m₀ m out
  | .pool n blockSize lo hi, .pool m, out =>
    ∃ fl live, PoolRep P n blockSize m fl live ∧ m.storage.lo = lo ∧ m.storage.hi = hi ∧
      (∀ p, (out p).isSome ↔ p ∈ live) ∧ ∀ p k, out p = some k → k ≤ blockSize
  | _, _, _ => False

/-- a pool has to be set up before -/
def Ok : MemInit → Prop
  | .heap m₀ base size => NmemUnused P base size m₀
  | .pool .. => True

end MemInit

section
variable {P : HeapPort} {junk base size n : ℕ} {m m' m₀ : Nmem} {out : ℕ → Option ℕ} {p r : ℕ}

theorem ofPtr_eq_none : ofPtr r = none ↔ r = 0 := by
  unfold ofPtr
  split
  · exact iff_of_true rfl ‹_›
  · exact iff_of_false (fun h => by cases h) ‹_›

theorem ofPtr_eq_some : ofPtr r = some p ↔ r ≠ 0 ∧ r = p := by
  unfold ofPtr
  split
  · exact iff_of_false (fun h => by cases h) (fun h => h.1 ‹_›)
  · rw [Option.some.injEq]
    exact ⟨fun h => ⟨‹_›, h⟩, And.right⟩

/-! ## heaps -/

theorem payloads_eq_none : payloads P m out p = none ↔ out p = none := by
  unfold payloads
  exact Option.map_eq_none_iff

theorem HeapReach.allocI (h₀ : NmemUnused P base size m₀) (h : HeapReach P m₀ m out) (h1 : 1 ≤ n)
    (hn : roundUp n P.sizeofHeapPhy < 2147483648) (hrun : nmemAllocI P m n = .ok (r, m')) :
    (r = 0 → HeapReach P m₀ m' out) ∧
      (r ≠ 0 → out r = none ∧ HeapReach P m₀ m' (Function.update out r (some n))) := by
  have hl : LegalHeapOp P m out (.alloc n) := ⟨h1, hn⟩
  have hop : AdmittedHeapOp P m out (.alloc n) := ⟨h1, lt_of_roundUp_lt P hn⟩
  have hrun' : runHeapOp P m (.alloc n) = .ok (r, m') := hrun
  have hreach := HeapReach.call h hop hrun'
  rw [heapLiveAfter_alloc] at hreach
  constructor
  · intro hr
    rw [if_pos hr] at hreach
    exact hreach
  · intro hr
    rw [if_neg hr] at hreach
    exact ⟨payloads_eq_none.mp (((h.state h₀).1.step_payloads hl hrun').fresh hr), hreach⟩

theorem HeapReach.freeI (h₀ : NmemUnused P base size m₀) (h : HeapReach P m₀ m out)
    (hp : (out p).isSome) :
    ∃ m', nmemFreeI P m p = .ok m' ∧ HeapReach P m₀ m' (Function.update out p none) := by
  have hl : LegalHeapOp P m out (.free p) := hp
  obtain ⟨hfault, _⟩ := (h.state h₀).1.step hl
  cases hrun : runHeapOp P m (.free p) with
  | error f =>
    obtain ⟨_, _, size, hop, _⟩ := hfault f hrun
    cases hop
  | ok x =>
    have hop : AdmittedHeapOp P m out (.free p) := hp
    obtain ⟨m', hfree, _⟩ := bind_eq_ok.mp hrun
    refine ⟨m', hfree, ?_⟩
    have hrun' : runHeapOp P m (.free p) = .ok (0, m') := by
      show (nmemFreeI P m p >>= fun m => pure (0, m)) = _
      rw [hfree]
      rfl
    exact HeapReach.call h hop hrun'

theorem HeapReach.write (h₀ : NmemUnused P base size m₀) (h : HeapReach P m₀ m out)
    (hp : out p = some n) {offset : ℕ} (ho : offset < n) (byte : BitVec 8) :
    HeapReach P m₀ (writeByte m (p + offset) byte) out := by
  have hroom := (h.state h₀).1.payload_le hp
  have hop : AdmittedHeapOp P m out (.write p offset byte) := ⟨by rw [hp]; rfl, by omega⟩
  exact HeapReach.call h hop rfl

theorem HeapReach.inside (h₀ : NmemUnused P base size m₀) (h : HeapReach P m₀ m out)
    (hp : (out p).isSome) : base ≤ p ∧ p < base + size := by
  obtain ⟨hstate, hfix⟩ := h.state h₀
  obtain ⟨k, hk⟩ := Option.isSome_iff_exists.mp hp
  rcases hstate with ⟨_, rfl⟩ | ⟨bs, fl, hok, hlive⟩
  · cases hk
  · obtain ⟨b, k', rfl, hb, _⟩ := hlive.block p k hk
    obtain ⟨hbm, hsize, hpos⟩ := used_eq_some.mp hb
    have hbd := hok.block_le hbm
    have hend := (hfix hok.vfAlloc).1
    omega

theorem HeapReach.keeps (h₀ : NmemUnused P base size m₀) :
    (MemObj.allocator P junk).Keeps ((MemInit.heap m₀ base size).asks P)
      (MemInit.own (.heap m₀ base size)) (MemInit.Rep P (.heap m₀ base size)) := by
  constructor
  · intro s out n f hrep hn hrun
    cases s with
    | pool m => cases hrep
    | heap m =>
      have hl : LegalHeapOp P m out (.alloc n) := hn
      rcases bind_eq_error.mp hrun with hrun | ⟨x, _, hrun⟩
      · exact (((HeapReach.state h₀ hrep).1.step hl).1 f hrun).1
      · cases hrun
  · intro s out n s' hrep hn hrun
    cases s with
    | pool m => cases hrep
    | heap m =>
      obtain ⟨⟨r, m'⟩, halloc, hres⟩ := bind_eq_ok.mp hrun
      obtain ⟨hr, rfl⟩ := Prod.mk.inj (Except.ok.inj hres)
      exact (HeapReach.allocI h₀ hrep hn.1 hn.2 halloc).1 (ofPtr_eq_none.mp hr)
  · intro s out n a s' hrep hn hrun
    cases s with
    | pool m => cases hrep
    | heap m =>
      obtain ⟨⟨r, m'⟩, halloc, hres⟩ := bind_eq_ok.mp hrun
      obtain ⟨hr, rfl⟩ := Prod.mk.inj (Except.ok.inj hres)
      obtain ⟨hne, rfl⟩ := ofPtr_eq_some.mp hr
      exact (HeapReach.allocI h₀ hrep hn.1 hn.2 halloc).2 hne
  · intro s out a hrep ha
    cases s with
    | pool m => cases hrep
    | heap m =>
      obtain ⟨m', hrun, hreach⟩ := HeapReach.freeI h₀ hrep ha
      refine ⟨.heap m', ?_, hreach⟩
      show (nmemFreeI P m a >>= fun m => pure (MemObj.heap m)) = _
      rw [hrun]
      rfl
  · intro s out a n i x hrep ha hi
    cases s with
    | pool m => cases hrep
    | heap m => exact HeapReach.write h₀ hrep ha hi x
  · intro s out a hrep ha
    cases s with
    | pool m => cases hrep
    | heap m => exact HeapReach.inside h₀ hrep ha

theorem HeapReach.reads (h₀ : NmemUnused P base size m₀) :
    (MemObj.allocator P junk).Reads ((MemInit.heap m₀ base size).asks P)
      (MemInit.Rep P (.heap m₀ base size)) MemObj.readByte := by
  constructor
  · intro s out n r s' a k i hrep hn hrun ha hi
    cases s with
    | pool m => cases hrep
    | heap m =>
      obtain ⟨⟨r', m'⟩, halloc, hres⟩ := bind_eq_ok.mp hrun
      obtain ⟨_, rfl⟩ := Prod.mk.inj (Except.ok.inj hres)
      have hl : LegalHeapOp P m out (.alloc n) := hn
      have hop : runHeapOp P m (.alloc n) = .ok (r', m') := halloc
      exact (HeapReach.state h₀ hrep).1.step_byte hl hop trivial ha hi
  · intro s out b s' a k i hrep hb hrun ha hi hab
    cases s with
    | pool m => cases hrep
    | heap m =>
      obtain ⟨m', hfree, hres⟩ := bind_eq_ok.mp hrun
      obtain rfl := Except.ok.inj hres
      have hl : LegalHeapOp P m out (.free b) := hb
      have hop : runHeapOp P m (.free b) = .ok (0, m') := by
        show (nmemFreeI P m b >>= fun m => pure (0, m)) = _
        rw [hfree]
        rfl
      exact (HeapReach.state h₀ hrep).1.step_byte hl hop (Ne.symm hab) ha hi
  · intro s out b n j x a k i hrep hb hj ha hi hne
    cases s with
    | pool m => cases hrep
    | heap m =>
      have hstate := (HeapReach.state h₀ hrep).1
      have hroom := hstate.payload_le hb
      have hl : LegalHeapOp P m out (.write b j x) := ⟨by rw [hb]; rfl, by omega⟩
      exact hstate.step_byte hl rfl (hne.imp Ne.symm Ne.symm) ha hi
  · intro s a i x
    cases s with
    | heap m => exact Function.update_self ..
    | pool m => exact Function.update_self ..

end

/-! ## pools -/

section
variable {P : HeapPort} {junk n blockSize lo hi : ℕ} {m m' : PoolMem} {out : ℕ → Option ℕ} {p r k : ℕ}

namespace PoolRep

theorem allocI {fl live : List ℕ} (h : PoolRep P n blockSize m fl live)
    (hrun : poolNmemAllocI P junk m k = .ok (r, m')) :
    ∃ fl', PoolRep P n blockSize m' fl' (if r = 0 then live else r :: live) ∧
      m'.storage = m.storage := by
  have hop : poolAlloc P m = .ok (r, m') := by
    rw [← hrun]
    unfold poolNmemAllocI
    rw [h.vfAlloc]
  obtain ⟨r₁, m₁, fl', hok, _, h'⟩ := h.alloc
  obtain ⟨rfl, rfl⟩ := Prod.mk.inj (Except.ok.inj (hop.symm.trans hok))
  exact ⟨fl', h', poolAlloc_storage hop⟩

theorem freeI {fl live : List ℕ} (h : PoolRep P n blockSize m fl live) (hp : p ∈ live) :
    ∃ m', poolNmemFreeI P m p = .ok m' ∧ PoolRep P n blockSize m' (p :: fl) (live.erase p) ∧
      m'.storage.lo = m.storage.lo ∧ m'.storage.hi = m.storage.hi := by
  obtain ⟨m', hok, h'⟩ := h.free hp
  refine ⟨m', (if_pos h.vfFree).trans hok, h', ?_⟩
  obtain ⟨st, hstore, hres⟩ := bind_eq_ok.mp hok
  obtain ⟨_, rfl⟩ := Storage.store_eq_ok hstore
  rw [← Except.ok.inj hres]
  exact ⟨rfl, rfl⟩

theorem keeps (P : HeapPort) (junk n blockSize lo hi : ℕ) :
    (MemObj.allocator P junk).Keeps ((MemInit.pool n blockSize lo hi).asks P)
      (MemInit.own (.pool n blockSize lo hi)) (MemInit.Rep P (.pool n blockSize lo hi)) := by
  constructor
  · intro s out k f hrep hk hrun
    cases s with
    | heap m => cases hrep
    | pool m =>
      obtain ⟨fl, live, h, _⟩ := hrep
      obtain ⟨r, m', fl', hok, _⟩ := h.alloc
      rcases bind_eq_error.mp hrun with hrun | ⟨x, _, hrun⟩
      · unfold poolNmemAllocI at hrun
        rw [h.vfAlloc] at hrun
        cases hrun.symm.trans hok
      · cases hrun
  · intro s out k s' hrep hk hrun
    cases s with
    | heap m => cases hrep
    | pool m =>
      obtain ⟨fl, live, h, hlo, hhi, hlive, hsize⟩ := hrep
      obtain ⟨⟨r, m'⟩, halloc, hres⟩ := bind_eq_ok.mp hrun
      obtain ⟨hr, rfl⟩ := Prod.mk.inj (Except.ok.inj hres)
      obtain ⟨fl', h', hst⟩ := h.allocI halloc
      rw [if_pos (ofPtr_eq_none.mp hr)] at h'
      exact ⟨fl', live, h', by rw [hst]; exact hlo, by rw [hst]; exact hhi, hlive, hsize⟩
  · intro s out k a s' hrep hk hrun
    cases s with
    | heap m => cases hrep
    | pool m =>
      obtain ⟨fl, live, h, hlo, hhi, hlive, hsize⟩ := hrep
      obtain ⟨⟨r, m'⟩, halloc, hres⟩ := bind_eq_ok.mp hrun
      obtain ⟨hr, rfl⟩ := Prod.mk.inj (Except.ok.inj hres)
      obtain ⟨hne, rfl⟩ := ofPtr_eq_some.mp hr
      obtain ⟨fl', h', hst⟩ := h.allocI halloc
      rw [if_neg hne] at h'
      have hfresh : r ∉ live := (List.nodup_cons.mp h'.live_nodup).1
      refine ⟨?_, fl', r :: live, h', by rw [hst]; exact hlo, by rw [hst]; exact hhi, fun p => ?_,
        fun p k' hp => ?_⟩
      · exact Option.not_isSome_iff_eq_none.mp fun hsome => hfresh ((hlive r).mp hsome)
      · by_cases hpr : p = r
        · rw [hpr, Function.update_self]
          exact iff_of_true rfl List.mem_cons_self
        · rw [Function.update_of_ne hpr, List.mem_cons, or_iff_right hpr]
          exact hlive p
      · by_cases hpr : p = r
        · rw [hpr, Function.update_self] at hp
          rw [← Option.some.inj hp]
          exact hk
        · rw [Function.update_of_ne hpr] at hp
          exact hsize p k' hp
  · intro s out a hrep ha
    cases s with
    | heap m => cases hrep
    | pool m =>
      obtain ⟨fl, live, h, hlo, hhi, hlive, hsize⟩ := hrep
      obtain ⟨m', hrun, h', hlo', hhi'⟩ := h.freeI ((hlive a).mp ha)
      refine ⟨.pool m', ?_, _, _, h', hlo'.trans hlo, hhi'.trans hhi, fun p => ?_, fun p k' hp => ?_⟩
      · show (poolNmemFreeI P m a >>= fun m => pure (MemObj.pool m)) = _
        rw [hrun]
        rfl
      · by_cases hpa : p = a
        · rw [hpa, Function.update_self]
          exact iff_of_false Bool.false_ne_true h.live_nodup.not_mem_erase
        · rw [Function.update_of_ne hpa, List.mem_erase_of_ne hpa]
          exact hlive p
      · by_cases hpa : p = a
        · rw [hpa, Function.update_self] at hp
          cases hp
        · rw [Function.update_of_ne hpa] at hp
          exact hsize p k' hp
  · intro s out a k i x hrep ha hi
    cases s with
    | heap m => cases hrep
    | pool m =>
      obtain ⟨fl, live, h, hlo, hhi, hlive, hsize⟩ := hrep
      have hlt := hsize a k ha
      have hmem := (hlive a).mp (by rw [ha]; rfl)
      exact ⟨fl, live, h.write hmem (by omega) x, hlo, hhi, hlive, hsize⟩
  · intro s out a hrep ha
    cases s with
    | heap m => cases hrep
    | pool m =>
      obtain ⟨fl, live, h, rfl, rfl, hlive, _⟩ := hrep
      obtain ⟨_, hlo, hhi⟩ := h.inside a (List.mem_append_right fl ((hlive a).mp ha))
      have hw := PoolRep.ptr_le_width P blockSize
      have hpos := P.ptr_pos
      exact ⟨hlo, by omega⟩

theorem reads (P : HeapPort) (junk n blockSize lo hi : ℕ) :
    (MemObj.allocator P junk).Reads ((MemInit.pool n blockSize lo hi).asks P)
      (MemInit.Rep P (.pool n blockSize lo hi)) MemObj.readByte := by
  constructor
  · intro s out k r s' a k' i hrep _ hrun _ _
    cases s with
    | heap m => cases hrep
    | pool m =>
      obtain ⟨fl, live, h, _⟩ := hrep
      obtain ⟨⟨r', m'⟩, halloc, hres⟩ := bind_eq_ok.mp hrun
      obtain ⟨_, rfl⟩ := Prod.mk.inj (Except.ok.inj hres)
      obtain ⟨fl', _, hst⟩ := h.allocI halloc
      show m'.storage.byte (a + i) = m.storage.byte (a + i)
      rw [hst]
  · intro s out b s' a k i hrep hb hrun ha hi hab
    cases s with
    | heap m => cases hrep
    | pool m =>
      obtain ⟨fl, live, h, _, _, hlive, hsize⟩ := hrep
      obtain ⟨m', hfree, hres⟩ := bind_eq_ok.mp hrun
      obtain rfl := Except.ok.inj hres
      have hfree' : poolFree P m b = .ok m' := by
        rw [← hfree]
        exact (if_pos h.vfFree).symm
      exact h.free_byte ((hlive b).mp hb) hfree' ((hlive a).mp (by rw [ha]; rfl)) hab
        (Nat.lt_of_lt_of_le hi (hsize a k ha))
  · intro s out b n j x a k i hrep hb hj ha hi hne
    cases s with
    | heap m => cases hrep
    | pool m =>
      obtain ⟨fl, live, h, _, _, hlive, hsize⟩ := hrep
      exact h.write_byte ((hlive b).mp (by rw [hb]; rfl)) (Nat.lt_of_lt_of_le hj (hsize b n hb)) x
        ((hlive a).mp (by rw [ha]; rfl)) (Nat.lt_of_lt_of_le hi (hsize a k ha)) hne
  · intro s a i x
    cases s with
    | heap m => exact Function.update_self ..
    | pool m => exact Function.update_self ..

end PoolRep

end

/-- **Heaps and pools are allocators.** -/
theorem MemInit.keeps (P : HeapPort) (junk : ℕ) {i : MemInit} (h : i.Ok P) :
    (MemObj.allocator P junk).Keeps (i.asks P) i.own (i.Rep P) := by
  cases i with
  | heap m₀ base size => exact HeapReach.keeps h
  | pool n blockSize lo hi => exact PoolRep.keeps P junk n blockSize lo hi

/-- **What is written into a block stays there**, whatever becomes of the others. -/
theorem MemInit.reads (P : HeapPort) (junk : ℕ) {i : MemInit} (h : i.Ok P) :
    (MemObj.allocator P junk).Reads (i.asks P) (i.Rep P) MemObj.readByte := by
  cases i with
  | heap m₀ base size => exact HeapReach.reads h
  | pool n blockSize lo hi => exact PoolRep.reads P junk n blockSize lo hi

end NeonEds
