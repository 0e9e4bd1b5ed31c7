import NeonEds.Mm.HeapOrder
import NeonEds.Mm.PoolRuns
import NeonEds.Mm.Static

/-!
# The free bytes of a memory object

`nmem_get_free` in every state that is reached by calls that return, after the first request.

* the heap: the field is set when the heap is set up and never again, so it is exact only while no payload
  is live (`HeapReach.getFree_iff`);
* the pool: the field begins with 0 and `pool_alloc` subtracts, so it is never exact (`PoolReach.getFree`);
* the static memory: exact as long as no request was rounded to nothing (`StaticReach.getFree_iff`).
-/

namespace NeonEds
open Exec

def nmemGetFree (memObj : Nmem) : ℕ := memObj.free

def poolNmemGetFree (memObj : PoolMem) : ℕ := memObj.free

def staticNmemGetFree (memObj : StaticMem) : ℕ := memObj.free

/-! ## the heap -/

section
variable {P : HeapPort} {base size : ℕ} {m m₀ : Nmem} {bs fl : List ℕ} {live : ℕ → Option ℕ}

theorem HeapOk.none_of_freeBytes (h : HeapOk P base m bs fl)
    (hsum : base + heapFreeBytes P m + P.sizeofHeapPhy = m.base) :
    used bs (blocksOf P m.storage) = fun _ => none := by
  have hadd := h.freeBytes_add
  funext b
  rw [used_eq_none]
  by_contra hb
  push Not at hb
  obtain ⟨hbs, hneg⟩ := hb
  have hleast := (h.block_le hbs).2.2
  have hpos := P.sizeofHeapPhy_pos
  obtain ⟨l₁, l₂, rfl⟩ := List.append_of_mem hbs
  rw [List.map_append, List.map_cons, List.sum_append, List.sum_cons] at hadd
  omega

theorem LiveOk.none_iff (h : LiveOk P bs (blocksOf P m.storage) live) :
    used bs (blocksOf P m.storage) = (fun _ => Option.none) ↔ ∀ p, live p = Option.none := by
  constructor
  · intro hnone p
    cases hp : live p with
    | none => rfl
    | some n =>
      obtain ⟨b, k, _, hb, _⟩ := h.block p n hp
      rw [hnone] at hb
      cases hb
  · intro hall
    funext b
    cases hb : used bs (blocksOf P m.storage) b with
    | none => rfl
    | some k =>
      obtain ⟨n, hn⟩ := h.live b k hb
      rw [hall] at hn
      cases hn

/-- **The heap**: exact only while nothing is live. -/
theorem HeapReach.getFree_iff (h₀ : NmemUnused P base size m₀) (h : HeapReach P m₀ m live)
    (hv : m.vfAlloc = .heapAlloc) :
    nmemGetFree m = heapFreeBytes P m ↔ ∀ p, live p = none := by
  obtain ⟨bs, fl, hok, hlive, hbase, hfree⟩ := h.ok h₀ hv
  have hgt := h₀.size_gt
  have hblk := P.sizeofHeapBlock_eq
  rw [← hlive.none_iff]
  constructor
  · intro hexact
    refine hok.none_of_freeBytes ?_
    unfold nmemGetFree at hexact
    omega
  · intro hnone
    have hlayout := hok.layout_free h₀ hnone hbase
    unfold nmemGetFree heapFreeBytes
    rw [hlayout, List.map_singleton, List.sum_singleton]
    dsimp only
    omega

end

/-! ## the pool -/

section
variable {P : HeapPort}

inductive PoolReach (b : PoolBundle P) (junk : ℕ) : PoolMem → List ℕ → Prop where
  | start : PoolReach b junk b.init []
  | call {m m' : PoolMem} {live : List ℕ} {op : PoolOp} {r : ℕ} : PoolReach b junk m live →
      LegalPoolOp b.blockSize live op → runPoolOp P junk m op = .ok (r, m') →
      PoolReach b junk m' (poolLiveAfter live op r)

/-- the free bytes of a pool with blocks of the size `k` -/
def PoolFreeExact (P : HeapPort) (k : ℕ) (m : PoolMem) : Prop :=
  ∃ fl, Chain m.storage.byte P.ptr m.base fl ∧ poolNmemGetFree m = k * fl.length

/-- a pool that was set up has one block, which is out or free -/
structure PoolOne (b : PoolBundle P) (m : PoolMem) (live : List ℕ) : Prop where
  vfAlloc : m.vfAlloc = .poolAlloc
  size_eq : m.size = b.size
  noBlocks : m.noBlocks = 1
  size_pos : 0 < b.size
  block : (live = [b.base] ∧ m.base = 0 ∧ m.free = 2 ^ (8 * P.ptr) - b.size) ∨
    (live = [] ∧ m.base = b.base ∧ loadBytes m.storage.byte b.base P.ptr = 0 ∧ m.free = 0)

namespace PoolOne
variable {b : PoolBundle P} {junk : ℕ} {m m' : PoolMem} {live : List ℕ} {r : ℕ}

theorem size_lt (b : PoolBundle P) : b.size < 2 ^ (8 * P.ptr) := by
  have hpos := b.base_pos
  have hle : b.base + b.size ≤ 2 ^ (8 * P.ptr) := b.base_le
  omega

/-- what `pool_alloc` makes of a field that is zero -/
theorem below_zero (b : PoolBundle P) (hpos : 0 < b.size) :
    P.ptrAdd 0 (-(b.size : ℤ)) = 2 ^ (8 * P.ptr) - b.size := by
  have hlt := size_lt b
  have hmod : ((0 : ℕ) + -(b.size : ℤ)) % 2 ^ (8 * P.ptr)
      = ((2 ^ (8 * P.ptr) - b.size : ℕ) : ℤ) := by
    rw [← Int.add_emod_right, show ((0 : ℕ) + -(b.size : ℤ)) + 2 ^ (8 * P.ptr)
      = ((2 ^ (8 * P.ptr) - b.size : ℕ) : ℤ) by push_cast [le_of_lt hlt]; omega]
    exact Int.emod_eq_of_lt (Int.natCast_nonneg _) (by push_cast [le_of_lt hlt]; omega)
  unfold HeapPort.ptrAdd HeapPort.sizeT
  rw [hmod]
  exact Int.toNat_natCast _

theorem setUp (hcount : linkCount b = 0) (hlo : b.base ≤ junk) (hhi : junk + P.ptr ≤ b.base + b.size) :
    PoolOne b (setUp b) [] := by
  have hp := P.ptr_pos
  refine ⟨rfl, rfl, ?_, by omega, Or.inr ⟨rfl, rfl, loadBytes_zero _ _, rfl⟩⟩
  show b.nOfBlocks % 2 ^ 32 = 1
  unfold linkCount at hcount
  omega

theorem alloc (h : PoolOne b m live) (hrun : poolAlloc P m = .ok (r, m')) :
    PoolOne b m' (if r = 0 then live else r :: live) := by
  unfold poolAlloc at hrun
  dsimp only at hrun
  rcases h.block with ⟨hlive, hbase, hfree⟩ | ⟨rfl, hbase, hnext, hfree⟩
  · rw [if_neg (fun hc => hc hbase)] at hrun
    obtain ⟨rfl, rfl⟩ := Prod.mk.inj (Except.ok.inj hrun)
    rw [if_pos hbase]
    exact h
  · have hpos := b.base_pos
    rw [hbase, if_pos (Nat.ne_of_gt hpos)] at hrun
    obtain ⟨next, hload, hrun⟩ := bind_eq_ok.mp hrun
    obtain ⟨rfl, rfl⟩ := Prod.mk.inj (Except.ok.inj hrun)
    obtain rfl := (Storage.load_eq_ok hload).2
    rw [if_neg (Nat.ne_of_gt hpos)]
    refine ⟨h.vfAlloc, h.size_eq, h.noBlocks, h.size_pos, Or.inl ⟨rfl, hnext, ?_⟩⟩
    show P.ptrAdd m.free (-(m.size / m.noBlocks : ℕ)) = _
    rw [hfree, h.size_eq, h.noBlocks, Nat.div_one]
    exact below_zero b h.size_pos

theorem free (h : PoolOne b m live) {mem : ℕ} (hmem : mem ∈ live)
    (hrun : poolFree P m mem = .ok m') : PoolOne b m' (live.erase mem) := by
  rcases h.block with ⟨rfl, hbase, hfree⟩ | ⟨rfl, _⟩
  · obtain rfl := List.mem_singleton.mp hmem
    obtain ⟨st, hstore, hrun⟩ := bind_eq_ok.mp hrun
    obtain rfl := Except.ok.inj hrun
    obtain rfl := (Storage.store_eq_ok hstore).2
    refine ⟨h.vfAlloc, h.size_eq, h.noBlocks, h.size_pos, Or.inr ⟨List.erase_cons_head .., rfl, ?_, ?_⟩⟩
    · show loadBytes (storeBytes m.storage.byte b.base P.ptr m.base) b.base P.ptr = 0
      rw [loadBytes_storeBytes, hbase, Nat.zero_mod]
    · show P.ptrAdd m.free (m.size / m.noBlocks : ℕ) = 0
      rw [hfree, h.size_eq, h.noBlocks, Nat.div_one]
      have hlt := size_lt b
      refine (sizeT_natCast P (2 ^ (8 * P.ptr) - b.size + b.size)).trans ?_
      rw [Nat.sub_add_cancel (le_of_lt hlt), Nat.mod_self]
  · cases hmem

theorem write (h : PoolOne b m live) {mem : ℕ} (hmem : mem ∈ live) (offset : ℕ) (byte : BitVec 8) :
    PoolOne b (poolWriteByte m (mem + offset) byte) live := by
  rcases h.block with hout | ⟨rfl, _⟩
  · exact ⟨h.vfAlloc, h.size_eq, h.noBlocks, h.size_pos, Or.inl hout⟩
  · cases hmem

/-- **The pool**: never exact. -/
theorem not_exact (h : PoolOne b m live) {k : ℕ} (hk : 0 < k) : ¬ PoolFreeExact P k m := by
  intro ⟨fl, hchain, hfree⟩
  have hlt := size_lt b
  have hpos := h.size_pos
  unfold poolNmemGetFree at hfree
  rcases h.block with ⟨_, hbase, hwrap⟩ | ⟨_, hbase, _, hzero⟩
  · -- nothing is free, but the field has gone round
    cases fl with
    | nil =>
      rw [List.length_nil, Nat.mul_zero] at hfree
      omega
    | cons c fl =>
      rw [hbase] at hchain
      exact hchain.2.1 hchain.1.symm
  · -- the block is free, but the field is zero
    cases fl with
    | nil =>
      have hnull : m.base = 0 := hchain
      have hbpos := b.base_pos
      omega
    | cons c fl =>
      rw [hzero, List.length_cons] at hfree
      exact absurd hfree.symm (Nat.ne_of_gt (Nat.mul_pos hk (Nat.succ_pos _)))

end PoolOne

theorem PoolReach.one {b : PoolBundle P} {junk : ℕ} {m : PoolMem} {live : List ℕ}
    (h : PoolReach b junk m live) : (m = b.init ∧ live = []) ∨ PoolOne b m live := by
  induction h with
  | start => exact Or.inl ⟨rfl, rfl⟩
  | @call m m' live op r _ hop hrun ih =>
    right
    rcases ih with ⟨rfl, rfl⟩ | h
    · -- the first call is a request, which sets up the pool
      cases op with
      | alloc size =>
        have halloc : poolInitAlloc P junk b.init = .ok (r, m') := hrun
        obtain ⟨hcount, hlo, hhi, halloc⟩ := poolInitAlloc_ok b halloc
        exact (PoolOne.setUp hcount hlo hhi).alloc halloc
      | free mem => cases hop
      | write mem offset byte => cases hop.1
    · cases op with
      | alloc size =>
        have halloc : poolNmemAllocI P junk m size = .ok (r, m') := hrun
        unfold poolNmemAllocI at halloc
        rw [h.vfAlloc] at halloc
        exact h.alloc halloc
      | free mem =>
        obtain ⟨m₁, hfree, hrun⟩ := bind_eq_ok.mp hrun
        obtain ⟨_, rfl⟩ := Prod.mk.inj (Except.ok.inj hrun)
        unfold poolNmemFreeI at hfree
        split at hfree
        · exact h.free hop hfree
        · cases hfree
      | write mem offset byte =>
        obtain ⟨_, rfl⟩ := Prod.mk.inj (Except.ok.inj hrun)
        exact h.write hop.1 offset byte

/-- **The pool**: never exact, whatever its blocks are taken to be. -/
theorem PoolReach.getFree {b : PoolBundle P} {junk k : ℕ} {m : PoolMem} {live : List ℕ}
    (h : PoolReach b junk m live) (hv : m.vfAlloc = .poolAlloc) (hk : 0 < k) :
    ¬ PoolFreeExact P k m := by
  rcases h.one with ⟨rfl, _⟩ | hone
  · cases hv
  · exact hone.not_exact hk

end

/-! ## the static memory -/

section
variable {P : CpuPort} {apiValidation : Bool}

inductive StaticReach (apiValidation : Bool) (b : StaticBundle P) :
    StaticMem → List (ℕ × ℕ) → Prop where
  | start : StaticReach apiValidation b b.init []
  | call {m m' : StaticMem} {blocks : List (ℕ × ℕ)} {n r : ℕ} : StaticReach apiValidation b m blocks →
      StaticRequest P n → staticNmemAllocI P apiValidation m n = .ok (r, m') →
      StaticReach apiValidation b m' (if r = 0 then blocks else (r, n) :: blocks)

/-- the bytes of some blocks -/
def staticBytes (P : CpuPort) (blocks : List (ℕ × ℕ)) : ℕ :=
  (blocks.map fun x => roundUp x.2 P.dataAlignment).sum

/-- what `static_alloc` has taken for them -/
def staticTaken (P : CpuPort) (blocks : List (ℕ × ℕ)) : ℕ := (blocks.map fun x => P.alignUp x.2).sum

theorem staticTaken_eq_iff {blocks : List (ℕ × ℕ)} (h : ∀ x ∈ blocks, StaticRequest P x.2) :
    staticTaken P blocks ≤ staticBytes P blocks ∧ (staticTaken P blocks = staticBytes P blocks ↔
      ∀ x ∈ blocks, x.2 + P.dataAlignment - 1 < 2 ^ P.sizeBits) := by
  induction blocks with
  | nil => exact ⟨Nat.le_refl 0, iff_of_true rfl (List.forall_mem_nil _)⟩
  | cons x blocks ih =>
    obtain ⟨hx, hrest⟩ := List.forall_mem_cons.mp h
    obtain ⟨hle, hiff⟩ := ih hrest
    have hround := roundUp_ok hx.1 (StaticRep.alignment_pos P)
    have hx1 := hx.1
    unfold staticTaken staticBytes at hle hiff ⊢
    rw [List.forall_mem_cons, ← hiff, List.map_cons, List.map_cons, List.sum_cons, List.sum_cons]
    by_cases hfit : x.2 + P.dataAlignment - 1 < 2 ^ P.sizeBits
    · rw [alignUp_fits hx hfit]
      exact ⟨by omega, ⟨fun he => ⟨hfit, by omega⟩, fun he => by omega⟩⟩
    · rw [alignUp_wraps hx hfit]
      exact ⟨by omega, iff_of_false (by omega) (fun he => hfit he.1)⟩

theorem StaticReach.state {b : StaticBundle P} {m : StaticMem} {blocks : List (ℕ × ℕ)}
    (h : StaticReach apiValidation b m blocks) :
    (∀ x ∈ blocks, StaticRequest P x.2) ∧ ((m = b.init ∧ blocks = []) ∨
      StaticRep b m blocks ∧ m.free + staticTaken P blocks = b.size) := by
  induction h with
  | start => exact ⟨List.forall_mem_nil _, Or.inl ⟨rfl, rfl⟩⟩
  | @call m m' blocks n r _ hn hrun ih =>
    obtain ⟨hreq, hstate⟩ := ih
    -- the static memory that serves the request
    obtain ⟨m₁, hrep, hsum, halloc⟩ : ∃ m₁, StaticRep b m₁ blocks ∧
        m₁.free + staticTaken P blocks = b.size ∧ staticAlloc P apiValidation m₁ n = .ok (r, m') := by
      rcases hstate with ⟨rfl, rfl⟩ | ⟨hrep, hsum⟩
      · exact ⟨staticSetUp b.init, b.rep, rfl, (b.call n).symm.trans hrun⟩
      · exact ⟨m, hrep, hsum, hrep.call.symm.trans hrun⟩
    obtain ⟨hrep', hfree⟩ := hrep.alloc hn halloc
    refine ⟨?_, Or.inr ⟨hrep', ?_⟩⟩
    · split
      · exact hreq
      · exact List.forall_mem_cons.mpr ⟨hn, hreq⟩
    · unfold staticTaken at hsum ⊢
      split at hfree
      · rename_i hr
        rw [if_pos hr]
        omega
      · rename_i hr
        rw [if_neg hr, List.map_cons, List.sum_cons]
        show m'.free + (P.alignUp n + (blocks.map fun x => P.alignUp x.2).sum) = b.size
        omega

/-- **The static memory**: exact as long as no request was rounded to nothing. -/
theorem StaticReach.getFree_iff {b : StaticBundle P} {m : StaticMem} {blocks : List (ℕ × ℕ)}
    (h : StaticReach apiValidation b m blocks) (hv : m.vfAlloc = .staticAlloc) :
    staticNmemGetFree m + staticBytes P blocks = b.size ↔
      ∀ x ∈ blocks, x.2 + P.dataAlignment - 1 < 2 ^ P.sizeBits := by
  obtain ⟨hreq, ⟨rfl, _⟩ | ⟨_, hfree⟩⟩ := h.state
  · cases hv
  · obtain ⟨_, hiff⟩ := staticTaken_eq_iff hreq
    rw [← hiff]
    unfold staticNmemGetFree
    omega

end

/-- **When `nmem_get_free` is exact**, for each class of memory objects. -/
theorem getFree_exact_iff (P : HeapPort) (C : CpuPort) (apiValidation : Bool) :
    (∀ (base size : ℕ) (m₀ m : Nmem) (live : ℕ → Option ℕ), NmemUnused P base size m₀ →
      HeapReach P m₀ m live → m.vfAlloc = .heapAlloc →
      (nmemGetFree m = heapFreeBytes P m ↔ ∀ p, live p = none)) ∧
    (∀ (b : PoolBundle P) (junk : ℕ) (m : PoolMem) (live : List ℕ) (k : ℕ), PoolReach b junk m live →
      m.vfAlloc = .poolAlloc → 0 < k → ¬ PoolFreeExact P k m) ∧
    (∀ (b : StaticBundle C) (m : StaticMem) (blocks : List (ℕ × ℕ)),
      StaticReach apiValidation b m blocks → m.vfAlloc = .staticAlloc →
      (staticNmemGetFree m + staticBytes C blocks = b.size ↔
        ∀ x ∈ blocks, x.2 + C.dataAlignment - 1 < 2 ^ C.sizeBits)) :=
  ⟨fun _ _ _ _ _ h₀ h hv => h.getFree_iff h₀ hv, fun _ _ _ _ _ h hv hk => h.getFree hv hk,
    fun _ _ _ h hv => h.getFree_iff hv⟩

theorem heap200_getFree : (runHeapOp heapPort32 heap200 (.alloc 20)).toOption.map
    (fun x => (x.2.vfAlloc, nmemGetFree x.2, heapFreeBytes heapPort32 x.2))
      = some (.heapAlloc, 176, 144) := by decide +kernel

/-- one block of 16 bytes -/
def pool1x16 : PoolBundle heapPort32 :=
  { pool2x16 with
    nOfBlocks := 1
    nOfBlocks_pos := by decide
    base_le := by decide
    size_lt := by decide }

theorem pool1x16_getFree : (runPoolOp heapPort32 1000 pool1x16.init (.alloc 16)).toOption.map
    (fun x => (x.2.vfAlloc, poolNmemGetFree x.2)) = some (.poolAlloc, 2 ^ 32 - 16) := by decide +kernel

theorem getFree_exact_iff_blocks :
    (∃ m live, HeapReach heapPort32 heap200 m live ∧ m.vfAlloc = .heapAlloc ∧
      (nmemGetFree m = heapFreeBytes heapPort32 m ↔ ∀ p, live p = none)) ∧
    (∃ m live, PoolReach pool1x16 1000 m live ∧ m.vfAlloc = .poolAlloc ∧
      ¬ PoolFreeExact heapPort32 16 m) ∧
    (∃ m blocks, StaticReach true static16 m blocks ∧ m.vfAlloc = .staticAlloc ∧
      (staticNmemGetFree m + staticBytes .x8664Linux blocks = static16.size ↔
        ∀ x ∈ blocks, x.2 + CpuPort.x8664Linux.dataAlignment - 1
          < 2 ^ CpuPort.x8664Linux.sizeBits)) := by
  obtain ⟨⟨r, m⟩, hrun, hres⟩ := eq_ok_of_map heap200_getFree
  obtain ⟨⟨r', m'⟩, hrun', hres'⟩ := eq_ok_of_map pool1x16_getFree
  have hv : m.vfAlloc = .heapAlloc := (Prod.mk.inj hres).1
  have hv' : m'.vfAlloc = .poolAlloc := (Prod.mk.inj hres').1
  have hop : AdmittedHeapOp heapPort32 heap200 (fun _ => none) (.alloc 20) := ⟨by decide, by decide⟩
  have hop' : LegalPoolOp pool1x16.blockSize [] (.alloc 16) := trivial
  have hreach := HeapReach.start.call hop hrun
  have hreach' := PoolReach.start.call hop' hrun'
  have hrequest : StaticRequest .x8664Linux 8 := ⟨by decide, by decide, by decide⟩
  have hreach'' : StaticReach true static16 { staticSetUp static16.init with free := 8 } [(4104, 8)] :=
    StaticReach.start.call (r := 4104) hrequest rfl
  obtain ⟨hheap, hpool, hstatic⟩ := getFree_exact_iff heapPort32 .x8664Linux true
  exact ⟨⟨m, _, hreach, hv, hheap _ _ _ _ _ heap200_unused hreach hv⟩,
    ⟨m', _, hreach', hv', hpool _ _ _ _ _ hreach' hv' (by decide)⟩,
    ⟨_, _, hreach'', rfl, hstatic _ _ _ hreach'' rfl⟩⟩

/-- 24 bytes and a header are taken, the field stays -/
theorem heap200_not_exact : ∃ m live, HeapReach heapPort32 heap200 m live ∧ m.vfAlloc = .heapAlloc ∧
    nmemGetFree m = 176 ∧ heapFreeBytes heapPort32 m = 144 := by
  obtain ⟨⟨r, m⟩, hrun, hres⟩ := eq_ok_of_map heap200_getFree
  obtain ⟨hv, hres⟩ := Prod.mk.inj hres
  obtain ⟨hfree, hbytes⟩ := Prod.mk.inj hres
  have hop : AdmittedHeapOp heapPort32 heap200 (fun _ => none) (.alloc 20) := ⟨by decide, by decide⟩
  exact ⟨m, _, HeapReach.start.call hop hrun, hv, hfree, hbytes⟩

end NeonEds
