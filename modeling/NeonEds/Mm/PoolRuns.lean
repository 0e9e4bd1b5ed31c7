import NeonEds.Mm.HeapCalls
import NeonEds.Mm.Pool

/-!
# Runs of a pool

A run is a list of requests, releases and writes of the users into their blocks, from a pool as
`NPOOL_BUNDLE_DEFINE` makes it.  `live` are the blocks that are out.

* `PoolSafe`     the live blocks lie in the storage, apart from each other and from the links;
* `PoolRep`      the free blocks `fl` are chained, the free and the live blocks are `n`;
* `PoolRep.alloc`, `PoolRep.free`, `PoolRep.write`   the calls keep it, so a pool that was set up is sound;
* `poolSound_iff`   `pool_init_alloc` sets up a pool of one block, and this only where its variable
                 `block` happens to point into the storage.
-/

namespace NeonEds
open Exec

inductive PoolOp where
  | alloc (size : ℕ)
  | free (mem : ℕ)
  /-- the user of the block `mem` writes a byte of it -/
  | write (mem offset : ℕ) (byte : BitVec 8)

def poolWriteByte (m : PoolMem) (a : ℕ) (byte : BitVec 8) : PoolMem :=
  { m with storage := { m.storage with byte := Function.update m.storage.byte a byte } }

section
variable (P : HeapPort)

/-- the pointer that a request gets, and the memory object after the call -/
def runPoolOp (junk : ℕ) (m : PoolMem) : PoolOp → Exec (ℕ × PoolMem)
  | .alloc size => poolNmemAllocI P junk m size
  | .free mem => do
    let m ← poolNmemFreeI P m mem
    return (0, m)
  | .write mem offset byte => .ok (0, poolWriteByte m (mem + offset) byte)

def poolLiveAfter (live : List ℕ) : PoolOp → ℕ → List ℕ
  | .alloc _, r => if r = 0 then live else r :: live
  | .free mem, _ => live.erase mem
  | .write .., _ => live

/-- only live blocks are given back and written -/
def LegalPoolOp (blockSize : ℕ) (live : List ℕ) : PoolOp → Prop
  | .alloc _ => True
  | .free mem => mem ∈ live
  | .write mem offset _ => mem ∈ live ∧ offset < blockSize

/-- what holds of a pool of `n` blocks between the calls -/
structure PoolSafe (n blockSize : ℕ) (m : PoolMem) (live : List ℕ) : Prop where
  count : live.length ≤ n
  inside : ∀ b ∈ live, m.storage.lo ≤ b ∧ b + blockSize ≤ m.storage.hi
  apart : live.Pairwise (fun a b => a + blockSize ≤ b ∨ b + blockSize ≤ a)
  links : ∀ f, Linked m.storage.byte P.ptr m.base f → ∀ b ∈ live,
    f + P.ptr ≤ b ∨ b + blockSize ≤ f

/-- a request is refused exactly when `n` blocks are live -/
def PoolRunSound (n blockSize junk : ℕ) : PoolMem → List ℕ → List PoolOp → Prop
  | m, live, [] => PoolSafe P n blockSize m live
  | m, live, op :: ops => PoolSafe P n blockSize m live ∧
      (LegalPoolOp blockSize live op → ∃ r m', runPoolOp P junk m op = .ok (r, m') ∧
        (∀ size, op = .alloc size → (r = 0 ↔ live.length = n)) ∧
        PoolRunSound n blockSize junk m' (poolLiveAfter live op r) ops)

end

/-- every run of the pool is sound -/
def PoolSound {P : HeapPort} (b : PoolBundle P) (junk : ℕ) : Prop :=
  ∀ ops, PoolRunSound P b.nOfBlocks b.blockSize junk b.init [] ops

/-! ## a pool that is set up -/

/-- the bytes of a block that its user or the pool writes -/
def blockWidth (P : HeapPort) (blockSize : ℕ) : ℕ := max P.ptr blockSize

structure PoolRep (P : HeapPort) (n blockSize : ℕ) (m : PoolMem) (fl live : List ℕ) : Prop where
  vfAlloc : m.vfAlloc = .poolAlloc
  vfFree : m.vfFree = true
  chain : Chain m.storage.byte P.ptr m.base fl
  count : fl.length + live.length = n
  inside : ∀ b ∈ fl ++ live, b ≠ 0 ∧ m.storage.lo ≤ b ∧
    b + blockWidth P blockSize ≤ m.storage.hi
  apart : (fl ++ live).Pairwise
    (fun a b => a + blockWidth P blockSize ≤ b ∨ b + blockWidth P blockSize ≤ a)
  hi_le : m.storage.hi ≤ 256 ^ P.ptr

namespace PoolRep
variable {P : HeapPort} {n blockSize junk : ℕ} {m : PoolMem} {fl live : List ℕ}

theorem ptr_le_width (P : HeapPort) (blockSize : ℕ) : P.ptr ≤ blockWidth P blockSize :=
  Nat.le_max_left ..

theorem size_le_width (P : HeapPort) (blockSize : ℕ) : blockSize ≤ blockWidth P blockSize :=
  Nat.le_max_right ..

theorem base_lt (h : PoolRep P n blockSize m fl live) : m.base < 256 ^ P.ptr := by
  have hchain := h.chain
  cases fl with
  | nil =>
    rw [show m.base = 0 from hchain]
    exact Nat.pow_pos (by decide)
  | cons b fl =>
    have hb := h.inside b (List.mem_append_left _ List.mem_cons_self)
    have hw := ptr_le_width P blockSize
    have hp := P.ptr_pos
    have hhi := h.hi_le
    rw [hchain.1]
    omega

theorem safe (h : PoolRep P n blockSize m fl live) : PoolSafe P n blockSize m live := by
  have hw := ptr_le_width P blockSize
  have hs := size_le_width P blockSize
  obtain ⟨_, hlive, hcross⟩ := List.pairwise_append.mp h.apart
  refine ⟨?_, fun b hb => ?_, hlive.imp ?_, fun f hf b hb => ?_⟩
  · have := h.count
    omega
  · have hin := h.inside b (List.mem_append_right fl hb)
    omega
  · intro a b hab
    omega
  · have hfb := hcross f (h.chain.mem_of_linked hf) b hb
    omega

/-- **`pool_alloc`**: the first free block, or NULL when all blocks are live. -/
theorem alloc (h : PoolRep P n blockSize m fl live) :
    ∃ r m' fl', poolAlloc P m = .ok (r, m') ∧ (r = 0 ↔ live.length = n) ∧
      PoolRep P n blockSize m' fl' (if r = 0 then live else r :: live) := by
  have hcount := h.count
  have hchain := h.chain
  unfold poolAlloc
  cases fl with
  | nil =>
    have hbase : m.base = 0 := hchain
    rw [List.length_nil, Nat.zero_add] at hcount
    refine ⟨0, m, [], ?_, iff_of_true rfl hcount, ?_⟩
    · dsimp only
      rw [if_neg (fun hc => hc hbase), hbase]
    · rw [if_pos rfl]
      exact h
  | cons b fl =>
    obtain ⟨hbase, hb, hrest⟩ := hchain
    have hin := h.inside b (List.mem_append_left _ List.mem_cons_self)
    have hw := ptr_le_width P blockSize
    rw [List.length_cons] at hcount
    have hperm : (fl ++ b :: live).Perm (b :: (fl ++ live)) := List.perm_middle
    refine ⟨b, { m with
      base := loadBytes m.storage.byte b P.ptr,
      free := P.ptrAdd m.free (-(m.size / m.noBlocks : ℕ)) }, fl, ?_,
      iff_of_false hb (by omega), ?_⟩
    · dsimp only
      rw [hbase, if_pos hb]
      unfold Storage.load
      rw [if_pos (by omega)]
      rfl
    · rw [if_neg hb]
      refine ⟨h.vfAlloc, h.vfFree, hrest, ?_, fun c hc => ?_, ?_, h.hi_le⟩
      · rw [List.length_cons]
        omega
      · exact h.inside c (hperm.mem_iff.mp hc)
      · exact (hperm.pairwise_iff (fun hab => hab.symm)).mpr h.apart

/-- **`pool_free`** of a live block. -/
theorem free (h : PoolRep P n blockSize m fl live) {b : ℕ} (hb : b ∈ live) :
    ∃ m', poolFree P m b = .ok m' ∧ PoolRep P n blockSize m' (b :: fl) (live.erase b) := by
  have hin := h.inside b (List.mem_append_right fl hb)
  have hw := ptr_le_width P blockSize
  have hperm : (fl ++ live).Perm (b :: fl ++ live.erase b) :=
    ((List.perm_cons_erase hb).append_left fl).trans List.perm_middle
  have hcross := (List.pairwise_append.mp h.apart).2.2
  have hpos := List.length_pos_of_mem hb
  have hcount := h.count
  refine ⟨{ m with
    base := b, free := P.ptrAdd m.free (m.size / m.noBlocks : ℕ),
    storage := { m.storage with byte := storeBytes m.storage.byte b P.ptr m.base } }, ?_,
    ⟨h.vfAlloc, h.vfFree, ?_, ?_, fun c hc => ?_, ?_, h.hi_le⟩⟩
  · unfold poolFree Storage.store
    rw [if_pos (by omega)]
    rfl
  · apply h.chain.push hin.1 h.base_lt
    intro c hc
    have hcb := hcross c hc b hb
    omega
  · rw [List.length_cons, List.length_erase_of_mem hb]
    omega
  · exact h.inside c (hperm.mem_iff.mpr hc)
  · exact (hperm.pairwise_iff (fun hab => hab.symm)).mp h.apart

theorem write (h : PoolRep P n blockSize m fl live) {b offset : ℕ} (hb : b ∈ live)
    (ho : offset < blockSize) (byte : BitVec 8) :
    PoolRep P n blockSize (poolWriteByte m (b + offset) byte) fl live := by
  have hw := ptr_le_width P blockSize
  have hs := size_le_width P blockSize
  have hcross := (List.pairwise_append.mp h.apart).2.2
  refine ⟨h.vfAlloc, h.vfFree, ?_, h.count, h.inside, h.apart, h.hi_le⟩
  apply h.chain.congr
  intro c hc x h1 h2
  have hcb := hcross c hc b hb
  exact Function.update_of_ne (by omega) ..

/-- **Every run from a pool that is set up is sound.** -/
theorem run (ops : List PoolOp) :
    ∀ {m : PoolMem} {fl live : List ℕ}, PoolRep P n blockSize m fl live →
      PoolRunSound P n blockSize junk m live ops := by
  induction ops with
  | nil => exact fun h => h.safe
  | cons op ops ih =>
    intro m fl live h
    refine ⟨h.safe, fun hl => ?_⟩
    cases op with
    | alloc size =>
      obtain ⟨r, m', fl', hrun, hr, h'⟩ := h.alloc
      refine ⟨r, m', ?_, fun _ _ => hr, ih h'⟩
      unfold runPoolOp poolNmemAllocI
      rw [h.vfAlloc]
      exact hrun
    | free mem =>
      obtain ⟨m', hrun, h'⟩ := h.free hl
      refine ⟨0, m', ?_, fun size hop => (by cases hop), ih h'⟩
      unfold runPoolOp poolNmemFreeI
      dsimp only
      rw [if_pos h.vfFree, hrun]
      rfl
    | write mem offset byte =>
      exact ⟨0, _, rfl, fun size hop => (by cases hop), ih (h.write hl.1 hl.2 byte)⟩

end PoolRep

/-! ## `pool_init_alloc` -/

section
variable {P : HeapPort} {junk : ℕ}

theorem addressSpace (P : HeapPort) : ∃ v, 2 ^ (8 * P.ptr) = 4 * v ∧ 2 ^ 30 ≤ v := by
  rcases P.ptr_eq with hp | hp
  · exact ⟨2 ^ 30, by rw [hp]; rfl, le_refl _⟩
  · exact ⟨2 ^ 62, by rw [hp]; rfl, by decide⟩

/-- the storage of one block holds the block, unless the rounding goes round to nothing -/
theorem storageSize_one (P : HeapPort) {blockSize : ℕ} (hlt : blockSize < 2 ^ (8 * P.ptr)) :
    storageSize P 1 blockSize = 0 ∨ blockSize ≤ storageSize P 1 blockSize := by
  obtain ⟨v, hv, hwide⟩ := addressSpace P
  have hround : ∀ x : ℕ, P.sizeT ((x : ℤ) + 4 - 1) = (x + 3) % (4 * v) := by
    intro x
    rw [← hv, ← sizeT_natCast, show (x : ℤ) + 4 - 1 = ((x + 3 : ℕ) : ℤ) by omega]
  have halign : P.nalignUp blockSize 4 = (blockSize + 3) % (4 * v) / 4 * 4 := by
    rw [← hv]
    exact nalignUp_two_pow P blockSize (k := 2) (by rcases P.ptr_eq with hp | hp <;> omega)
  have hmod := Nat.mod_lt (blockSize + 3) (show 0 < 4 * v by omega)
  unfold storageSize npoolComputeSize sizeofDataAlignment
  rw [Nat.one_mul, sizeT_natCast, hv, hround, halign]
  rw [Nat.mod_eq_of_lt (show (blockSize + 3) % (4 * v) / 4 * 4 < 4 * v by omega),
    Nat.mod_eq_of_lt (show (blockSize + 3) % (4 * v) / 4 * 4 + 3 < 4 * v by omega)]
  rcases Nat.lt_or_ge (blockSize + 3) (4 * v) with hsum | hsum
  · rw [Nat.mod_eq_of_lt hsum]
    omega
  · rw [Nat.mod_eq_sub_mod hsum, Nat.mod_eq_of_lt (by omega)]
    omega

theorem initLoop_inside {size n block block' : ℕ} {st st₁ st₂ : Storage}
    (hloop : poolInitLoop P size n st block = .ok (st₁, block'))
    (hstore : st₁.store block' P.ptr 0 = .ok st₂) :
    st.lo ≤ block ∧ block + P.ptr ≤ st.hi := by
  cases n with
  | zero =>
    obtain ⟨rfl, rfl⟩ := Prod.mk.inj (Except.ok.inj hloop)
    exact (Storage.store_eq_ok hstore).1
  | succ n =>
    obtain ⟨st', hst', _⟩ := bind_eq_ok.mp hloop
    exact (Storage.store_eq_ok hst').1

/-- **The second link** lies outside the storage: it is as far from the first as the storage is long. -/
theorem initLoop_fails (b : PoolBundle P) {n block : ℕ} {st₁ st₂ : Storage}
    (hloop : poolInitLoop P b.size (n + 1) b.init.storage junk = .ok (st₁, block)) :
    st₁.store block P.ptr 0 ≠ .ok st₂ := by
  intro hstore
  obtain ⟨v, hv, hwide⟩ := addressSpace P
  have hpow : 256 ^ P.ptr = 4 * v := by
    rw [← hv, Nat.pow_mul]
  have hp := P.ptr_pos
  have hpos := b.base_pos
  have hle : b.base + b.size ≤ 2 ^ (8 * P.ptr) := b.base_le
  have hsize : b.size < 2 ^ 31 - 1 := b.size_lt
  obtain ⟨st, hst, hloop⟩ := bind_eq_ok.mp hloop
  obtain ⟨next, hnext, hloop⟩ := bind_eq_ok.mp hloop
  obtain ⟨⟨hlo, hhi⟩, rfl⟩ := Storage.store_eq_ok hst
  obtain ⟨_, rfl⟩ := Storage.load_eq_ok hnext
  have hinside := initLoop_inside hloop hstore
  have hadd : P.ptrAdd junk b.size = (junk + b.size) % (4 * v) := by
    rw [← hv]
    exact sizeT_natCast P (junk + b.size)
  have hload : loadBytes (storeBytes b.init.storage.byte junk P.ptr (P.ptrAdd junk b.size)) junk P.ptr
      = (junk + b.size) % (4 * v) := by
    rw [loadBytes_storeBytes, hpow, hadd, Nat.mod_mod]
  rw [hload] at hinside
  have hlo' : b.base ≤ junk := hlo
  have hhi' : junk + P.ptr ≤ b.base + b.size := hhi
  obtain ⟨hin, hin'⟩ : b.base ≤ (junk + b.size) % (4 * v) ∧
    (junk + b.size) % (4 * v) + P.ptr ≤ b.base + b.size := hinside
  rcases Nat.lt_or_ge (junk + b.size) (4 * v) with hsum | hsum
  · rw [Nat.mod_eq_of_lt hsum] at hin'
    omega
  · rw [Nat.mod_eq_sub_mod hsum, Nat.mod_eq_of_lt (by omega)] at hin
    omega

/-- the number of the links that the loop sets -/
def linkCount (b : PoolBundle P) : ℕ := (b.nOfBlocks % 2 ^ 32 + 2 ^ 32 - 1) % 2 ^ 32

/-- the pool after a set-up that sets no link -/
def setUp (b : PoolBundle P) : PoolMem :=
  { b.init with vfAlloc := .poolAlloc, vfFree := true }

/-- **`pool_init_alloc`** goes through only where it sets no link and `block` points into the storage. -/
theorem poolInitAlloc_ok (b : PoolBundle P) {r : ℕ} {m : PoolMem}
    (h : poolInitAlloc P junk b.init = .ok (r, m)) :
    linkCount b = 0 ∧ b.base ≤ junk ∧ junk + P.ptr ≤ b.base + b.size ∧
      poolAlloc P (setUp b) = .ok (r, m) := by
  obtain ⟨⟨st, block⟩, hloop, h⟩ := bind_eq_ok.mp h
  obtain ⟨st', hstore, h⟩ := bind_eq_ok.mp h
  have hcount : linkCount b = 0 := by
    by_contra hc
    obtain ⟨n, hn⟩ := Nat.exists_eq_succ_of_ne_zero hc
    have hloop' : poolInitLoop P b.size (linkCount b) b.init.storage junk = .ok (st, block) := hloop
    rw [hn] at hloop'
    exact initLoop_fails b hloop' hstore
  obtain ⟨hlo, hhi⟩ := initLoop_inside hloop hstore
  have hloop' : poolInitLoop P b.size (linkCount b) b.init.storage junk = .ok (st, block) := hloop
  rw [hcount] at hloop'
  obtain ⟨rfl, rfl⟩ := Prod.mk.inj (Except.ok.inj hloop')
  obtain rfl := (Storage.store_eq_ok hstore).2
  refine ⟨hcount, hlo, hhi, ?_⟩
  have hzero : storeBytes b.init.storage.byte junk P.ptr 0 = b.init.storage.byte :=
    storeBytes_zero junk P.ptr
  rw [hzero] at h
  exact h

theorem poolInitAlloc_eq (b : PoolBundle P) (hcount : linkCount b = 0) (hlo : b.base ≤ junk)
    (hhi : junk + P.ptr ≤ b.base + b.size) :
    poolInitAlloc P junk b.init = poolAlloc P (setUp b) := by
  have hloop : poolInitLoop P b.size (linkCount b) b.init.storage junk = .ok (b.init.storage, junk) := by
    rw [hcount]
    rfl
  have hstore : b.init.storage.store junk P.ptr 0 = .ok b.init.storage := by
    unfold Storage.store
    rw [if_pos ⟨hlo, hhi⟩]
    have hzero : storeBytes b.init.storage.byte junk P.ptr 0 = b.init.storage.byte :=
      storeBytes_zero junk P.ptr
    rw [hzero]
  show (poolInitLoop P b.size (linkCount b) b.init.storage junk >>= _) = _
  rw [hloop, ok_bind]
  show (b.init.storage.store junk P.ptr 0 >>= _) = _
  rw [hstore]
  rfl

theorem setUp_rep (b : PoolBundle P) (hn : b.nOfBlocks = 1) (hsize : P.ptr ≤ b.size) :
    PoolRep P b.nOfBlocks b.blockSize (setUp b) [b.base] [] := by
  have hp := P.ptr_pos
  have hpow : 256 ^ P.ptr = 2 ^ (8 * P.ptr) := (Nat.pow_mul 2 8 P.ptr).symm
  have hblock : b.blockSize ≤ b.size := by
    have hone := storageSize_one P b.blockSize_lt
    rw [← hn] at hone
    exact hone.resolve_left fun hc => by
      have hzero : b.size = 0 := hc
      omega
  refine ⟨rfl, rfl, ⟨rfl, Nat.ne_of_gt b.base_pos, loadBytes_zero _ _⟩, by rw [hn]; rfl,
    fun c hc => ?_, List.pairwise_singleton _ _, ?_⟩
  · rw [List.append_nil, List.mem_singleton] at hc
    rw [hc]
    refine ⟨Nat.ne_of_gt b.base_pos, le_refl _, ?_⟩
    exact Nat.add_le_add_left (max_le hsize hblock) b.base
  · rw [hpow]
    exact b.base_le

theorem poolAlloc_setUp (b : PoolBundle P) {r : ℕ} {m : PoolMem}
    (h : poolAlloc P (setUp b) = .ok (r, m)) : r ≠ 0 ∧ m.vfAlloc = .poolAlloc ∧ m.base = 0 := by
  have hbase : (setUp b).base ≠ 0 := Nat.ne_of_gt b.base_pos
  unfold poolAlloc at h
  dsimp only at h
  rw [if_pos hbase] at h
  obtain ⟨next, hnext, h⟩ := bind_eq_ok.mp h
  obtain ⟨rfl, rfl⟩ := Prod.mk.inj (Except.ok.inj h)
  obtain rfl := (Storage.load_eq_ok hnext).2
  exact ⟨hbase, rfl, loadBytes_zero _ _⟩

/-- two requests tell how many blocks the pool has -/
theorem PoolSound.one_block {b : PoolBundle P} (h : PoolSound b junk) :
    b.nOfBlocks = 1 ∧ b.base ≤ junk ∧ junk + P.ptr ≤ b.base + b.size := by
  obtain ⟨_, hfirst⟩ := h [.alloc 0, .alloc 0]
  obtain ⟨r, m, hrun, _, hsecond⟩ := hfirst trivial
  obtain ⟨_, hlo, hhi, halloc⟩ := poolInitAlloc_ok b hrun
  obtain ⟨hr, hvf, hbase⟩ := poolAlloc_setUp b halloc
  rw [show poolLiveAfter [] (.alloc 0) r = [r] from if_neg hr] at hsecond
  obtain ⟨_, hsecond⟩ := hsecond
  obtain ⟨r', m', hrun', hfull, _⟩ := hsecond trivial
  have halloc' : runPoolOp P junk m (.alloc 0) = .ok (0, m) := by
    unfold runPoolOp poolNmemAllocI poolAlloc
    rw [hvf]
    dsimp only
    rw [if_neg (fun hc => hc hbase), hbase]
  have hnull : r' = 0 := (congrArg Prod.fst (Except.ok.inj (halloc'.symm.trans hrun'))).symm
  exact ⟨((hfull 0 rfl).mp hnull).symm, hlo, hhi⟩

/-- **A pool is sound** only with one block that holds a pointer, and only where the variable `block`,
which is never set, happens to point into the storage. -/
theorem poolSound_iff (P : HeapPort) (b : PoolBundle P) (junk : ℕ) :
    PoolSound b junk ↔
      b.nOfBlocks = 1 ∧ b.base ≤ junk ∧ junk + P.ptr ≤ b.base + b.size := by
  constructor
  · exact fun h => h.one_block
  · intro ⟨hn, hlo, hhi⟩ ops
    have hcount : linkCount b = 0 := by
      unfold linkCount
      rw [hn]
      rfl
    have hrep := setUp_rep b hn (by omega)
    have hsafe : PoolSafe P b.nOfBlocks b.blockSize b.init [] :=
      ⟨Nat.zero_le _, List.forall_mem_nil _, List.Pairwise.nil, fun _ _ => List.forall_mem_nil _⟩
    cases ops with
    | nil => exact hsafe
    | cons op ops =>
      refine ⟨hsafe, fun hl => ?_⟩
      cases op with
      | alloc size =>
        obtain ⟨r, m, fl, hrun, hr, hrep'⟩ := hrep.alloc
        exact ⟨r, m, (poolInitAlloc_eq b hcount hlo hhi).trans hrun, fun _ _ => hr,
          PoolRep.run ops hrep'⟩
      | free mem => cases hl
      | write mem offset byte => cases hl.1

/-- two blocks of 16 bytes on a 32-bit port -/
def pool2x16 : PoolBundle heapPort32 :=
  ⟨2, 16, 1000, by decide, by decide, by decide, by decide, by decide, by decide⟩

/-- it is not sound, not even if `block` points to the storage -/
theorem pool2x16_not_sound : ¬ PoolSound pool2x16 1000 := fun h => absurd h.one_block.1 (by decide)

end

end NeonEds
