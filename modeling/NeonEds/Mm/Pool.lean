import NeonEds.Lib.FreeChain
import NeonEds.Mm.Heap

/-!
# Memory pools (source/pool.c, include/mm/pool.h)

The functions of `pool.c` over the bytes of the storage; the first bytes of a free block are its
`struct pool_block`.  The signature, the lock and the debug assertions are left out.

`pool_init_alloc` does not set its variable `block` before it is used: what the variable holds then is
the parameter `junk`.  `PoolBundle` is what `NPOOL_BUNDLE_DEFINE` makes.
-/

namespace NeonEds
open Exec

/-- what `vf_alloc` of a pool points to -/
inductive PoolAlloc where
  | poolInitAlloc
  | poolAlloc
  deriving DecidableEq

structure PoolMem where
  vfAlloc : PoolAlloc
  /-- `vf_free` points to `pool_free`, else it is NULL -/
  vfFree : Bool
  base : ℕ
  free : ℕ
  size : ℕ
  noBlocks : ℕ
  storage : Storage

section
variable (P : HeapPort)

def poolAlloc (poolObj : PoolMem) : Exec (ℕ × PoolMem) :=
  let block := poolObj.base
  if block ≠ 0 then do
    let next ← poolObj.storage.load block P.ptr
    return (block, { poolObj with
      base := next, free := P.ptrAdd poolObj.free (-(poolObj.size / poolObj.noBlocks : ℕ)) })
  else .ok (block, poolObj)

def poolFree (poolObj : PoolMem) (mem : ℕ) : Exec PoolMem := do
  let st ← poolObj.storage.store mem P.ptr poolObj.base
  return { poolObj with
    base := mem, free := P.ptrAdd poolObj.free (poolObj.size / poolObj.noBlocks : ℕ), storage := st }

/-- the loop of `pool_init_alloc`: `n` more links are set -/
def poolInitLoop (size : ℕ) : ℕ → Storage → ℕ → Exec (Storage × ℕ)
  | 0, st, block => .ok (st, block)
  | n + 1, st, block => do
    let st ← st.store block P.ptr (P.ptrAdd block size)
    let block ← st.load block P.ptr
    poolInitLoop size n st block

/-- `no_blocks` is a `uint32_t`; the block size is computed and not used -/
def poolInitAlloc (junk : ℕ) (poolObj : PoolMem) : Exec (ℕ × PoolMem) := do
  let (st, block) ←
    poolInitLoop P poolObj.size ((poolObj.noBlocks + 2 ^ 32 - 1) % 2 ^ 32) poolObj.storage junk
  let st ← st.store block P.ptr 0
  poolAlloc P { poolObj with vfAlloc := .poolAlloc, vfFree := true, storage := st }

/-! ## the calls through the memory object -/

/-- the size that is asked for is not looked at -/
def poolNmemAllocI (junk : ℕ) (memObj : PoolMem) (_ : ℕ) : Exec (ℕ × PoolMem) :=
  match memObj.vfAlloc with
  | .poolInitAlloc => poolInitAlloc P junk memObj
  | .poolAlloc => poolAlloc P memObj

def poolNmemFreeI (memObj : PoolMem) (mem : ℕ) : Exec PoolMem :=
  if memObj.vfFree = true then poolFree P memObj mem else .error .null

/-! ## `NPOOL_BUNDLE_DEFINE` -/

/-- the constant `NCPU_DATA_ALIGNMENT` is an `unsigned int`, so it is the size of this type -/
def sizeofDataAlignment : ℕ := 4

def npoolComputeSize (nOfBlocks blockSize : ℕ) : ℕ :=
  P.sizeT (nOfBlocks * P.nalignUp blockSize sizeofDataAlignment : ℕ)

/-- `sizeof(instance.storage)`, an array of `uint32_t` -/
def storageSize (nOfBlocks blockSize : ℕ) : ℕ :=
  P.sizeT (npoolComputeSize P nOfBlocks blockSize + 4 - 1) / 4 * 4

end

/-- a pool at an address; `pool_init_alloc` requires that the storage is smaller than `INT32_MAX` -/
structure PoolBundle (P : HeapPort) where
  nOfBlocks : ℕ
  blockSize : ℕ
  base : ℕ
  nOfBlocks_pos : 1 ≤ nOfBlocks
  blockSize_pos : 1 ≤ blockSize
  blockSize_lt : blockSize < 2 ^ (8 * P.ptr)
  base_pos : 0 < base
  base_le : base + storageSize P nOfBlocks blockSize ≤ 2 ^ (8 * P.ptr)
  size_lt : storageSize P nOfBlocks blockSize < 2 ^ 31 - 1

namespace PoolBundle
variable {P : HeapPort} (b : PoolBundle P)

def size : ℕ := storageSize P b.nOfBlocks b.blockSize

/-- the initializer of the bundle -/
def init : PoolMem where
  vfAlloc := .poolInitAlloc
  vfFree := false
  base := b.base
  free := 0
  size := b.size
  noBlocks := b.nOfBlocks % 2 ^ 32
  storage := ⟨b.base, b.base + b.size, fun _ => 0#8⟩

end PoolBundle

end NeonEds
