import NeonEds.Lib.ByteMem

/-!
# The heap (source/heap.c)

The functions of `heap.c` over the bytes of the storage: a block is a `struct heap_block` at its
address, and the fields of a block are read and written at their offsets.  A pointer is an address,
NULL is 0.  The signature and the lock, which the functions only assert, are left out.

The search loop of `heap_alloc` is bounded by the number of the bytes of the storage.
-/

namespace NeonEds
open Exec

/-- The ports that have the `arch/p_core.h` which `heap.c` includes: pointers have 4 bytes for pic32 and
stm32f4xx, 8 for x86-64.  (`dspic33e`, with 2, has none.) -/
structure HeapPort where
  ptr : ℕ
  apiValidation : Bool
  ptr_eq : ptr = 4 ∨ ptr = 8

/-- a 32-bit port -/
def heapPort32 : HeapPort := ⟨4, false, Or.inl rfl⟩

namespace HeapPort
variable (P : HeapPort)

def sizeofHeapPhy : ℕ := 2 * P.ptr

def sizeofHeapBlock : ℕ := 4 * P.ptr

/-- a number as a `size_t` -/
def sizeT (z : ℤ) : ℕ := (z % 2 ^ (8 * P.ptr)).toNat

def ptrAdd (p : ℕ) (z : ℤ) : ℕ := P.sizeT (p + z)

/-- the macro `NALIGN_UP` -/
def nalignUp (num align : ℕ) : ℕ :=
  P.sizeT (num + align - 1) &&& (2 ^ (8 * P.ptr) - 1 - (align - 1))

end HeapPort

def int32 (z : ℤ) : ℤ := z.bmod (2 ^ 32)

/-- what `vf_alloc` points to -/
inductive NmemAlloc where
  | heapInitAlloc
  | heapAlloc
  deriving DecidableEq

structure Nmem where
  vfAlloc : NmemAlloc
  /-- `vf_free` points to `heap_free`, else it is NULL -/
  vfFree : Bool
  base : ℕ
  free : ℕ
  size : ℕ
  storage : Storage

section
variable (P : HeapPort)

/-! ## the fields of a block -/

def phyPrev (st : Storage) (b : ℕ) : Exec ℕ := st.load b P.ptr

def phySize (st : Storage) (b : ℕ) : Exec ℤ := st.loadInt (b + P.ptr) 4

def freeNext (st : Storage) (b : ℕ) : Exec ℕ := st.load (b + 2 * P.ptr) P.ptr

def freePrev (st : Storage) (b : ℕ) : Exec ℕ := st.load (b + 3 * P.ptr) P.ptr

def setPhyPrev (st : Storage) (b v : ℕ) : Exec Storage := st.store b P.ptr v

def setPhySize (st : Storage) (b : ℕ) (z : ℤ) : Exec Storage := st.storeInt (b + P.ptr) 4 z

def setFreeNext (st : Storage) (b v : ℕ) : Exec Storage := st.store (b + 2 * P.ptr) P.ptr v

def setFreePrev (st : Storage) (b v : ℕ) : Exec Storage := st.store (b + 3 * P.ptr) P.ptr v

/-! ## `heap_alloc` -/

/-- the block `curr` is cut in two -/
def heapAllocSplit (st : Storage) (curr size : ℕ) : Exec (ℕ × Storage) := do
  let mem := P.ptrAdd curr P.sizeofHeapPhy
  let tmp := P.ptrAdd curr (size + P.sizeofHeapPhy)
  let st ← setPhyPrev P st tmp curr
  let st ← setPhySize P st tmp (← phySize P st curr)
  let st ← setPhySize P st tmp ((← phySize P st tmp) - int32 size)
  let st ← setPhySize P st tmp ((← phySize P st tmp) - int32 P.sizeofHeapPhy)
  let st ← setPhySize P st curr (int32 size * (-1))
  let st ← setFreeNext P st tmp (← freeNext P st curr)
  let st ← setFreePrev P st tmp (← freePrev P st curr)
  let st ← setFreePrev P st (← freeNext P st tmp) tmp
  let st ← setFreeNext P st (← freePrev P st tmp) tmp
  let curr := P.ptrAdd tmp ((← phySize P st tmp) + P.sizeofHeapPhy)
  let st ← setPhyPrev P st curr tmp
  return (mem, st)

/-- the block `curr` is taken whole -/
def heapAllocWhole (st : Storage) (curr : ℕ) : Exec (ℕ × Storage) := do
  let mem := P.ptrAdd curr P.sizeofHeapPhy
  let st ← setFreePrev P st (← freeNext P st curr) (← freePrev P st curr)
  let st ← setFreeNext P st (← freePrev P st curr) (← freeNext P st curr)
  let st ← setPhySize P st curr ((← phySize P st curr) * (-1))
  return (mem, st)

def heapAllocLoop (sentinel size : ℕ) : ℕ → Storage → ℕ → Exec (ℕ × Storage)
  | 0, _, _ => .error .fuel
  | bound + 1, st, curr =>
    if curr = sentinel then .ok (0, st)
    else do
      let currSize ← phySize P st curr
      if currSize ≥ int32 size then
        if currSize > int32 (P.sizeT (size + P.sizeofHeapBlock)) then heapAllocSplit P st curr size
        else heapAllocWhole P st curr
      else do
        let curr ← freeNext P st curr
        heapAllocLoop sentinel size bound st curr

def heapAlloc (heapObj : Nmem) (size : ℕ) : Exec (ℕ × Nmem) := do
  require P.apiValidation (size ≠ 0 ∧ size < 2 ^ 31 - 1)
  let size := P.nalignUp size P.sizeofHeapPhy
  let sentinel := heapObj.base
  let st := heapObj.storage
  let curr ← freeNext P st sentinel
  let (mem, st) ← heapAllocLoop P sentinel size (st.hi - st.lo) st curr
  require P.apiValidation (mem ≠ 0)
  return (mem, { heapObj with storage := st })

/-! ## `heap_free` -/

/-- only the block before `curr` is free -/
def heapFreePrev (st : Storage) (curr tmp : ℕ) : Exec Storage := do
  let prev ← phyPrev P st curr
  let st ← setPhySize P st prev ((← phySize P st prev) + (← phySize P st curr))
  let prev ← phyPrev P st curr
  let st ← setPhySize P st prev ((← phySize P st prev) + int32 P.sizeofHeapPhy)
  setPhyPrev P st tmp (← phyPrev P st curr)

/-- only the block after `curr` is free -/
def heapFreeNext (st : Storage) (curr tmp : ℕ) : Exec Storage := do
  let st ← setFreeNext P st curr (← freeNext P st tmp)
  let st ← setFreePrev P st curr (← freePrev P st tmp)
  let st ← setFreeNext P st (← freePrev P st curr) curr
  let st ← setFreePrev P st (← freeNext P st curr) curr
  let st ← setPhySize P st curr ((← phySize P st curr) + (← phySize P st tmp))
  let st ← setPhySize P st curr ((← phySize P st curr) + int32 P.sizeofHeapPhy)
  let tmp := P.ptrAdd curr ((← phySize P st curr) + P.sizeofHeapPhy)
  setPhyPrev P st tmp curr

/-- the blocks before and after `curr` are free -/
def heapFreeBoth (st : Storage) (curr tmp : ℕ) : Exec Storage := do
  let st ← setFreeNext P st (← freePrev P st tmp) (← freeNext P st tmp)
  let st ← setFreePrev P st (← freeNext P st tmp) (← freePrev P st tmp)
  let prev ← phyPrev P st curr
  let st ← setPhySize P st prev
    ((← phySize P st prev) + ((← phySize P st curr) + (← phySize P st tmp)))
  let prev ← phyPrev P st curr
  let st ← setPhySize P st prev ((← phySize P st prev) + int32 (2 * P.sizeofHeapPhy))
  let prev ← phyPrev P st curr
  let tmp := P.ptrAdd prev ((← phySize P st prev) + P.sizeofHeapPhy)
  setPhyPrev P st tmp (← phyPrev P st curr)

/-- the blocks before and after `curr` are used -/
def heapFreeNone (sentinel : ℕ) (st : Storage) (curr : ℕ) : Exec Storage := do
  let st ← setFreeNext P st curr (← freeNext P st sentinel)
  let st ← setFreePrev P st curr sentinel
  let st ← setFreeNext P st (← freePrev P st curr) curr
  setFreePrev P st (← freeNext P st curr) curr

/-- the four cases of `heap_free` -/
def heapFreeJoin (sentinel : ℕ) (prevSize nextSize : ℤ) (st : Storage) (curr tmp : ℕ) :
    Exec Storage :=
  if prevSize > 0 ∧ nextSize < 0 then heapFreePrev P st curr tmp
  else if prevSize < 0 ∧ nextSize > 0 then heapFreeNext P st curr tmp
  else if prevSize > 0 ∧ nextSize > 0 then heapFreeBoth P st curr tmp
  else heapFreeNone P sentinel st curr

def heapFree (heapObj : Nmem) (mem : ℕ) : Exec Nmem := do
  require P.apiValidation (mem ≠ 0)
  let st := heapObj.storage
  let curr := P.ptrAdd mem (-P.sizeofHeapPhy)
  let st ← setPhySize P st curr ((← phySize P st curr) * (-1))
  let tmp := P.ptrAdd curr ((← phySize P st curr) + P.sizeofHeapPhy)
  let prevSize ← phySize P st (← phyPrev P st curr)
  let nextSize ← phySize P st tmp
  let st ← heapFreeJoin P heapObj.base prevSize nextSize st curr tmp
  return { heapObj with storage := st }

/-! ## `heap_init_alloc` -/

/-- the one free block and the sentinel -/
def heapInitBlocks (st : Storage) (begin sentinel size : ℕ) : Exec Storage := do
  let st ← setPhySize P st begin (int32 size)
  let st ← setPhySize P st begin ((← phySize P st begin) - int32 P.sizeofHeapBlock)
  let st ← setPhySize P st begin ((← phySize P st begin) - int32 P.sizeofHeapPhy)
  let st ← setPhyPrev P st begin sentinel
  let st ← setFreeNext P st begin sentinel
  let st ← setFreePrev P st begin sentinel
  let st ← setPhySize P st sentinel (-1)
  let st ← setPhyPrev P st sentinel begin
  let st ← setFreeNext P st sentinel begin
  setFreePrev P st sentinel begin

def heapInitAlloc (heapObj : Nmem) (size : ℕ) : Exec (ℕ × Nmem) := do
  require P.apiValidation (heapObj.base ≠ 0)
  require P.apiValidation (heapObj.size > 2 * P.sizeofHeapBlock)
  require P.apiValidation (heapObj.size < 2 ^ 31 - 1)
  let sentinel := P.ptrAdd (P.ptrAdd heapObj.base heapObj.size) (-P.sizeofHeapBlock)
  let begin := heapObj.base
  let st ← heapInitBlocks P heapObj.storage begin sentinel heapObj.size
  let beginSize ← phySize P st begin
  heapAlloc P { vfAlloc := .heapAlloc, vfFree := true, base := sentinel,
                free := P.sizeT beginSize, size := P.sizeT beginSize, storage := st } size

/-! ## the calls through the memory object -/

def nmemAllocI (memObj : Nmem) (size : ℕ) : Exec (ℕ × Nmem) :=
  match memObj.vfAlloc with
  | .heapInitAlloc => heapInitAlloc P memObj size
  | .heapAlloc => heapAlloc P memObj size

def nmemFreeI (memObj : Nmem) (memStorage : ℕ) : Exec Nmem :=
  if memObj.vfFree = true then heapFree P memObj memStorage else .error .null

end

end NeonEds
