import NeonEds.Ep.Event
import NeonEds.Ep.Storage

/-!
# Memory for an event (source/event.c: `find_memory_i`, `nevent_create`)

`NmemDesc` is what the memory objects are: their class, `size` and `no_blocks`; `nmem_get_size_i` returns
the member `size`.  The allocators are a parameter `alloc`, the answers of `vf_alloc`, of which
`AllocCorrect` says what each class keeps to: a pool hands out its blocks whatever size is asked for.

* `Registered`          the array holds the objects `mems`, the other entries are NULL, which is what
                        registrations leave (`Registered.registerAll`);
* `ServedBy`            the object of `mems` from which an event of that size is allocated;
* `findMemoryI_eq`      `find_memory_i` finds it;
* `createSound_iff`     an event has its size unless it comes from a pool of smaller blocks.
-/

namespace NeonEds
open Exec Segment

/-- the classes of memory objects -/
inductive MemClass where
  | pool
  | heap
  | static
  deriving DecidableEq

structure NmemDesc where
  cls : MemClass
  size : ℕ
  noBlocks : ℕ

/-- the size of the blocks of a pool -/
def NmemDesc.blockSize (d : NmemDesc) : ℕ := d.size / d.noBlocks

/-- a block that `vf_alloc` returns -/
structure MemBlock where
  addr : ℕ
  len : ℕ
  deriving DecidableEq

section
variable {E M : Type} [DecidableEq E] (cfg : StorageConfig) (nmemSize : M → ℕ)

/-- the loop of `find_memory_i`: `n` entries are left, the next one is `cnt` -/
def findLoop (st : EventStorage M) (size : ℕ) : ℕ → ℕ → Option M → Exec (Option M)
  | 0, _, mem => .ok mem
  | n + 1, cnt, _ => do
    let mem ← st.get cfg cnt
    let entry ← nmemGetSizeI nmemSize mem
    if size ≤ entry then .ok mem else findLoop st size n (cnt + 1) mem

def findMemoryI (st : EventStorage M) (size : ℕ) : Exec (Option M) :=
  if cfg.npools ≠ 1 then findLoop cfg nmemSize st size st.pools 0 none else st.get cfg 0

/-- `nevent_create` and `nevent_create_i`, which differ by the lock -/
def neventCreateI (st : EventStorage M) (alloc : M → ℕ → Option E) (m : EventMem E M)
    (size id : ℕ) : Exec (Option E × EventMem E M) := do
  let mem ← deref (← findMemoryI cfg nmemSize st size)
  return neventCreate m id mem (alloc mem size)

end

/-! ## the memory object that is found -/

section
variable {M : Type} {cfg : StorageConfig} {nmemSize : M → ℕ} {st : EventStorage M}
  {mems : List M} {size : ℕ}

structure Registered (cfg : StorageConfig) (st : EventStorage M) (mems : List M) : Prop
    extends Registry cfg st mems where
  rest : ∀ i, mems.length ≤ i → st.mem i = none

theorem registered_init : Registered cfg (EventStorage.init : EventStorage M) [] :=
  ⟨⟨rfl, Nat.zero_le _, trivial⟩, fun _ _ => rfl⟩

theorem Registered.registerMem (h : Registered cfg st mems) (nmemSize : M → ℕ)
    (hfree : mems.length < cfg.npools) (hwide : mems.length + 1 < 2 ^ cfg.fast8) (m : M) :
    ∃ mems' st', neventRegisterMem cfg nmemSize st m = .ok st' ∧ Registered cfg st' mems' ∧
      Insertion nmemSize m mems mems' := by
  obtain ⟨mems', mem, hins, hholds, hframe, hrun⟩ :=
    neventRegisterMem_registry nmemSize h.toRegistry hfree m
  rw [Nat.mod_eq_of_lt hwide] at hrun
  have hlen := hins.length
  refine ⟨mems', _, hrun, ⟨⟨hlen.symm, by omega, hholds⟩, fun i hi => ?_⟩, hins⟩
  exact (hframe i (by omega)).trans (h.rest i (by omega))

theorem Registered.registerAll (ms : List M) :
    ∀ (st : EventStorage M) (mems : List M), Registered cfg st mems →
      mems.length + ms.length ≤ cfg.npools → mems.length + ms.length < 2 ^ cfg.fast8 →
      ∃ st' mems', ms.foldlM (neventRegisterMem cfg nmemSize) st = .ok st' ∧
        Registered cfg st' mems' ∧ ∀ m, m ∈ mems' ↔ m ∈ ms ∨ m ∈ mems := by
  induction ms with
  | nil =>
    intro st mems h _ _
    exact ⟨st, mems, rfl, h, fun m => (or_iff_right List.not_mem_nil).symm⟩
  | cons m ms ih =>
    intro st mems h hfree hwide
    rw [List.length_cons] at hfree hwide
    obtain ⟨mems₁, st₁, hrun, h₁, hins⟩ :=
      h.registerMem nmemSize (by omega) (by omega) m
    have hlen := hins.length
    obtain ⟨st', mems', hruns, h', hmem⟩ := ih st₁ mems₁ h₁ (by omega) (by omega)
    refine ⟨st', mems', ?_, h', fun x => ?_⟩
    · rw [List.foldlM_cons, hrun]
      exact hruns
    · rw [hmem, hins.mem, List.mem_cons]
      exact or_left_comm.trans or_assoc.symm

/-- the first object of enough bytes, or the last one when there is none -/
def ServedBy (nmemSize : M → ℕ) (size : ℕ) (mems : List M) (m : M) : Prop :=
  ∃ pre post, mems = pre ++ m :: post ∧ (∀ x ∈ pre, nmemSize x < size) ∧
    (size ≤ nmemSize m ∨ post = [])

theorem servedBy_cons_of_le {m x : M} (hm : size ≤ nmemSize m) :
    ServedBy nmemSize size (m :: mems) x ↔ x = m := by
  constructor
  · intro ⟨pre, post, hsplit, hsmall, _⟩
    cases pre with
    | nil => exact (List.cons.inj hsplit).1.symm
    | cons y pre =>
      have hlt := hsmall y List.mem_cons_self
      rw [← (List.cons.inj hsplit).1] at hlt
      omega
  · intro hx
    rw [hx]
    exact ⟨[], mems, rfl, List.forall_mem_nil _, Or.inl hm⟩

theorem servedBy_cons_of_lt {m y x : M} (hm : nmemSize m < size) :
    ServedBy nmemSize size (m :: y :: mems) x ↔ ServedBy nmemSize size (y :: mems) x := by
  constructor
  · intro ⟨pre, post, hsplit, hsmall, hx⟩
    cases pre with
    | nil =>
      obtain ⟨hmx, hpost⟩ := List.cons.inj hsplit
      rw [← hmx, ← hpost] at hx
      rcases hx with hx | hx
      · omega
      · cases hx
    | cons z pre =>
      exact ⟨pre, post, (List.cons.inj hsplit).2,
        fun w hw => hsmall w (List.mem_cons_of_mem z hw), hx⟩
  · intro ⟨pre, post, hsplit, hsmall, hx⟩
    rw [hsplit]
    exact ⟨m :: pre, post, rfl, List.forall_mem_cons.mpr ⟨hm, hsmall⟩, hx⟩

theorem servedBy_singleton {m x : M} : ServedBy nmemSize size [m] x ↔ x = m := by
  constructor
  · intro ⟨pre, post, hsplit, _⟩
    cases pre with
    | nil => exact (List.cons.inj hsplit).1.symm
    | cons y pre =>
      have hnil := (List.cons.inj hsplit).2
      cases pre <;> cases hnil
  · intro hx
    rw [hx]
    exact ⟨[], [], rfl, List.forall_mem_nil _, Or.inr rfl⟩

/-- **The loop of `find_memory_i`** over the entries that are left. -/
theorem findLoop_eq (mems : List M) :
    ∀ (m : M) (cnt : ℕ) (mem : Option M), Holds st.mem cnt (m :: mems) →
      cnt + (m :: mems).length ≤ cfg.npools →
      ∃ x, findLoop cfg nmemSize st size (m :: mems).length cnt mem = .ok (some x) ∧
        ∀ y, ServedBy nmemSize size (m :: mems) y ↔ y = x := by
  induction mems with
  | nil =>
    intro m cnt mem hholds hle
    rw [List.length_singleton] at hle
    refine ⟨m, ?_, fun y => servedBy_singleton⟩
    show (st.get cfg cnt >>= _) = _
    rw [EventStorage.get_of_lt (by omega), ok_bind, hholds.1]
    show (if size ≤ nmemSize m then _ else _) = _
    split <;> rfl
  | cons m' mems ih =>
    intro m cnt mem hholds hle
    rw [List.length_cons] at hle
    have hbody : findLoop cfg nmemSize st size (m :: m' :: mems).length cnt mem
        = if size ≤ nmemSize m then .ok (some m)
          else findLoop cfg nmemSize st size (m' :: mems).length (cnt + 1) (some m) := by
      show (st.get cfg cnt >>= _) = _
      rw [EventStorage.get_of_lt (by omega), ok_bind, hholds.1]
      rfl
    rw [hbody]
    by_cases hm : size ≤ nmemSize m
    · rw [if_pos hm]
      exact ⟨m, rfl, fun y => servedBy_cons_of_le hm⟩
    · rw [if_neg hm]
      obtain ⟨x, hrun, hx⟩ := ih m' (cnt + 1) (some m) hholds.2 (by omega)
      refine ⟨x, hrun, fun y => ?_⟩
      rw [servedBy_cons_of_lt (Nat.lt_of_not_le hm)]
      exact hx y

theorem findMemoryI_nil (h : Registered cfg st []) :
    findMemoryI cfg nmemSize st size = .ok none := by
  unfold findMemoryI
  split
  · rw [h.pools]
    rfl
  · rw [EventStorage.get_of_lt (by omega), h.rest 0 (Nat.zero_le _)]

/-- **`find_memory_i`** finds the object that serves the size. -/
theorem findMemoryI_eq (nmemSize : M → ℕ) (size : ℕ) (h : Registered cfg st mems)
    (hne : mems ≠ []) :
    ∃ x, findMemoryI cfg nmemSize st size = .ok (some x) ∧
      ∀ y, ServedBy nmemSize size mems y ↔ y = x := by
  have hlen := h.length
  cases mems with
  | nil => exact absurd rfl hne
  | cons m mems =>
    unfold findMemoryI
    split
    · rw [h.pools]
      exact findLoop_eq mems m 0 none h.mem (by omega)
    · -- one entry, which is not looked at
      rw [List.length_cons] at hlen
      have hnil : mems = [] := List.eq_nil_of_length_eq_zero (by omega)
      rw [hnil]
      refine ⟨m, ?_, fun y => servedBy_singleton⟩
      rw [EventStorage.get_of_lt (by omega), h.mem.1]

end

/-! ## the size of an event -/

section
variable {M : Type} {cfg : StorageConfig} {desc : M → NmemDesc} {st : EventStorage M}
  {mems : List M} {size : ℕ}

/-- what an allocator keeps to; a pool does not look at the size -/
def AllocCorrect (desc : M → NmemDesc) (alloc : M → ℕ → Option MemBlock) : Prop :=
  ∀ m size b, alloc m size = some b →
    if (desc m).cls = .pool then b.len = (desc m).blockSize
    else size ≤ b.len ∧ b.len ≤ (desc m).size

/-- the object may have so many bytes in one block -/
def CanSupply (d : NmemDesc) (size : ℕ) : Prop :=
  if d.cls = .pool then size ≤ d.blockSize else size ≤ d.size

/-- whatever the allocators answer, an event has its size, and there is none that no object can supply -/
def CreateSound (cfg : StorageConfig) (desc : M → NmemDesc) (st : EventStorage M) (mems : List M)
    (size : ℕ) : Prop :=
  ∀ alloc, AllocCorrect desc alloc → ∀ (m : EventMem MemBlock M) (id : ℕ),
    ∃ r m', neventCreateI cfg (fun x => (desc x).size) st alloc m size id = .ok (r, m') ∧
      (∀ b, r = some b → size ≤ b.len) ∧ ((∀ x ∈ mems, ¬ CanSupply (desc x) size) → r = none)

theorem neventCreateI_eq {x : M} (hfind : findMemoryI cfg (fun y => (desc y).size) st size = .ok (some x))
    (alloc : M → ℕ → Option MemBlock) (m : EventMem MemBlock M) (id : ℕ) :
    ∃ m', neventCreateI cfg (fun y => (desc y).size) st alloc m size id
      = .ok (alloc x size, m') := by
  unfold neventCreateI
  rw [hfind, ok_bind]
  show ∃ m', Except.ok (neventCreate m id x (alloc x size)) = _
  cases alloc x size with
  | none => exact ⟨_, rfl⟩
  | some e => exact ⟨_, rfl⟩

theorem createSound_of {x : M}
    (hfind : findMemoryI cfg (fun y => (desc y).size) st size = .ok (some x)) (hx : x ∈ mems)
    (hpool : (desc x).cls = .pool → size ≤ (desc x).blockSize) :
    CreateSound cfg desc st mems size := by
  intro alloc halloc m id
  obtain ⟨m', hrun⟩ := neventCreateI_eq hfind alloc m id
  refine ⟨_, m', hrun, fun b hb => ?_, fun hnone => ?_⟩
  · have hlen := halloc x size b hb
    split at hlen
    · rw [hlen]
      exact hpool ‹_›
    · exact hlen.1
  · by_contra hne
    obtain ⟨b, hb⟩ := Option.ne_none_iff_exists'.mp hne
    have hlen := halloc x size b hb
    apply hnone x hx
    unfold CanSupply
    split at hlen
    · rw [if_pos ‹_›]
      exact hpool ‹_›
    · rw [if_neg ‹_›]
      omega

/-- all pools have a free block, the other objects have none left -/
def poolsAnswer (desc : M → NmemDesc) (m : M) (_ : ℕ) : Option MemBlock :=
  if (desc m).cls = .pool then some ⟨0, (desc m).blockSize⟩ else none

theorem poolsAnswer_correct : AllocCorrect desc (poolsAnswer desc) := by
  intro m size b hb
  unfold poolsAnswer at hb
  split at hb
  · rw [if_pos ‹_›, ← Option.some.inj hb]
  · cases hb

theorem not_createSound_of {x : M}
    (hfind : findMemoryI cfg (fun y => (desc y).size) st size = .ok (some x))
    (hpool : (desc x).cls = .pool) (hsmall : (desc x).blockSize < size) :
    ¬ CreateSound cfg desc st mems size := by
  intro h
  obtain ⟨r, m', hrun, hr, _⟩ := h (poolsAnswer desc) poolsAnswer_correct
    ⟨fun _ => ⟨none, 0, 0, 0⟩, []⟩ 0
  obtain ⟨m₁, hrun₁⟩ := neventCreateI_eq hfind (poolsAnswer desc)
    ⟨fun _ => ⟨none, 0, 0, 0⟩, []⟩ 0
  have hanswer : r = poolsAnswer desc x size :=
    congrArg Prod.fst (Except.ok.inj (hrun.symm.trans hrun₁))
  have hle : size ≤ (desc x).blockSize :=
    hr ⟨0, (desc x).blockSize⟩ (hanswer.trans (if_pos hpool))
  omega

/-- **The memory of an event** has the size that was asked for, and NULL is returned where no object can
supply it, exactly when an object is registered and the one that serves the size is not a pool of
smaller blocks. -/
theorem createSound_iff (cfg : StorageConfig) (desc : M → NmemDesc) (st : EventStorage M)
    (mems : List M) (hmems : Registered cfg st mems) (size : ℕ) :
    CreateSound cfg desc st mems size ↔ mems ≠ [] ∧ ∀ x,
      ServedBy (fun y => (desc y).size) size mems x → (desc x).cls = .pool →
        size ≤ (desc x).blockSize := by
  by_cases hne : mems = []
  · apply iff_of_false
    · intro h
      obtain ⟨r, m', hrun, _⟩ := h (poolsAnswer desc) poolsAnswer_correct
        ⟨fun _ => ⟨none, 0, 0, 0⟩, []⟩ 0
      rw [hne] at hmems
      unfold neventCreateI at hrun
      rw [findMemoryI_nil hmems] at hrun
      cases hrun
    · exact fun h => h.1 hne
  · obtain ⟨x, hfind, hx⟩ := findMemoryI_eq (fun y => (desc y).size) size hmems hne
    have hserved := (hx x).mpr rfl
    constructor
    · intro h
      refine ⟨hne, fun y hy hpool => ?_⟩
      rw [(hx y).mp hy] at hpool ⊢
      by_contra hsmall
      exact not_createSound_of hfind hpool (Nat.lt_of_not_le hsmall) h
    · intro ⟨_, h⟩
      obtain ⟨pre, post, hsplit, _⟩ := hserved
      apply createSound_of hfind
      · rw [hsplit]
        exact List.mem_append_right pre List.mem_cons_self
      · exact h x ((hx x).mpr rfl)

/-! ### a pool of four blocks and a heap -/

/-- a pool of 64 bytes in four blocks, a heap of 256 bytes -/
def poolAndHeap : Bool → NmemDesc
  | false => ⟨.pool, 64, 4⟩
  | true => ⟨.heap, 256, 1⟩

def poolAndHeapStorage : EventStorage Bool where
  mem
    | 0 => some false
    | 1 => some true
    | _ => none
  pools := 2

theorem poolAndHeap_registered : Registered ⟨4, 8⟩ poolAndHeapStorage [false, true] := by
  refine ⟨⟨rfl, by decide, rfl, rfl, trivial⟩, fun i hi => ?_⟩
  match i, hi with
  | i + 2, _ => rfl

/-- events of 80 bytes come from the heap -/
theorem createSound_heap :
    CreateSound ⟨4, 8⟩ poolAndHeap poolAndHeapStorage [false, true] 80 := by
  refine (createSound_iff ⟨4, 8⟩ poolAndHeap poolAndHeapStorage [false, true]
    poolAndHeap_registered 80).mpr ⟨List.cons_ne_nil _ _, fun x hx hpool => ?_⟩
  have hheap := (servedBy_cons_of_lt (by decide)).mp hx
  rw [servedBy_singleton.mp hheap] at hpool
  cases hpool

/-- events of 40 bytes come from the blocks of 16 bytes -/
theorem pool_not_createSound :
    Registered ⟨4, 8⟩ poolAndHeapStorage [false, true] ∧
    ¬ CreateSound ⟨4, 8⟩ poolAndHeap poolAndHeapStorage [false, true] 40 :=
  ⟨poolAndHeap_registered, not_createSound_of (x := false) rfl rfl (by decide)⟩

end

end NeonEds
