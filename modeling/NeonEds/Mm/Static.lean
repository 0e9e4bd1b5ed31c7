import NeonEds.Lib.Exec
import NeonEds.Mm.Align

/-!
# Static memory (source/static.c, include/mm/static.h)

The functions of `static.c`: blocks are cut from the end of the storage.  The signature and the lock are left
out, and `static_free`, which asserts that it is never called.  `StaticBundle` is what `NSTATICMEM_BUNDLE_DEFINE` makes where
`static_init_alloc` accepts it.

* `staticAlloc_served`, `staticAlloc_refused`   a request whose rounding is a `size_t`;
* `staticAlloc_wraps`      else it is rounded to nothing, and gets no byte;
* `StaticRep`              the blocks lie above the bytes that are left;
* `staticRunSound_iff`     exactly when all blocks of a run are aligned, apart and large enough.
-/

namespace NeonEds
open Exec

/-- The directories of `port/`, for the sizes and the alignment that their headers state.  The one of
`dspic33e` has no `arch/p_core.h`; its values are those of its `arch/cpu.h`. -/
inductive CpuPort where
  | dspic33e
  | pic32
  | stm32f4xx
  | x8664Linux
  deriving DecidableEq

namespace CpuPort

def sizeBits : CpuPort → ℕ
  | dspic33e => 16
  | pic32 => 32
  | stm32f4xx => 32
  | x8664Linux => 64

/-- the bits of an `unsigned int` -/
def intBits : CpuPort → ℕ
  | dspic33e => 16
  | pic32 => 32
  | stm32f4xx => 32
  | x8664Linux => 32

/-- `NCPU_DATA_ALIGNMENT` -/
def dataAlignment : CpuPort → ℕ
  | dspic33e => 2
  | pic32 => 4
  | stm32f4xx => 4
  | x8664Linux => 8

/-- `NALIGN_UP(size, NCPU_DATA_ALIGNMENT)`: the mask is an `unsigned int` -/
def alignUp (P : CpuPort) (size : ℕ) : ℕ :=
  (size + P.dataAlignment - 1) % 2 ^ P.sizeBits &&& (2 ^ P.intBits - 1 - (P.dataAlignment - 1))

end CpuPort

/-- what `vf_alloc` of a static memory points to -/
inductive StaticAlloc where
  | staticInitAlloc
  | staticAlloc
  deriving DecidableEq

structure StaticMem where
  vfAlloc : StaticAlloc
  /-- `vf_free` points to `static_free`, else it is NULL -/
  vfFree : Bool
  base : ℕ
  free : ℕ
  size : ℕ

section
variable (P : CpuPort) (apiValidation : Bool)

def staticAlloc (staticObj : StaticMem) (size : ℕ) : Exec (ℕ × StaticMem) := do
  require apiValidation (size ≠ 0 ∧ size < 2 ^ 31 - 1)
  let size := P.alignUp size
  if size ≤ staticObj.free then
    let free := staticObj.free - size
    return ((staticObj.base + free) % 2 ^ P.sizeBits, { staticObj with free := free })
  else return (0, staticObj)

/-- `static_init_alloc` without the request -/
def staticSetUp (staticObj : StaticMem) : StaticMem :=
  { staticObj with free := staticObj.size, vfAlloc := .staticAlloc, vfFree := true }

def staticInitAlloc (staticObj : StaticMem) (size : ℕ) : Exec (ℕ × StaticMem) := do
  require apiValidation (staticObj.base ≠ 0)
  require apiValidation (staticObj.size ≥ P.dataAlignment)
  staticAlloc P apiValidation (staticSetUp staticObj) size

/-! ## the call through the memory object -/

def staticNmemAllocI (memObj : StaticMem) (size : ℕ) : Exec (ℕ × StaticMem) :=
  match memObj.vfAlloc with
  | .staticInitAlloc => staticInitAlloc P apiValidation memObj size
  | .staticAlloc => staticAlloc P apiValidation memObj size

/-! ## `NSTATICMEM_BUNDLE_DEFINE` -/

/-- `sizeof(instance.storage)`, an array of `uint32_t` -/
def staticStorageSize (size : ℕ) : ℕ := (size + 4 - 1) % 2 ^ P.sizeBits / 4 * 4

end

/-- a static memory of some bytes, at an address -/
structure StaticBundle (P : CpuPort) where
  bytes : ℕ
  base : ℕ
  base_pos : 0 < base
  aligned : P.dataAlignment ∣ base
  in_memory : base + staticStorageSize P bytes < 2 ^ P.sizeBits
  accepted : P.dataAlignment ≤ staticStorageSize P bytes

namespace StaticBundle
variable {P : CpuPort} (b : StaticBundle P)

def size : ℕ := staticStorageSize P b.bytes

/-- the initializer of the bundle -/
def init : StaticMem where
  vfAlloc := .staticInitAlloc
  vfFree := false
  base := b.base
  free := 0
  size := b.size

end StaticBundle

/-! ## runs -/

/-- the set up that the first request makes -/
def staticLazyInit (m : StaticMem) : StaticMem :=
  match m.vfAlloc with
  | .staticInitAlloc => staticSetUp m
  | .staticAlloc => m

/-- a request that `static_alloc` admits -/
def StaticRequest (P : CpuPort) (n : ℕ) : Prop := 1 ≤ n ∧ n < 2147483647 ∧ n < 2 ^ P.sizeBits

/-- what is asked of a run: `blocks` are the results of the earlier requests with their sizes -/
def StaticRunSound {P : CpuPort} (apiValidation : Bool) (b : StaticBundle P) :
    StaticMem → List (ℕ × ℕ) → List ℕ → Prop
  | _, _, [] => True
  | m, blocks, n :: ns => ∃ r m', staticNmemAllocI P apiValidation m n = .ok (r, m') ∧
      (r ≠ 0 → P.dataAlignment ∣ r ∧ b.base ≤ r ∧ r + n ≤ b.base + b.size ∧
        ∀ x ∈ blocks, r + n ≤ x.1 ∨ x.1 + x.2 ≤ r) ∧
      (r = 0 → (staticLazyInit m).free < roundUp n P.dataAlignment ∧ m' = staticLazyInit m) ∧
      StaticRunSound apiValidation b m' (if r = 0 then blocks else (r, n) :: blocks) ns

/-! ## a request -/

namespace CpuPort

theorem alignment_eq (P : CpuPort) : ∃ k, P.dataAlignment = 2 ^ k ∧ k ≤ P.intBits := by
  cases P with
  | dspic33e => exact ⟨1, rfl, by decide⟩
  | pic32 => exact ⟨2, rfl, by decide⟩
  | stm32f4xx => exact ⟨2, rfl, by decide⟩
  | x8664Linux => exact ⟨3, rfl, by decide⟩

/-- the sum is an `unsigned int`, so the mask cuts nothing off -/
theorem sum_lt (P : CpuPort) {n : ℕ} (hn : n < 2147483647) :
    (n + P.dataAlignment - 1) % 2 ^ P.sizeBits < 2 ^ P.intBits := by
  cases P with
  | dspic33e => exact Nat.mod_lt _ (Nat.two_pow_pos 16)
  | pic32 => exact Nat.mod_lt _ (Nat.two_pow_pos 32)
  | stm32f4xx => exact Nat.mod_lt _ (Nat.two_pow_pos 32)
  | x8664Linux =>
    refine lt_of_le_of_lt (Nat.mod_le _ _) ?_
    show n + 8 - 1 < 2 ^ 32
    omega

theorem alignUp_eq (P : CpuPort) {n : ℕ} (hn : n < 2147483647) :
    P.alignUp n = (n + P.dataAlignment - 1) % 2 ^ P.sizeBits / P.dataAlignment * P.dataAlignment := by
  obtain ⟨k, hk, hle⟩ := P.alignment_eq
  have hlt := P.sum_lt hn
  unfold alignUp
  rw [hk] at hlt ⊢
  exact and_mask_eq hlt hle

end CpuPort

section
variable {P : CpuPort} {apiValidation : Bool} {m : StaticMem} {n : ℕ}

theorem alignUp_fits (h : StaticRequest P n) (hfit : n + P.dataAlignment - 1 < 2 ^ P.sizeBits) :
    P.alignUp n = roundUp n P.dataAlignment := by
  rw [P.alignUp_eq h.2.1, Nat.mod_eq_of_lt hfit]
  rfl

theorem alignUp_wraps (h : StaticRequest P n) (hwrap : ¬ n + P.dataAlignment - 1 < 2 ^ P.sizeBits) :
    P.alignUp n = 0 := by
  have hlt := h.2.2
  have hsum : (n + P.dataAlignment - 1) % 2 ^ P.sizeBits < P.dataAlignment := by
    rw [Nat.mod_eq_sub_mod (Nat.le_of_not_lt hwrap)]
    exact lt_of_le_of_lt (Nat.mod_le _ _) (by omega)
  rw [P.alignUp_eq h.2.1, Nat.div_eq_of_lt hsum, Nat.zero_mul]

theorem staticAlloc_eq (h : StaticRequest P n) : staticAlloc P apiValidation m n =
    if P.alignUp n ≤ m.free then
      .ok ((m.base + (m.free - P.alignUp n)) % 2 ^ P.sizeBits, { m with free := m.free - P.alignUp n })
    else .ok (0, m) := by
  have h1 := h.1
  have h2 := h.2.1
  unfold staticAlloc
  rw [require_of ⟨by omega, by omega⟩, ok_bind]
  rfl

/-- **A request that is served** gets the last bytes that are left. -/
theorem staticAlloc_served (h : StaticRequest P n) (hfit : n + P.dataAlignment - 1 < 2 ^ P.sizeBits)
    (hle : roundUp n P.dataAlignment ≤ m.free) (hmem : m.base + m.free < 2 ^ P.sizeBits) :
    staticAlloc P apiValidation m n = .ok (m.base + (m.free - roundUp n P.dataAlignment),
      { m with free := m.free - roundUp n P.dataAlignment }) := by
  rw [staticAlloc_eq h, alignUp_fits h hfit, if_pos hle, Nat.mod_eq_of_lt (by omega)]

theorem staticAlloc_refused (h : StaticRequest P n) (hfit : n + P.dataAlignment - 1 < 2 ^ P.sizeBits)
    (hlt : m.free < roundUp n P.dataAlignment) : staticAlloc P apiValidation m n = .ok (0, m) := by
  rw [staticAlloc_eq h, alignUp_fits h hfit, if_neg (Nat.not_le_of_lt hlt)]

/-- **A request whose rounding is no `size_t`** is rounded to nothing. -/
theorem staticAlloc_wraps (h : StaticRequest P n) (hwrap : ¬ n + P.dataAlignment - 1 < 2 ^ P.sizeBits)
    (hmem : m.base + m.free < 2 ^ P.sizeBits) :
    staticAlloc P apiValidation m n = .ok (m.base + m.free, m) := by
  rw [staticAlloc_eq h, alignUp_wraps h hwrap, if_pos (Nat.zero_le _), Nat.sub_zero,
    Nat.mod_eq_of_lt hmem]

end

/-! ## a static memory in use -/

structure StaticRep {P : CpuPort} (b : StaticBundle P) (m : StaticMem) (blocks : List (ℕ × ℕ)) : Prop where
  vfAlloc : m.vfAlloc = .staticAlloc
  base_eq : m.base = b.base
  free_le : m.free ≤ b.size
  /-- the blocks lie above the bytes that are left -/
  above : ∀ x ∈ blocks, b.base + m.free ≤ x.1

namespace StaticRep
variable {P : CpuPort} {apiValidation : Bool} {b : StaticBundle P} {m : StaticMem}
  {blocks : List (ℕ × ℕ)} {n : ℕ}

theorem alignment_pos (P : CpuPort) : 0 < P.dataAlignment := by
  cases P <;> decide

theorem in_memory (h : StaticRep b m blocks) : m.base + m.free < 2 ^ P.sizeBits := by
  have hin : b.base + b.size < 2 ^ P.sizeBits := b.in_memory
  have hle := h.free_le
  rw [h.base_eq]
  omega

theorem call (h : StaticRep b m blocks) :
    staticNmemAllocI P apiValidation m n = staticAlloc P apiValidation m n := by
  unfold staticNmemAllocI
  rw [h.vfAlloc]

theorem lazyInit (h : StaticRep b m blocks) : staticLazyInit m = m := by
  unfold staticLazyInit
  rw [h.vfAlloc]

theorem take (h : StaticRep b m blocks) {k : ℕ} (hle : k ≤ m.free) :
    StaticRep b { m with free := m.free - k } ((m.base + (m.free - k), n) :: blocks) := by
  have hfree := h.free_le
  refine ⟨h.vfAlloc, h.base_eq, ?_, fun x hx => ?_⟩
  · show m.free - k ≤ b.size
    omega
  · show b.base + (m.free - k) ≤ x.1
    rcases List.mem_cons.mp hx with rfl | hx
    · rw [h.base_eq]
    · have := h.above x hx
      omega

theorem alloc {r : ℕ} {m' : StaticMem} (h : StaticRep b m blocks) (hn : StaticRequest P n)
    (hrun : staticAlloc P apiValidation m n = .ok (r, m')) :
    StaticRep b m' (if r = 0 then blocks else (r, n) :: blocks) ∧
      m'.free + (if r = 0 then 0 else P.alignUp n) = m.free := by
  have hpos := b.base_pos
  rw [staticAlloc_eq hn] at hrun
  split at hrun
  · rename_i hle
    obtain ⟨hr, rfl⟩ := Prod.mk.inj (Except.ok.inj hrun)
    have hin := h.in_memory
    have hbase := h.base_eq
    rw [Nat.mod_eq_of_lt (by omega)] at hr
    rw [if_neg (by omega), if_neg (by omega), ← hr]
    exact ⟨h.take hle, Nat.sub_add_cancel hle⟩
  · obtain ⟨rfl, rfl⟩ := Prod.mk.inj (Except.ok.inj hrun)
    exact ⟨h, Nat.add_zero _⟩

theorem sound_cons {r : ℕ} {m' : StaticMem} {ns : List ℕ}
    (hrun : staticNmemAllocI P apiValidation m n = .ok (r, m')) :
    StaticRunSound apiValidation b m blocks (n :: ns) ↔
      (r ≠ 0 → P.dataAlignment ∣ r ∧ b.base ≤ r ∧ r + n ≤ b.base + b.size ∧
        ∀ x ∈ blocks, r + n ≤ x.1 ∨ x.1 + x.2 ≤ r) ∧
      (r = 0 → (staticLazyInit m).free < roundUp n P.dataAlignment ∧ m' = staticLazyInit m) ∧
      StaticRunSound apiValidation b m' (if r = 0 then blocks else (r, n) :: blocks) ns := by
  constructor
  · intro ⟨r', m'', hrun', hsound⟩
    obtain ⟨rfl, rfl⟩ := Prod.mk.inj (Except.ok.inj (hrun.symm.trans hrun'))
    exact hsound
  · exact fun hsound => ⟨r, m', hrun, hsound⟩

/-- the bytes that are left are as aligned as the block that is cut from them -/
theorem aligned_iff (h : StaticRep b m blocks) (h1 : 1 ≤ n) (hle : roundUp n P.dataAlignment ≤ m.free) :
    P.dataAlignment ∣ m.base + (m.free - roundUp n P.dataAlignment) ↔ P.dataAlignment ∣ m.free := by
  have hdvd := (roundUp_ok h1 (alignment_pos P)).2.1
  rw [h.base_eq, Nat.dvd_add_right b.aligned, Nat.dvd_sub_iff_left hle hdvd]

theorem sound_served {ns : List ℕ} (h : StaticRep b m blocks) (hn : StaticRequest P n)
    (hfit : n + P.dataAlignment - 1 < 2 ^ P.sizeBits) (hle : roundUp n P.dataAlignment ≤ m.free) :
    StaticRunSound apiValidation b m blocks (n :: ns) ↔ P.dataAlignment ∣ m.free ∧
      StaticRunSound apiValidation b { m with free := m.free - roundUp n P.dataAlignment }
        ((m.base + (m.free - roundUp n P.dataAlignment), n) :: blocks) ns := by
  have hround := (roundUp_ok hn.1 (alignment_pos P)).1
  have hr : m.base + (m.free - roundUp n P.dataAlignment) ≠ 0 := by
    have hpos := b.base_pos
    rw [h.base_eq]
    omega
  rw [sound_cons (h.call.trans (staticAlloc_served hn hfit hle h.in_memory)), if_neg hr]
  constructor
  · intro ⟨hblock, _, hrest⟩
    exact ⟨(h.aligned_iff hn.1 hle).mp (hblock hr).1, hrest⟩
  · intro ⟨haligned, hrest⟩
    refine ⟨fun _ => ⟨(h.aligned_iff hn.1 hle).mpr haligned, ?_, ?_, fun x hx => Or.inl ?_⟩,
      fun h0 => absurd h0 hr, hrest⟩
    · rw [h.base_eq]
      exact Nat.le_add_right ..
    · have hfree := h.free_le
      rw [h.base_eq]
      omega
    · have habove := h.above x hx
      rw [h.base_eq]
      omega

theorem sound_refused {ns : List ℕ} (h : StaticRep b m blocks) (hn : StaticRequest P n)
    (hfit : n + P.dataAlignment - 1 < 2 ^ P.sizeBits) (hlt : m.free < roundUp n P.dataAlignment) :
    StaticRunSound apiValidation b m blocks (n :: ns) ↔ StaticRunSound apiValidation b m blocks ns := by
  rw [sound_cons (h.call.trans (staticAlloc_refused hn hfit hlt)), if_pos rfl, h.lazyInit]
  constructor
  · exact fun ⟨_, _, hrest⟩ => hrest
  · exact fun hrest => ⟨fun h0 => absurd rfl h0, fun _ => ⟨hlt, rfl⟩, hrest⟩

/-- the storage is smaller than a request that is rounded to nothing -/
theorem not_sound_wraps {ns : List ℕ} (h : StaticRep b m blocks) (hn : StaticRequest P n)
    (hwrap : ¬ n + P.dataAlignment - 1 < 2 ^ P.sizeBits) :
    ¬ StaticRunSound apiValidation b m blocks (n :: ns) := by
  have hpos := b.base_pos
  have hin : b.base + b.size < 2 ^ P.sizeBits := b.in_memory
  have hr : m.base + m.free ≠ 0 := by
    rw [h.base_eq]
    omega
  rw [sound_cons (h.call.trans (staticAlloc_wraps hn hwrap h.in_memory))]
  intro ⟨hblock, _⟩
  obtain ⟨_, _, hend, _⟩ := hblock hr
  rw [h.base_eq] at hend
  have haligned := Nat.le_of_dvd hpos b.aligned
  omega

/-- **A run from a static memory in use.** -/
theorem run (ns : List ℕ) : ∀ {m : StaticMem} {blocks : List (ℕ × ℕ)}, StaticRep b m blocks →
    (∀ n ∈ ns, StaticRequest P n) →
    (StaticRunSound apiValidation b m blocks ns ↔
      (∀ n ∈ ns, n + P.dataAlignment - 1 < 2 ^ P.sizeBits) ∧
        (P.dataAlignment ∣ m.free ∨ ∀ n ∈ ns, m.free < roundUp n P.dataAlignment)) := by
  induction ns with
  | nil =>
    intro m blocks _ _
    exact iff_of_true trivial ⟨List.forall_mem_nil _, Or.inr (List.forall_mem_nil _)⟩
  | cons n ns ih =>
    intro m blocks h hreq
    obtain ⟨hn, hns⟩ := List.forall_mem_cons.mp hreq
    rw [List.forall_mem_cons, List.forall_mem_cons]
    by_cases hfit : n + P.dataAlignment - 1 < 2 ^ P.sizeBits
    · by_cases hle : roundUp n P.dataAlignment ≤ m.free
      · have hdvd := (roundUp_ok hn.1 (alignment_pos P)).2.1
        rw [h.sound_served hn hfit hle, ih (h.take hle) hns]
        constructor
        · exact fun ⟨haligned, hfits, _⟩ => ⟨⟨hfit, hfits⟩, Or.inl haligned⟩
        · intro ⟨⟨_, hfits⟩, hor⟩
          have haligned := hor.resolve_right fun hlt => Nat.not_lt_of_le hle hlt.1
          exact ⟨haligned, hfits, Or.inl ((Nat.dvd_sub_iff_left hle hdvd).mpr haligned)⟩
      · have hlt := Nat.lt_of_not_le hle
        rw [h.sound_refused hn hfit hlt, ih h hns]
        constructor
        · exact fun ⟨hfits, hor⟩ => ⟨⟨hfit, hfits⟩, hor.imp_right fun hall => ⟨hlt, hall⟩⟩
        · exact fun ⟨⟨_, hfits⟩, hor⟩ => ⟨hfits, hor.imp_right fun hall => hall.2⟩
    · exact iff_of_false (h.not_sound_wraps hn hfit) fun ⟨hfits, _⟩ => hfit hfits.1

end StaticRep

/-! ## the first request -/

section
variable {P : CpuPort} {apiValidation : Bool} (b : StaticBundle P)

theorem StaticBundle.rep : StaticRep b (staticSetUp b.init) [] :=
  ⟨rfl, rfl, Nat.le_refl _, List.forall_mem_nil _⟩

theorem StaticBundle.call (n : ℕ) : staticNmemAllocI P apiValidation b.init n
    = staticAlloc P apiValidation (staticSetUp b.init) n := by
  show (require apiValidation (b.base ≠ 0) >>= fun _ =>
    require apiValidation (b.size ≥ P.dataAlignment) >>= fun _ => _) = _
  rw [require_of (Nat.ne_of_gt b.base_pos), ok_bind,
    require_of (show b.size ≥ P.dataAlignment from b.accepted), ok_bind]

theorem StaticBundle.sound_setUp (ns : List ℕ) : StaticRunSound apiValidation b b.init [] ns ↔
    StaticRunSound apiValidation b (staticSetUp b.init) [] ns := by
  cases ns with
  | nil => exact Iff.rfl
  | cons n ns =>
    unfold StaticRunSound
    rw [b.call, b.rep.call]
    exact Iff.rfl

/-- **All blocks of a run are aligned, apart and large enough** exactly if no request is rounded to
nothing, and the size of the storage is a multiple of the alignment or nothing is served. -/
theorem staticRunSound_iff (P : CpuPort) (apiValidation : Bool) (b : StaticBundle P) {ns : List ℕ}
    (h : ∀ n ∈ ns, StaticRequest P n) :
    StaticRunSound apiValidation b b.init [] ns ↔
      (∀ n ∈ ns, n + P.dataAlignment - 1 < 2 ^ P.sizeBits) ∧
        (P.dataAlignment ∣ b.size ∨ ∀ n ∈ ns, b.size < roundUp n P.dataAlignment) :=
  (b.sound_setUp ns).trans (b.rep.run ns h)

end

/-- two storages of the x86-64 port -/
def static16 : StaticBundle .x8664Linux := ⟨16, 4096, by decide, by decide, by decide, by decide⟩

def static12 : StaticBundle .x8664Linux := ⟨12, 4096, by decide, by decide, by decide, by decide⟩

theorem staticRunSound_iff_static16 : StaticRunSound true static16 static16.init [] [8, 1, 3] ↔
    (∀ n ∈ [8, 1, 3], n + CpuPort.x8664Linux.dataAlignment - 1 < 2 ^ CpuPort.x8664Linux.sizeBits) ∧
      (CpuPort.x8664Linux.dataAlignment ∣ static16.size ∨
        ∀ n ∈ [8, 1, 3], static16.size < roundUp n CpuPort.x8664Linux.dataAlignment) := by
  refine staticRunSound_iff .x8664Linux true static16 ?_
  simp only [List.forall_mem_cons, List.not_mem_nil, false_implies, implies_true, and_true]
  exact ⟨⟨by decide, by decide, by decide⟩, ⟨by decide, by decide, by decide⟩,
    ⟨by decide, by decide, by decide⟩⟩

/-- the first block of 12 bytes lies at 4 bytes from the start -/
theorem static12_not_sound : ¬ StaticRunSound true static12 static12.init [] [8] := by
  intro h
  have haligned := ((static12.rep.sound_served ⟨by decide, by decide, by decide⟩ (by decide)
    (by decide)).mp ((static12.sound_setUp [8]).mp h)).1
  exact absurd haligned (by decide)

end NeonEds
