import NeonEds.Mm.HeapCalls

/-!
# Runs of the heap

A run is a list of requests, releases and writes of the users into their payloads, from a memory object
whose storage is not set up yet.  `live` is what a watcher knows: the payloads that are out, with the
sizes that were asked for.

`heapRunSound`: in every legal run the heap is sound after every call (`HeapSound`), a request is served
with a payload that was not out, and refused only where no free block has room for it (`NoRoom`).
-/

namespace NeonEds
open Exec

inductive HeapOp where
  | alloc (size : ℕ)
  | free (mem : ℕ)
  /-- the user of the payload `mem` writes a byte of it -/
  | write (mem offset : ℕ) (byte : BitVec 8)

def writeByte (m : Nmem) (a : ℕ) (byte : BitVec 8) : Nmem :=
  { m with storage := { m.storage with byte := Function.update m.storage.byte a byte } }

section
variable (P : HeapPort)

/-- the pointer that a request gets, and the memory object after the call -/
def runHeapOp (m : Nmem) : HeapOp → Exec (ℕ × Nmem)
  | .alloc size => nmemAllocI P m size
  | .free mem => do
    let m ← nmemFreeI P m mem
    return (0, m)
  | .write mem offset byte => .ok (0, writeByte m (mem + offset) byte)

/-- the size of a payload, as its header says -/
def payload (m : Nmem) (mem : ℕ) : ℕ :=
  ((blocksOf P m.storage).tags.size (mem - P.sizeofHeapPhy)).natAbs

def heapLiveAfter (live : ℕ → Option ℕ) : HeapOp → ℕ → ℕ → Option ℕ
  | .alloc size, r => if r = 0 then live else Function.update live r (some size)
  | .free mem, _ => Function.update live mem none
  | .write .., _ => live

theorem heapLiveAfter_alloc (live : ℕ → Option ℕ) (size r : ℕ) : heapLiveAfter live (.alloc size) r
    = if r = 0 then live else Function.update live r (some size) := rfl

/-- the rounding of a request is an `int32_t`, only live payloads are given back and written -/
def LegalHeapOp (m : Nmem) (live : ℕ → Option ℕ) : HeapOp → Prop
  | .alloc size => 1 ≤ size ∧ roundUp size P.sizeofHeapPhy < 2147483648
  | .free mem => (live mem).isSome
  | .write mem offset _ => (live mem).isSome ∧ offset < payload P m mem

def LegalHeapRun : Nmem → (ℕ → Option ℕ) → List HeapOp → Prop
  | _, _, [] => True
  | m, live, op :: ops => LegalHeapOp P m live op ∧
      ∀ r m', runHeapOp P m op = .ok (r, m') → LegalHeapRun m' (heapLiveAfter live op r) ops

/-- the live payloads are those of the blocks in use -/
structure LiveOk (bs : List ℕ) (B : HeapBlocks) (live : ℕ → Option ℕ) : Prop where
  block : ∀ p n, live p = some n → ∃ b k, p = b + P.sizeofHeapPhy ∧ used bs B b = some k ∧ n ≤ k
  live : ∀ b k, used bs B b = some k → ∃ n, live (b + P.sizeofHeapPhy) = some n

/-- what holds of a heap between the calls -/
structure HeapSound (base : ℕ) (m : Nmem) (live : ℕ → Option ℕ) : Prop where
  lo : m.storage.lo = base
  hi : m.storage.hi = m.base + P.sizeofHeapBlock
  blocks : ∃ bs fl, HeapRep P base m.base bs fl (blocksOf P m.storage) ∧
    LiveOk P bs (blocksOf P m.storage) live
  payloads : ∀ p n, live p = some n → m.storage.lo ≤ p ∧ p + payload P m p ≤ m.storage.hi ∧
    n ≤ payload P m p ∧ P.sizeofHeapPhy ∣ p - base
  disjoint : ∀ p q, (live p).isSome → (live q).isSome → p ≠ q →
    p + payload P m p ≤ q ∨ q + payload P m q ≤ p

/-- no free block has room for the request -/
def NoRoom (base : ℕ) (m : Nmem) (size : ℕ) : Prop :=
  match m.vfAlloc with
  | .heapInitAlloc => m.size < roundUp size P.sizeofHeapPhy + P.sizeofHeapBlock + P.sizeofHeapPhy
  | .heapAlloc => ∃ bs fl, HeapRep P base m.base bs fl (blocksOf P m.storage) ∧
      ∀ b ∈ fl, (blocksOf P m.storage).tags.size b < roundUp size P.sizeofHeapPhy

/-- with the validation of the API a request that is refused is a failed assertion -/
def HeapRunSound (base : ℕ) : Nmem → (ℕ → Option ℕ) → List HeapOp → Prop
  | _, _, [] => True
  | m, live, op :: ops =>
      (∀ f, runHeapOp P m op = .error f → f = .assertion ∧ P.apiValidation = true ∧
        ∃ size, op = .alloc size ∧ NoRoom P base m size) ∧
      ∀ r m', runHeapOp P m op = .ok (r, m') →
        HeapSound P base m' (heapLiveAfter live op r) ∧
        (∀ size, op = .alloc size → r = 0 → NoRoom P base m size) ∧
        (∀ size, op = .alloc size → r ≠ 0 → live r = none) ∧
        HeapRunSound base m' (heapLiveAfter live op r) ops

end

section
variable {P : HeapPort} {base size : ℕ} {m : Nmem} {bs fl bs' : List ℕ} {B B' : HeapBlocks}
  {live : ℕ → Option ℕ} {c k n : ℕ}

namespace LiveOk

theorem none (h : used bs B = fun _ => none) : LiveOk P bs B (fun _ => Option.none) := by
  refine ⟨fun p n hp => (by cases hp), fun b k hb => ?_⟩
  rw [h] at hb
  cases hb

theorem fresh (h : LiveOk P bs B live) (hc : used bs B c = Option.none) :
    live (c + P.sizeofHeapPhy) = Option.none := by
  rw [Option.eq_none_iff_forall_ne_some]
  intro n hlive
  obtain ⟨b, k, hb, hbused, _⟩ := h.block _ n hlive
  rw [Nat.add_right_cancel hb, hbused] at hc
  cases hc

theorem alloc (h : LiveOk P bs B live) (hn : n ≤ k)
    (hu : used bs' B' = Function.update (used bs B) c (some k)) :
    LiveOk P bs' B' (Function.update live (c + P.sizeofHeapPhy) (some n)) := by
  constructor
  · intro p n' hp
    by_cases hpc : p = c + P.sizeofHeapPhy
    · rw [hpc, Function.update_self] at hp
      refine ⟨c, k, hpc, by rw [hu, Function.update_self], ?_⟩
      rw [← Option.some.inj hp]
      exact hn
    · rw [Function.update_of_ne hpc] at hp
      obtain ⟨b, k', hb, hub, hle⟩ := h.block p n' hp
      have hbc : b ≠ c := fun e => hpc (by rw [hb, e])
      exact ⟨b, k', hb, by rw [hu, Function.update_of_ne hbc]; exact hub, hle⟩
  · intro b k' hb
    by_cases hbc : b = c
    · exact ⟨n, by rw [hbc, Function.update_self]⟩
    · rw [hu, Function.update_of_ne hbc] at hb
      obtain ⟨n', hl⟩ := h.live b k' hb
      exact ⟨n', by rw [Function.update_of_ne (by omega)]; exact hl⟩

theorem free (h : LiveOk P bs B live) (hu : used bs' B' = Function.update (used bs B) c Option.none) :
    LiveOk P bs' B' (Function.update live (c + P.sizeofHeapPhy) Option.none) := by
  constructor
  · intro p n hp
    by_cases hpc : p = c + P.sizeofHeapPhy
    · rw [hpc, Function.update_self] at hp
      cases hp
    · rw [Function.update_of_ne hpc] at hp
      obtain ⟨b, k, hb, hub, hle⟩ := h.block p n hp
      have hbc : b ≠ c := fun e => hpc (by rw [hb, e])
      exact ⟨b, k, hb, by rw [hu, Function.update_of_ne hbc]; exact hub, hle⟩
  · intro b k hb
    by_cases hbc : b = c
    · rw [hu, hbc, Function.update_self] at hb
      cases hb
    · rw [hu, Function.update_of_ne hbc] at hb
      obtain ⟨n, hl⟩ := h.live b k hb
      exact ⟨n, by rw [Function.update_of_ne (by omega)]; exact hl⟩

end LiveOk

namespace HeapOk

theorem payload_eq (hc : used bs (blocksOf P m.storage) c = some k) :
    payload P m (c + P.sizeofHeapPhy) = k := by
  have hsize := (used_eq_some.mp hc).2.1
  unfold payload
  rw [Nat.add_sub_cancel, hsize]
  omega

/-- **What the users see of a heap.** -/
theorem sound (h : HeapOk P base m bs fl) (hl : LiveOk P bs (blocksOf P m.storage) live) :
    HeapSound P base m live := by
  have hblk := P.sizeofHeapBlock_eq
  have hpos := P.sizeofHeapPhy_pos
  refine ⟨h.lo_eq, h.hi_eq, ⟨bs, fl, h.rep, hl⟩, fun p n hp => ?_, fun p q hp hq hpq => ?_⟩
  · obtain ⟨b, k, rfl, hb, hle⟩ := hl.block p n hp
    obtain ⟨hbm, hsize, _⟩ := used_eq_some.mp hb
    have hbd := h.block_le hbm
    have hal := h.rep.aligned b hbm
    have hoff : b + P.sizeofHeapPhy - base = (b - base) + P.sizeofHeapPhy := by omega
    rw [payload_eq hb, h.lo_eq, h.hi_eq, hoff]
    exact ⟨by omega, by omega, hle, Nat.dvd_add hal (dvd_refl _)⟩
  · obtain ⟨n, hn⟩ := Option.isSome_iff_exists.mp hp
    obtain ⟨n', hn'⟩ := Option.isSome_iff_exists.mp hq
    obtain ⟨b, k, rfl, hb, _⟩ := hl.block p n hn
    obtain ⟨b', k', rfl, hb', _⟩ := hl.block q n' hn'
    obtain ⟨hbm, hsize, _⟩ := used_eq_some.mp hb
    obtain ⟨hbm', hsize', _⟩ := used_eq_some.mp hb'
    have hap := h.apart_used hb (Or.inr hbm') (by omega)
    have hap' := h.apart_used hb' (Or.inr hbm) (by omega)
    rw [payload_eq hb, payload_eq hb']
    omega

/-- **A user writes into its payload.** -/
theorem write (h : HeapOk P base m bs fl) (hc : used bs (blocksOf P m.storage) c = some k)
    {offset : ℕ} (ho : offset < k) (byte : BitVec 8) :
    HeapOk P base (writeByte m (c + P.sizeofHeapPhy + offset) byte) bs fl ∧
      used bs (blocksOf P (writeByte m (c + P.sizeofHeapPhy + offset) byte).storage)
        = used bs (blocksOf P m.storage) := by
  obtain ⟨hcb, hz, _⟩ := used_eq_some.mp hc
  have hblk := P.sizeofHeapBlock_eq
  have hphy : P.sizeofHeapPhy = 2 * P.ptr := rfl
  have hp := P.ptr_eq
  have hcring := h.rep.notMem_ring hcb (by omega)
  obtain ⟨st', hst⟩ : ∃ st', st' = (writeByte m (c + P.sizeofHeapPhy + offset) byte).storage := ⟨_, rfl⟩
  have hm' : writeByte m (c + P.sizeofHeapPhy + offset) byte = { m with storage := st' } := by
    rw [hst]
    rfl
  have hlo : st'.lo = m.storage.lo := by rw [hst]; rfl
  have hhi : st'.hi = m.storage.hi := by rw [hst]; rfl
  have hbyte : ∀ x, x ≠ c + P.sizeofHeapPhy + offset → st'.byte x = m.storage.byte x := by
    intro x hx
    rw [hst]
    exact Function.update_of_ne hx ..
  rw [hm']
  clear hst hm'
  -- the other blocks
  have hother : ∀ b, b = m.base ∨ b ∈ bs → b ≠ c →
      (blocksOf P st').EqAt (blocksOf P m.storage) b := by
    intro b hb hbc
    apply blocksOf_eqAt
    intro x h1 h2
    apply hbyte
    have hap := h.apart_used hc hb hbc
    omega
  -- the header of the block
  have hprev : (blocksOf P st').tags.prev c = (blocksOf P m.storage).tags.prev c :=
    loadBytes_congr fun x h1 h2 => hbyte x (by omega)
  have hsize : (blocksOf P st').tags.size c = (blocksOf P m.storage).tags.size c := by
    rw [blocksOf_size, blocksOf_size, loadInt_congr fun x h1 h2 => hbyte x (by omega)]
  have hsizes : ∀ b, b = m.base ∨ b ∈ bs →
      (blocksOf P st').tags.size b = (blocksOf P m.storage).tags.size b := by
    intro b hb
    by_cases hbc : b = c
    · rw [hbc]
      exact hsize
    · exact (hother b hb hbc).size
  refine ⟨⟨h.rep.congr (fun b hb => ?_) hsizes (fun b hb => ?_), hlo.trans h.lo_eq,
    hhi.trans h.hi_eq, h.hi_lt, h.small, h.base_pos, h.vfAlloc, h.vfFree⟩, ?_⟩
  · by_cases hbc : b = c
    · rw [hbc]
      exact hprev
    · exact (hother b hb hbc).prev
  · exact (hother b (h.rep.mem_of_ring hb) (fun e => hcring (e ▸ hb))).free
  · funext b
    exact used_congr Iff.rfl (fun hb => hsizes b (Or.inr hb))

theorem alloc (h : HeapOk P base m bs fl) (hl : LiveOk P bs (blocksOf P m.storage) live) {n : ℕ}
    (h1 : 1 ≤ n) (hn : roundUp n P.sizeofHeapPhy < 2147483648) :
    (∀ f, heapAlloc P m n = .error f → f = .assertion ∧ P.apiValidation = true ∧
      ∀ b ∈ fl, (blocksOf P m.storage).tags.size b < roundUp n P.sizeofHeapPhy) ∧
    ∀ r m', heapAlloc P m n = .ok (r, m') →
      (∃ bs' fl', HeapOk P base m' bs' fl' ∧
        LiveOk P bs' (blocksOf P m'.storage) (heapLiveAfter live (.alloc n) r)) ∧
      (r = 0 → ∀ b ∈ fl, (blocksOf P m.storage).tags.size b < roundUp n P.sizeofHeapPhy) ∧
      (r ≠ 0 → live r = none) := by
  have hpos := P.sizeofHeapPhy_pos
  rcases heapAlloc_ok h h1 hn with ⟨c, st', bs', fl', k, hrun, hok, hnk, hc, hused⟩ | ⟨hsmall, hrun⟩
  · rw [hrun]
    refine ⟨fun f hf => (by cases hf), fun r m' hres => ?_⟩
    obtain ⟨rfl, rfl⟩ := Prod.mk.inj (Except.ok.inj hres)
    refine ⟨⟨bs', fl', hok, ?_⟩, fun h0 => by omega, fun _ => hl.fresh hc⟩
    rw [heapLiveAfter_alloc, if_neg (by omega)]
    exact hl.alloc hnk hused
  · rw [hrun]
    by_cases hv : P.apiValidation = true
    · rw [if_pos hv]
      refine ⟨fun f hf => ⟨(Except.error.inj hf).symm, hv, hsmall⟩, fun r m' hres => (by cases hres)⟩
    · rw [if_neg hv]
      refine ⟨fun f hf => (by cases hf), fun r m' hres => ?_⟩
      obtain ⟨rfl, rfl⟩ := Prod.mk.inj (Except.ok.inj hres)
      refine ⟨⟨bs, fl, h, ?_⟩, fun _ => hsmall, fun h0 => absurd rfl h0⟩
      rw [heapLiveAfter_alloc, if_pos rfl]
      exact hl

end HeapOk

/-! ## runs -/

/-- the memory object before the first request, or a heap in use -/
def HeapState (P : HeapPort) (base size : ℕ) (m : Nmem) (live : ℕ → Option ℕ) : Prop :=
  (NmemUnused P base size m ∧ live = fun _ => none) ∨
    ∃ bs fl, HeapOk P base m bs fl ∧ LiveOk P bs (blocksOf P m.storage) live

/-- one call leaves a heap in use with the allocations that the watcher sees; a request gets a payload
that was not out, or is refused where there is no room for it, by NULL or by the assertion -/
def HeapCallSound (P : HeapPort) (base : ℕ) (m : Nmem) (live : ℕ → Option ℕ) (op : HeapOp) : Prop :=
  (∀ f, runHeapOp P m op = .error f → f = .assertion ∧ P.apiValidation = true ∧
    ∃ size, op = .alloc size ∧ NoRoom P base m size) ∧
  ∀ r m', runHeapOp P m op = .ok (r, m') →
    (∃ bs fl, HeapOk P base m' bs fl ∧
      LiveOk P bs (blocksOf P m'.storage) (heapLiveAfter live op r)) ∧
    (∀ size, op = .alloc size → r = 0 → NoRoom P base m size) ∧
    (∀ size, op = .alloc size → r ≠ 0 → live r = none)

namespace HeapOk

theorem callAlloc {m₀ : Nmem} {n : ℕ} (h : HeapOk P base m₀ bs fl)
    (hlive : LiveOk P bs (blocksOf P m₀.storage) live) (hl : LegalHeapOp P m live (.alloc n))
    (hop : runHeapOp P m (.alloc n) = heapAlloc P m₀ n)
    (hroom : (∀ b ∈ fl, (blocksOf P m₀.storage).tags.size b < roundUp n P.sizeofHeapPhy) →
      NoRoom P base m n) : HeapCallSound P base m live (.alloc n) := by
  unfold HeapCallSound
  rw [hop]
  obtain ⟨hfault, hres⟩ := h.alloc hlive hl.1 hl.2
  refine ⟨fun f hf => ?_, fun r m' hr => ?_⟩
  · obtain ⟨h1, h2, h3⟩ := hfault f hf
    exact ⟨h1, h2, n, rfl, hroom h3⟩
  · obtain ⟨h1, h2, h3⟩ := hres r m' hr
    refine ⟨h1, fun size hs h0 => ?_, fun _ _ => h3⟩
    rw [← HeapOp.alloc.inj hs]
    exact hroom (h2 h0)

theorem callFree {p : ℕ} (h : HeapOk P base m bs fl) (hlive : LiveOk P bs (blocksOf P m.storage) live)
    (hl : LegalHeapOp P m live (.free p)) : HeapCallSound P base m live (.free p) := by
  obtain ⟨n, hp⟩ := Option.isSome_iff_exists.mp hl
  obtain ⟨c, k, rfl, hc, _⟩ := hlive.block p n hp
  obtain ⟨st', bs', fl', hrun, hok', hused⟩ := heapFree_ok h hc
  have hop : runHeapOp P m (.free (c + P.sizeofHeapPhy)) = .ok (0, { m with storage := st' }) := by
    show (nmemFreeI P m (c + P.sizeofHeapPhy) >>= fun m => Except.ok (0, m)) = _
    unfold nmemFreeI
    rw [if_pos h.vfFree, hrun]
    rfl
  unfold HeapCallSound
  rw [hop]
  refine ⟨fun f hf => (by cases hf), fun r m' hr => ?_⟩
  obtain ⟨rfl, rfl⟩ := Prod.mk.inj (Except.ok.inj hr)
  exact ⟨⟨bs', fl', hok', hlive.free hused⟩, fun size hs => (by cases hs), fun size hs => (by cases hs)⟩

theorem callWrite {p offset : ℕ} {byte : BitVec 8} (h : HeapOk P base m bs fl)
    (hlive : LiveOk P bs (blocksOf P m.storage) live)
    (hl : LegalHeapOp P m live (.write p offset byte)) :
    HeapCallSound P base m live (.write p offset byte) := by
  obtain ⟨n, hp⟩ := Option.isSome_iff_exists.mp hl.1
  obtain ⟨c, k, rfl, hc, _⟩ := hlive.block p n hp
  have ho := hl.2
  rw [HeapOk.payload_eq hc] at ho
  obtain ⟨hok', hused⟩ := h.write hc ho byte
  refine ⟨fun f hf => (by cases hf), fun r m' hr => ?_⟩
  obtain ⟨rfl, rfl⟩ := Prod.mk.inj (Except.ok.inj hr)
  exact ⟨⟨bs, fl, hok', by rw [hused]; exact hlive.block, by rw [hused]; exact hlive.live⟩,
    fun size hs => (by cases hs), fun size hs => (by cases hs)⟩

end HeapOk

namespace HeapState

theorem step {op : HeapOp} (h : HeapState P base size m live) (hl : LegalHeapOp P m live op) :
    HeapCallSound P base m live op := by
  rcases h with ⟨hunused, rfl⟩ | ⟨bs, fl, hok, hlive⟩
  · cases op with
    | alloc n =>
      -- the first request sets up the heap
      obtain ⟨m₀, hrun, hok, hused, hsize⟩ := heapInitAlloc_ok hunused n
      refine hok.callAlloc (LiveOk.none hused) hl ?_ (fun hb => ?_)
      · unfold runHeapOp nmemAllocI
        rw [hunused.vfAlloc]
        exact hrun
      · have hbase := hb base (List.mem_singleton_self _)
        rw [hsize] at hbase
        unfold NoRoom
        rw [hunused.vfAlloc]
        show m.size < _
        rw [hunused.size_eq]
        omega
    | free p => cases hl
    | write p offset byte => cases hl.1
  · cases op with
    | alloc n =>
      refine hok.callAlloc hlive hl ?_ (fun hb => ?_)
      · unfold runHeapOp nmemAllocI
        rw [hok.vfAlloc]
      · unfold NoRoom
        rw [hok.vfAlloc]
        exact ⟨bs, fl, hok.rep, hb⟩
    | free p => exact hok.callFree hlive hl
    | write p offset byte => exact hok.callWrite hlive hl

theorem run (ops : List HeapOp) : ∀ {m : Nmem} {live : ℕ → Option ℕ}, HeapState P base size m live →
    LegalHeapRun P m live ops → HeapRunSound P base m live ops := by
  induction ops with
  | nil => exact fun _ _ => trivial
  | cons op ops ih =>
    intro m live h hl
    obtain ⟨hfault, hres⟩ := h.step hl.1
    refine ⟨hfault, fun r m' hr => ?_⟩
    obtain ⟨⟨bs, fl, hok, hlive⟩, hroom, hfresh⟩ := hres r m' hr
    exact ⟨hok.sound hlive, hroom, hfresh, ih (Or.inr ⟨bs, fl, hok, hlive⟩) (hl.2 r m' hr)⟩

end HeapState

/-- **In every legal run of a heap its representation is kept**, and only requests that no free block has
room for are refused. -/
theorem heapRunSound (P : HeapPort) (h : NmemUnused P base size m) (ops : List HeapOp)
    (hl : LegalHeapRun P m (fun _ => none) ops) : HeapRunSound P base m (fun _ => none) ops :=
  HeapState.run ops (Or.inl ⟨h, rfl⟩) hl

end

/-- 200 bytes of storage -/
def heap200 : Nmem := ⟨.heapInitAlloc, false, 1000, 0, 200, ⟨1000, 1200, fun _ => 0#8⟩⟩

theorem heap200_alloc : (runHeapOp heapPort32 heap200 (.alloc 20)).toOption.map
    (fun x => (x.1, payload heapPort32 x.2 1008)) = some (1008, 24) := by decide +kernel

theorem heap200_alloc_alloc : (runHeapOp heapPort32 heap200 (.alloc 20) >>= fun x =>
    runHeapOp heapPort32 x.2 (.alloc 8) >>= fun y => .ok (x.1, y)).toOption.map
      (fun z => (z.1, z.2.1, payload heapPort32 z.2.2 1008, z.2.2.vfAlloc))
        = some (1008, 1040, 24, .heapAlloc) := by decide +kernel

theorem heapRunSound_heap200 : HeapRunSound heapPort32 1000 heap200 (fun _ => none)
    [.alloc 20, .alloc 8, .write 1008 23 7#8, .free 1008, .alloc 3] := by
  have hunused : NmemUnused heapPort32 1000 200 heap200 :=
    ⟨rfl, rfl, rfl, rfl, by decide, by decide, by decide, by decide, rfl⟩
  refine heapRunSound heapPort32 hunused
    [.alloc 20, .alloc 8, .write 1008 23 7#8, .free 1008, .alloc 3]
    ⟨⟨by decide, by decide⟩, fun r m hr => ⟨⟨by decide, by decide⟩, fun r₁ m₁ h₁ => ?_⟩⟩
  obtain ⟨z, hruns, hres⟩ := eq_ok_of_map heap200_alloc_alloc
  rw [hr, ok_bind, h₁] at hruns
  obtain rfl := Except.ok.inj hruns
  simp only [Prod.mk.injEq] at hres
  obtain ⟨rfl, rfl, hpayload, _⟩ := hres
  refine ⟨⟨rfl, ?_⟩, fun r₂ m₂ h₂ => ⟨rfl, fun r₃ m₃ h₃ => ⟨⟨by decide, by decide⟩, fun _ _ _ => trivial⟩⟩⟩
  rw [hpayload]
  decide

end NeonEds
