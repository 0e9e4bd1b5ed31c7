import NeonEds.Mm.HeapCasts

/-!
# Payloads given back in any order

A heap is reached by calls that return (`HeapReach`); every request that `heap_alloc` admits is allowed,
also one near `INT32_MAX`, which either faults or is refused.

* `heapCall_frame`     a call on a heap in use changes the storage only;
* `HeapReach.ok`       a heap that is reached and set up is a heap in use;
* `HeapOk.freeAll`     what is in use after some payloads have been given back, in whatever order;
* `heapFree_orders`    so the layout does not depend on the order, and without a live payload the heap is
                       one free block again.
-/

namespace NeonEds
open Exec

section
variable (P : HeapPort)

/-- the checks of `heap_alloc`; only live payloads are given back and written -/
def AdmittedHeapOp (m : Nmem) (live : ℕ → Option ℕ) : HeapOp → Prop
  | .alloc size => 1 ≤ size ∧ size < 2147483647
  | .free mem => (live mem).isSome
  | .write mem offset _ => (live mem).isSome ∧ offset < payload P m mem

inductive HeapReach (m₀ : Nmem) : Nmem → (ℕ → Option ℕ) → Prop where
  | start : HeapReach m₀ m₀ (fun _ => none)
  | call {m m' : Nmem} {live : ℕ → Option ℕ} {op : HeapOp} {r : ℕ} : HeapReach m₀ m live →
      AdmittedHeapOp P m live op → runHeapOp P m op = .ok (r, m') →
      HeapReach m₀ m' (heapLiveAfter live op r)

/-- the payloads are given back one after the other -/
def freeAll : Nmem → List ℕ → Exec Nmem
  | m, [] => .ok m
  | m, mem :: rest => do
    let m ← nmemFreeI P m mem
    freeAll m rest

end

section
variable {P : HeapPort} {base size : ℕ} {m m' m₀ : Nmem} {bs fl : List ℕ} {live : ℕ → Option ℕ}

/-! ## what is reached -/

theorem heapAlloc_frame {n r : ℕ} (hrun : heapAlloc P m n = .ok (r, m')) :
    ∃ st, m' = { m with storage := st } := by
  obtain ⟨_, _, hrun⟩ := bind_eq_ok.mp hrun
  obtain ⟨curr, _, hrun⟩ := bind_eq_ok.mp hrun
  obtain ⟨⟨mem, st⟩, _, hrun⟩ := bind_eq_ok.mp hrun
  obtain ⟨_, _, hrun⟩ := bind_eq_ok.mp hrun
  exact ⟨st, (Prod.mk.inj (Except.ok.inj hrun)).2.symm⟩

theorem heapFree_frame {mem : ℕ} (hrun : heapFree P m mem = .ok m') :
    ∃ st, m' = { m with storage := st } := by
  obtain ⟨_, _, hrun⟩ := bind_eq_ok.mp hrun
  obtain ⟨_, _, hrun⟩ := bind_eq_ok.mp hrun
  obtain ⟨_, _, hrun⟩ := bind_eq_ok.mp hrun
  obtain ⟨_, _, hrun⟩ := bind_eq_ok.mp hrun
  obtain ⟨_, _, hrun⟩ := bind_eq_ok.mp hrun
  obtain ⟨_, _, hrun⟩ := bind_eq_ok.mp hrun
  obtain ⟨_, _, hrun⟩ := bind_eq_ok.mp hrun
  obtain ⟨st, _, hrun⟩ := bind_eq_ok.mp hrun
  exact ⟨st, (Except.ok.inj hrun).symm⟩

/-- **A call on a heap in use** changes the storage only. -/
theorem heapCall_frame {op : HeapOp} {r : ℕ} (hv : m.vfAlloc = .heapAlloc)
    (hrun : runHeapOp P m op = .ok (r, m')) : ∃ st, m' = { m with storage := st } := by
  cases op with
  | alloc n =>
    unfold runHeapOp nmemAllocI at hrun
    rw [hv] at hrun
    exact heapAlloc_frame hrun
  | free mem =>
    obtain ⟨m₁, hfree, hrun⟩ := bind_eq_ok.mp hrun
    obtain ⟨_, rfl⟩ := Prod.mk.inj (Except.ok.inj hrun)
    unfold nmemFreeI at hfree
    split at hfree
    · exact heapFree_frame hfree
    · cases hfree
  | write mem offset byte => exact ⟨_, (Prod.mk.inj (Except.ok.inj hrun)).2.symm⟩

theorem HeapOk.alloc_top (h : HeapOk P base m bs fl) {n r : ℕ} (h1 : 1 ≤ n) (hn : n < 2147483647)
    (htop : ¬ roundUp n P.sizeofHeapPhy < 2147483648) (hrun : heapAlloc P m n = .ok (r, m')) :
    fl = [] ∧ r = 0 ∧ m' = m := by
  cases fl with
  | nil =>
    rw [heapAlloc_full h h1 hn] at hrun
    exact ⟨rfl, refused_null hrun⟩
  | cons c fl =>
    rw [heapAlloc_top h h1 hn htop (List.cons_ne_nil c fl)] at hrun
    cases hrun

/-- **A call that returns** leaves a heap in use. -/
theorem HeapState.call {op : HeapOp} {r : ℕ} (h : HeapState P base size m live)
    (hop : AdmittedHeapOp P m live op) (hrun : runHeapOp P m op = .ok (r, m')) :
    ∃ bs fl, HeapOk P base m' bs fl ∧ LiveOk P bs (blocksOf P m'.storage) (heapLiveAfter live op r) := by
  cases op with
  | alloc n =>
    obtain ⟨h1, hn⟩ := hop
    by_cases hfit : roundUp n P.sizeofHeapPhy < 2147483648
    · have hl : LegalHeapOp P m live (.alloc n) := ⟨h1, hfit⟩
      exact ((h.step hl).2 r m' hrun).1
    · obtain ⟨m₁, bs, fl, hinit, hok, hlive, _⟩ := h.lazyInit
      have halloc : nmemAllocI P m n = .ok (r, m') := hrun
      rw [nmemAllocI_eq, hinit, ok_bind] at halloc
      obtain ⟨rfl, rfl, rfl⟩ := hok.alloc_top h1 hn hfit halloc
      exact ⟨bs, [], hok, hlive⟩
  | free mem =>
    have hl : LegalHeapOp P m live (.free mem) := hop
    exact ((h.step hl).2 r m' hrun).1
  | write mem offset byte =>
    have hl : LegalHeapOp P m live (.write mem offset byte) := hop
    exact ((h.step hl).2 r m' hrun).1

theorem HeapReach.state (h₀ : NmemUnused P base size m₀) (h : HeapReach P m₀ m live) :
    HeapState P base size m live ∧ (m.vfAlloc = .heapAlloc →
      m.base + P.sizeofHeapBlock = base + size ∧
      m.free = size - P.sizeofHeapBlock - P.sizeofHeapPhy) := by
  induction h with
  | start =>
    refine ⟨Or.inl ⟨h₀, rfl⟩, fun hv => ?_⟩
    rw [h₀.vfAlloc] at hv
    cases hv
  | @call m m' live op r _ hop hrun ih =>
    obtain ⟨hstate, hfix⟩ := ih
    refine ⟨Or.inr (hstate.call hop hrun), fun _ => ?_⟩
    rcases hstate with ⟨hunused, rfl⟩ | ⟨bs, fl, hok, _⟩
    · -- the first call is a request, which sets up the heap
      cases op with
      | alloc n =>
        obtain ⟨m₁, hinit, _, _, _, hfree, hbase⟩ := heapInitObj_ok hunused
        have halloc : nmemAllocI P m n = .ok (r, m') := hrun
        unfold nmemAllocI at halloc
        rw [hunused.vfAlloc] at halloc
        dsimp only at halloc
        rw [heapInitAlloc_eq, hinit, ok_bind] at halloc
        obtain ⟨st, rfl⟩ := heapAlloc_frame halloc
        exact ⟨hbase, hfree⟩
      | free mem => cases hop
      | write mem offset byte => cases hop.1
    · obtain ⟨st, rfl⟩ := heapCall_frame hok.vfAlloc hrun
      exact hfix hok.vfAlloc

/-- **A heap that is reached and set up** is a heap in use. -/
theorem HeapReach.ok (h₀ : NmemUnused P base size m₀) (h : HeapReach P m₀ m live)
    (hv : m.vfAlloc = .heapAlloc) :
    ∃ bs fl, HeapOk P base m bs fl ∧ LiveOk P bs (blocksOf P m.storage) live ∧
      m.base + P.sizeofHeapBlock = base + size ∧
      m.free = size - P.sizeofHeapBlock - P.sizeofHeapPhy := by
  obtain ⟨hstate, hfix⟩ := h.state h₀
  rcases hstate with ⟨hunused, _⟩ | ⟨bs, fl, hok, hlive⟩
  · rw [hunused.vfAlloc] at hv
    cases hv
  · exact ⟨bs, fl, hok, hlive, hfix hv⟩

/-! ## the order -/

/-- **Some payloads are given back**, one after the other. -/
theorem HeapOk.freeAll (mems : List ℕ) : ∀ {m : Nmem} {bs fl : List ℕ} {live : ℕ → Option ℕ},
    HeapOk P base m bs fl → LiveOk P bs (blocksOf P m.storage) live → mems.Nodup →
    (∀ p ∈ mems, (live p).isSome) →
    ∃ m' bs' fl', freeAll P m mems = .ok m' ∧ HeapOk P base m' bs' fl' ∧ m'.base = m.base ∧
      used bs' (blocksOf P m'.storage) = fun b =>
        if b + P.sizeofHeapPhy ∈ mems then none else used bs (blocksOf P m.storage) b := by
  induction mems with
  | nil =>
    intro m bs fl live h _ _ _
    refine ⟨m, bs, fl, rfl, h, rfl, ?_⟩
    funext b
    rw [if_neg List.not_mem_nil]
  | cons p rest ih =>
    intro m bs fl live h hl hnodup hmem
    obtain ⟨hp, hrest⟩ := List.nodup_cons.mp hnodup
    obtain ⟨n, hn⟩ := Option.isSome_iff_exists.mp (hmem p List.mem_cons_self)
    obtain ⟨c, k, rfl, hc, _⟩ := hl.block p n hn
    obtain ⟨st, bs₁, fl₁, hrun, hok, hused⟩ := heapFree_ok h hc
    obtain ⟨m', bs', fl', hall, hok', hbase, hused'⟩ := ih hok (hl.free hused) hrest (fun q hq => by
      have hne : q ≠ c + P.sizeofHeapPhy := by
        rintro rfl
        exact hp hq
      rw [Function.update_of_ne hne]
      exact hmem q (List.mem_cons_of_mem _ hq))
    refine ⟨m', bs', fl', ?_, hok', hbase, ?_⟩
    · show (nmemFreeI P m (c + P.sizeofHeapPhy) >>= fun m => NeonEds.freeAll P m rest) = _
      unfold nmemFreeI
      rw [if_pos h.vfFree, hrun]
      exact hall
    · rw [hused']
      funext b
      by_cases hb : b = c
      · rw [hb, if_pos List.mem_cons_self, if_neg hp, hused, Function.update_self]
      · have hiff : b + P.sizeofHeapPhy ∈ (c + P.sizeofHeapPhy) :: rest ↔ b + P.sizeofHeapPhy ∈ rest := by
          rw [List.mem_cons]
          exact ⟨fun hor => hor.resolve_left (by omega), Or.inr⟩
        rw [hused, Function.update_of_ne hb]
        exact (if_congr hiff rfl rfl).symm

/-- a heap without a block in use is laid out as one that has just been set up -/
theorem HeapOk.layout_free (h₀ : NmemUnused P base size m₀) (h : HeapOk P base m bs fl)
    (hnone : used bs (blocksOf P m.storage) = fun _ => none)
    (hbase : m.base + P.sizeofHeapBlock = base + size) :
    heapLayout P m = [(base, (size : ℤ) - P.sizeofHeapBlock - P.sizeofHeapPhy)] := by
  obtain ⟨m₁, _, hok, hused, hsize, _, hbase₁⟩ := heapInitObj_ok h₀
  obtain ⟨_, hlayout⟩ := hok.layout_unique h (by omega) (hnone.trans hused.symm)
  rw [hlayout, hok.layout_eq, List.map_singleton, hsize]

theorem HeapOk.served_iff (h : HeapOk P base m bs fl) {n : ℕ} (h1 : 1 ≤ n) (hn : n < 2147483647) :
    (∃ r m', heapAlloc P m n = .ok (r, m') ∧ r ≠ 0) ↔
      roundUp n P.sizeofHeapPhy < 2147483648 ∧
        ∃ x ∈ heapLayout P m, (roundUp n P.sizeofHeapPhy : ℤ) ≤ x.2 := by
  have hpos := P.sizeofHeapPhy_pos
  have hleast := (roundUp_ok h1 hpos).2.2
  have hroom : (∃ x ∈ heapLayout P m, (roundUp n P.sizeofHeapPhy : ℤ) ≤ x.2) ↔
      ¬ ∀ b ∈ fl, (blocksOf P m.storage).tags.size b < roundUp n P.sizeofHeapPhy := by
    rw [← h.mem_layout_free (p := fun z => z < roundUp n P.sizeofHeapPhy)]
    push Not
    constructor
    · intro ⟨x, hx, hle⟩
      exact ⟨x, hx, by omega, hle⟩
    · intro ⟨x, hx, _, hle⟩
      exact ⟨x, hx, hle⟩
  rw [hroom]
  constructor
  · intro ⟨r, m', hrun, hr⟩
    have hfit : roundUp n P.sizeofHeapPhy < 2147483648 := by
      by_contra htop
      exact hr (h.alloc_top h1 hn htop hrun).2.1
    refine ⟨hfit, fun hsmall => ?_⟩
    rw [heapAlloc_refused h h1 hfit hsmall] at hrun
    exact hr (refused_null hrun).1
  · intro ⟨hfit, hlarge⟩
    rcases heapAlloc_ok h h1 hfit with ⟨c, st, _, _, _, hrun, _⟩ | ⟨hsmall, _⟩
    · exact ⟨_, _, hrun, by omega⟩
    · exact absurd hsmall hlarge

/-- **Payloads may be given back in any order**: the layout is the same, and if none stays live the heap is
one free block, which serves what the fresh heap serves. -/
theorem heapFree_orders (P : HeapPort) (h₀ : NmemUnused P base size m₀) (h : HeapReach P m₀ m live)
    (hv : m.vfAlloc = .heapAlloc) {mems mems' : List ℕ} (hperm : mems.Perm mems')
    (hnodup : mems.Nodup) (hmem : ∀ p ∈ mems, (live p).isSome) :
    ∃ m₁ m₂, freeAll P m mems = .ok m₁ ∧ freeAll P m mems' = .ok m₂ ∧
      heapLayout P m₁ = heapLayout P m₂ ∧
      ((∀ p, (live p).isSome → p ∈ mems) →
        heapLayout P m₁ = [(base, (size : ℤ) - P.sizeofHeapBlock - P.sizeofHeapPhy)] ∧
        ∀ n r m', 1 ≤ n → n < 2147483647 → nmemAllocI P m₀ n = .ok (r, m') → r ≠ 0 →
          ∃ r' m'', nmemAllocI P m₁ n = .ok (r', m'') ∧ r' ≠ 0) := by
  obtain ⟨bs, fl, hok, hlive, hbase, _⟩ := h.ok h₀ hv
  obtain ⟨m₁, bs₁, fl₁, hall₁, hok₁, hbase₁, hused₁⟩ := hok.freeAll mems hlive hnodup hmem
  obtain ⟨m₂, bs₂, fl₂, hall₂, hok₂, hbase₂, hused₂⟩ := hok.freeAll mems' hlive
    (hperm.nodup_iff.mp hnodup) (fun p hp => hmem p (hperm.mem_iff.mpr hp))
  have hused : used bs₁ (blocksOf P m₁.storage) = used bs₂ (blocksOf P m₂.storage) := by
    rw [hused₁, hused₂]
    funext b
    exact if_congr hperm.mem_iff rfl rfl
  refine ⟨m₁, m₂, hall₁, hall₂, (hok₂.layout_unique hok₁ (hbase₁.trans hbase₂.symm) hused).2,
    fun hevery => ?_⟩
  have hnone : used bs₁ (blocksOf P m₁.storage) = fun _ => none := by
    rw [hused₁]
    funext b
    cases hb : used bs (blocksOf P m.storage) b with
    | none => exact ite_self none
    | some k =>
      obtain ⟨n, hn⟩ := hlive.live b k hb
      exact if_pos (hevery _ (by rw [hn]; rfl))
  have hlayout := hok₁.layout_free h₀ hnone (by omega)
  refine ⟨hlayout, fun n r m' h1 hn hrun hr => ?_⟩
  -- the fresh heap has the same layout when its first request has set it up
  obtain ⟨m₃, hinit, hok₃, hused₃, _, _, hbase₃⟩ := heapInitObj_ok h₀
  have hlayout₃ := hok₃.layout_free h₀ hused₃ hbase₃
  unfold nmemAllocI at hrun
  rw [h₀.vfAlloc] at hrun
  dsimp only at hrun
  rw [heapInitAlloc_eq, hinit, ok_bind] at hrun
  have hserved := (hok₃.served_iff h1 hn).mp ⟨r, m', hrun, hr⟩
  rw [hlayout₃, ← hlayout] at hserved
  obtain ⟨r', m'', hrun', hr'⟩ := (hok₁.served_iff h1 hn).mpr hserved
  refine ⟨r', m'', ?_, hr'⟩
  unfold nmemAllocI
  rw [hok₁.vfAlloc]
  exact hrun'

end

theorem heapFree_orders_heap200 : ∃ m live, HeapReach heapPort32 heap200 m live ∧
    (live 1008).isSome ∧ (live 1040).isSome ∧
    ∃ m₁ m₂, freeAll heapPort32 m [1008, 1040] = .ok m₁ ∧ freeAll heapPort32 m [1040, 1008] = .ok m₂ ∧
      heapLayout heapPort32 m₁ = heapLayout heapPort32 m₂ ∧
      ((∀ p, (live p).isSome → p ∈ [1008, 1040]) →
        heapLayout heapPort32 m₁
          = [(1000, ((200 : ℕ) : ℤ) - heapPort32.sizeofHeapBlock - heapPort32.sizeofHeapPhy)] ∧
        ∀ n r m', 1 ≤ n → n < 2147483647 → nmemAllocI heapPort32 heap200 n = .ok (r, m') → r ≠ 0 →
          ∃ r' m'', nmemAllocI heapPort32 m₁ n = .ok (r', m'') ∧ r' ≠ 0) := by
  obtain ⟨z, hruns, hres⟩ := eq_ok_of_map heap200_alloc_alloc
  obtain ⟨x, h₁, hruns⟩ := bind_eq_ok.mp hruns
  obtain ⟨y, h₂, hruns⟩ := bind_eq_ok.mp hruns
  obtain rfl := Except.ok.inj hruns
  obtain ⟨hx, hres⟩ := Prod.mk.inj hres
  obtain ⟨hy, hres⟩ := Prod.mk.inj hres
  obtain ⟨_, hv⟩ := Prod.mk.inj hres
  have hop₁ : AdmittedHeapOp heapPort32 heap200 (fun _ => none) (.alloc 20) := ⟨by decide, by decide⟩
  have hop₂ : AdmittedHeapOp heapPort32 x.2 (heapLiveAfter (fun _ => none) (.alloc 20) x.1) (.alloc 8) :=
    ⟨by decide, by decide⟩
  have hreach := (HeapReach.start.call hop₁ h₁).call hop₂ h₂
  have hlive : heapLiveAfter (heapLiveAfter (fun _ => none) (.alloc 20) x.1) (.alloc 8) y.1
      = Function.update (Function.update (fun _ => none) 1008 (some 20)) 1040 (some 8) := by
    rw [show x.1 = 1008 from hx, show y.1 = 1040 from hy]
    rfl
  rw [hlive] at hreach
  refine ⟨y.2, _, hreach, rfl, rfl, ?_⟩
  refine heapFree_orders heapPort32 heap200_unused hreach hv (List.Perm.swap 1040 1008 []) (by decide)
    (fun p hp => ?_)
  rcases List.mem_cons.mp hp with rfl | hp
  · rfl
  · rw [List.mem_singleton.mp hp]
    rfl

end NeonEds
