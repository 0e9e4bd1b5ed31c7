import NeonEds.Mm.HeapLayout

/-!
# Requests that no block has room for

`heapAllocCasts P m size` are the values that `heap_alloc` converts to `int32_t` or stores as the size of
a block, in order.  `FailsCleanly`: a request that is larger than every free block gets NULL and the heap
stays, and no conversion changes its value.

* `heapAlloc_refused`        a request that is larger than every free block, when its rounding is an
                             `int32_t`;
* `heapAlloc_top`            when its rounding is `2 ^ 31`: it is `-2 ^ 31` as an `int32_t`, so the first
                             free block is large enough, and what is cut off it lies outside the storage;
* `heapAllocCasts_fit`       the conversions, when the rounding is an `int32_t`;
* `failsCleanly_iff`         exactly when a request fails cleanly.
-/

namespace NeonEds
open Exec

section
variable (P : HeapPort)

/-- the comparisons with a block of the size `currSize`, and what is stored if it is taken -/
def blockCasts (size : ℕ) (currSize : ℤ) : List ℤ :=
  (size : ℤ) ::
    if currSize ≥ int32 size then
      (P.sizeT (size + P.sizeofHeapBlock) : ℤ) ::
        if currSize > int32 (P.sizeT (size + P.sizeofHeapBlock)) then
          [(size : ℤ), currSize - int32 size, (P.sizeofHeapPhy : ℤ),
            currSize - int32 size - int32 P.sizeofHeapPhy, int32 size * (-1)]
        else [currSize * (-1)]
    else []

def loopCasts (sentinel size : ℕ) : ℕ → Storage → ℕ → List ℤ
  | 0, _, _ => []
  | bound + 1, st, curr =>
    if curr = sentinel then []
    else
      match phySize P st curr with
      | .error _ => []
      | .ok currSize => blockCasts P size currSize ++
        if currSize ≥ int32 size then []
        else
          match freeNext P st curr with
          | .error _ => []
          | .ok curr => loopCasts sentinel size bound st curr

def heapAllocCasts (heapObj : Nmem) (size : ℕ) : List ℤ :=
  match freeNext P heapObj.storage heapObj.base with
  | .error _ => []
  | .ok curr => loopCasts P heapObj.base (P.nalignUp size P.sizeofHeapPhy)
    (heapObj.storage.hi - heapObj.storage.lo) heapObj.storage curr

/-- the same for the set up of the heap -/
def heapInitCasts (heapObj : Nmem) : List ℤ :=
  [(heapObj.size : ℤ), (P.sizeofHeapBlock : ℤ), int32 heapObj.size - int32 P.sizeofHeapBlock,
    (P.sizeofHeapPhy : ℤ), int32 heapObj.size - int32 P.sizeofHeapBlock - int32 P.sizeofHeapPhy, -1]

/-- `NENSURE(mem)` is an assertion that fails -/
def refused (m : Nmem) : Exec (ℕ × Nmem) :=
  if P.apiValidation = true then .error .assertion else .ok (0, m)

structure FailsCleanly (m : Nmem) (size : ℕ) : Prop where
  refuses : (∀ x ∈ heapLayout P m, 0 < x.2 → x.2 < size) → heapAlloc P m size = .ok (0, m)
  casts : ∀ z ∈ heapAllocCasts P m size, int32 z = z

/-- the set up that the first request makes -/
def heapLazyInit (m : Nmem) : Exec Nmem :=
  match m.vfAlloc with
  | .heapInitAlloc => heapInitObj P m
  | .heapAlloc => .ok m

theorem nmemAllocI_eq (m : Nmem) (size : ℕ) :
    nmemAllocI P m size = heapLazyInit P m >>= fun m => heapAlloc P m size := by
  unfold nmemAllocI heapLazyInit
  cases m.vfAlloc with
  | heapInitAlloc => exact heapInitAlloc_eq P m size
  | heapAlloc => rfl

end

section
variable {P : HeapPort} {base : ℕ} {m : Nmem} {bs fl : List ℕ} {n : ℕ}

theorem refused_eq (P : HeapPort) (m : Nmem) :
    (require P.apiValidation ((0 : ℕ) ≠ 0) >>= fun _ => Except.ok (0, m)) = refused P m := by
  unfold require refused
  cases P.apiValidation with
  | true => rfl
  | false => rfl

theorem heapAlloc_refused (h : HeapOk P base m bs fl) (h1 : 1 ≤ n)
    (hn : roundUp n P.sizeofHeapPhy < 2147483648)
    (hlarge : ∀ b ∈ fl, (blocksOf P m.storage).tags.size b < roundUp n P.sizeofHeapPhy) :
    heapAlloc P m n = refused P m := by
  rw [heapAlloc_eq h h1 (lt_of_roundUp_lt P hn)]
  rcases heapAllocLoop_ok h hn (m.storage.hi - m.storage.lo) [] fl rfl h.free_length
    (fun x hx => absurd hx List.not_mem_nil) with ⟨hloop, _⟩ | ⟨c, hc, hge, _⟩
  · rw [hloop, ok_bind]
    exact refused_eq P m
  · have := hlarge c hc
    omega

/-- a heap without a free block refuses everything -/
theorem heapAlloc_full (h : HeapOk P base m bs []) (h1 : 1 ≤ n) (hn : n < 2147483647) :
    heapAlloc P m n = refused P m := by
  rw [heapAlloc_eq h h1 hn]
  have hloop : ∀ bound, 0 < bound → heapAllocLoop P m.base (roundUp n P.sizeofHeapPhy) bound m.storage
      ([].head?.getD m.base) = .ok (0, m.storage) := by
    intro bound hbound
    cases bound with
    | zero => exact absurd hbound (lt_irrefl 0)
    | succ bound => exact if_pos rfl
  rw [hloop _ h.free_length, ok_bind]
  exact refused_eq P m

/-- the only rounding of an admitted request that is no `int32_t` -/
theorem roundUp_top (P : HeapPort) (hn : n < 2147483647)
    (htop : ¬ roundUp n P.sizeofHeapPhy < 2147483648) :
    roundUp n P.sizeofHeapPhy = 2147483648 := by
  unfold roundUp HeapPort.sizeofHeapPhy at htop ⊢
  rcases P.ptr_eq with hp | hp
  · rw [hp] at htop ⊢
    omega
  · rw [hp] at htop ⊢
    omega

/-- what is cut off lies outside the storage -/
theorem heapAllocSplit_top (h : HeapOk P base m bs fl) {c : ℕ} (hc : c ∈ bs) :
    heapAllocSplit P m.storage c 2147483648 = .error .bounds := by
  have hblk := P.sizeofHeapBlock_eq
  have hpos := P.sizeofHeapPhy_pos
  obtain ⟨hlo, hhi, hleast⟩ := h.block_le hc
  have hlt := h.hi_lt
  have hsmall := h.small
  have hwide := P.wide
  obtain ⟨t, ht⟩ : ∃ t, t = P.ptrAdd c ((2147483648 : ℕ) + P.sizeofHeapPhy) := ⟨_, rfl⟩
  have hmod : t = (c + (2147483648 + P.sizeofHeapPhy)) % 2 ^ (8 * P.ptr) :=
    ht.trans (sizeT_natCast P (c + (2147483648 + P.sizeofHeapPhy)))
  have hout : ¬ (m.storage.lo ≤ t ∧ t + P.ptr ≤ m.storage.hi) := by
    rw [h.lo_eq, h.hi_eq, hmod]
    clear ht hmod
    generalize 2 ^ (8 * P.ptr) = W at hlt hwide ⊢
    by_cases hwrap : c + (2147483648 + P.sizeofHeapPhy) < W
    · rw [Nat.mod_eq_of_lt hwrap]
      omega
    · -- the address goes round and comes to lie before the storage
      rw [Nat.mod_eq_sub_mod (Nat.le_of_not_lt hwrap), Nat.mod_eq_of_lt (by omega)]
      omega
  unfold heapAllocSplit setPhyPrev
  rw [← ht]
  show (m.storage.store t P.ptr c >>= _) = _
  unfold Storage.store
  rw [if_neg hout]
  rfl

/-- **A request near `INT32_MAX`** is written outside the storage if there is a free block. -/
theorem heapAlloc_top (h : HeapOk P base m bs fl) (h1 : 1 ≤ n) (hn : n < 2147483647)
    (htop : ¬ roundUp n P.sizeofHeapPhy < 2147483648) (hfl : fl ≠ []) :
    heapAlloc P m n = .error .bounds := by
  obtain ⟨c, rest, rfl⟩ := List.exists_cons_of_ne_nil hfl
  obtain ⟨hc, hcpos⟩ := (h.rep.mem_free c).mp List.mem_cons_self
  have hp := P.ptr_eq
  have hblk := P.sizeofHeapBlock_eq
  obtain ⟨bound, hbound⟩ := Nat.exists_eq_add_of_lt h.free_length
  have hneg : int32 ((2147483648 : ℕ) : ℤ) = -2147483648 := rfl
  have hneg' : int32 (P.sizeT ((2147483648 : ℕ) + P.sizeofHeapBlock)) < 0 := by
    rcases hp with hp | hp
    · unfold HeapPort.sizeofHeapBlock HeapPort.sizeT
      rw [hp]
      decide
    · unfold HeapPort.sizeofHeapBlock HeapPort.sizeT
      rw [hp]
      decide
  have hloop : heapAllocLoop P m.base 2147483648 (m.storage.hi - m.storage.lo) m.storage c
      = .error .bounds := by
    rw [hbound, heapAllocLoop, if_neg (h.rep.ne_sentinel hc), h.reads.phySize (Or.inr hc), ok_bind,
      if_pos (by rw [hneg]; omega), if_pos (by omega)]
    exact heapAllocSplit_top h hc
  rw [heapAlloc_eq h h1 hn, roundUp_top P hn htop, List.head?_cons, Option.getD_some, hloop]
  rfl

/-! ## the conversions -/

theorem blockCasts_fit {r : ℕ} {z : ℤ} (hr : r < 2147483648) (hz : 0 < z)
    (hsmall : z + P.sizeofHeapPhy + P.sizeofHeapBlock < 2147483647) :
    ∀ x ∈ blockCasts P r z, int32 x = x := by
  have hint : int32 (r : ℤ) = r := int32_eq (by omega) (by omega)
  have hphy : int32 (P.sizeofHeapPhy : ℤ) = P.sizeofHeapPhy := int32_eq (by omega) (by omega)
  have hwide := P.wide
  unfold blockCasts
  rw [hint, hphy]
  refine List.forall_mem_cons.mpr ⟨hint, ?_⟩
  by_cases hge : z ≥ r
  · have hsize : P.sizeT (r + P.sizeofHeapBlock) = r + P.sizeofHeapBlock :=
      HeapPort.sizeT_eq (by omega) (by omega)
    rw [if_pos hge, hsize]
    refine List.forall_mem_cons.mpr ⟨int32_eq (by omega) (by omega), ?_⟩
    split
    · simp only [List.forall_mem_cons, List.not_mem_nil, false_implies, implies_true, and_true]
      exact ⟨hint, int32_eq (by omega) (by omega), hphy, int32_eq (by omega) (by omega),
        int32_eq (by omega) (by omega)⟩
    · simp only [List.forall_mem_cons, List.not_mem_nil, false_implies, implies_true, and_true]
      exact int32_eq (by omega) (by omega)
  · rw [if_neg hge]
    exact fun x hx => absurd hx List.not_mem_nil

theorem loopCasts_fit (h : HeapOk P base m bs fl) {r : ℕ} (hr : r < 2147483648) (bound : ℕ) :
    ∀ before rest, fl = before ++ rest →
      ∀ x ∈ loopCasts P m.base r bound m.storage (rest.head?.getD m.base), int32 x = x := by
  have hread := h.reads
  have hblk := P.sizeofHeapBlock_eq
  have hsmall := h.small
  induction bound with
  | zero => exact fun _ _ _ _ hx => absurd hx List.not_mem_nil
  | succ bound ih =>
    intro before rest hfl
    cases rest with
    | nil =>
      show ∀ x ∈ (if m.base = m.base then [] else _), int32 x = x
      rw [if_pos rfl]
      exact fun x hx => absurd hx List.not_mem_nil
    | cons c rest =>
      have hcfl : c ∈ fl := by simp [hfl]
      obtain ⟨hc, hcpos⟩ := (h.rep.mem_free c).mp hcfl
      obtain ⟨hlo, hhi, _⟩ := h.block_le hc
      have hring := h.rep.ring
      rw [hfl] at hring
      have hnext : (blocksOf P m.storage).free.next c = some (rest.head?.getD m.base) := by
        cases rest with
        | nil => exact hring.next_last
        | cons d rest => exact hring.next_mem
      rw [List.head?_cons, Option.getD_some, loopCasts, if_neg (h.rep.ne_sentinel hc),
        hread.phySize (Or.inr hc)]
      show ∀ x ∈ blockCasts P r _ ++ _, int32 x = x
      refine List.forall_mem_append.mpr ⟨blockCasts_fit hr hcpos (by omega), ?_⟩
      split
      · exact fun x hx => absurd hx List.not_mem_nil
      · rw [hread.freeNext (Or.inr hc) hnext]
        exact ih (before ++ [c]) rest (by rw [hfl]; simp)

theorem heapAllocCasts_eq (h : HeapOk P base m bs fl) (hn : n < 2147483648) :
    heapAllocCasts P m n = loopCasts P m.base (roundUp n P.sizeofHeapPhy)
      (m.storage.hi - m.storage.lo) m.storage (fl.head?.getD m.base) := by
  unfold heapAllocCasts
  rw [h.reads.freeNext (Or.inl rfl) h.next_sentinel, nalignUp_eq P hn]

theorem heapAllocCasts_fit (h : HeapOk P base m bs fl)
    (hn : roundUp n P.sizeofHeapPhy < 2147483648) : ∀ z ∈ heapAllocCasts P m n, int32 z = z := by
  have hlt := lt_of_roundUp_lt P hn
  rw [heapAllocCasts_eq h (by omega)]
  exact loopCasts_fit h hn _ [] fl rfl

/-- else the first comparison converts `2 ^ 31` -/
theorem heapAllocCasts_top (h : HeapOk P base m bs fl) (hn : n < 2147483647)
    (htop : ¬ roundUp n P.sizeofHeapPhy < 2147483648) (hfl : fl ≠ []) :
    (2147483648 : ℤ) ∈ heapAllocCasts P m n := by
  obtain ⟨c, rest, rfl⟩ := List.exists_cons_of_ne_nil hfl
  have hc := ((h.rep.mem_free c).mp List.mem_cons_self).1
  obtain ⟨bound, hbound⟩ := Nat.exists_eq_add_of_lt h.free_length
  rw [heapAllocCasts_eq h (by omega), roundUp_top P hn htop, hbound, List.head?_cons,
    Option.getD_some, loopCasts, if_neg (h.rep.ne_sentinel hc), h.reads.phySize (Or.inr hc)]
  exact List.mem_append_left _ List.mem_cons_self

/-! ## when a request fails cleanly -/

/-- the first request sets up the heap, no conversion of the set up changes a value -/
theorem HeapState.lazyInit {size : ℕ} {live : ℕ → Option ℕ} (h : HeapState P base size m live) :
    ∃ m' bs fl, heapLazyInit P m = .ok m' ∧ HeapOk P base m' bs fl ∧
      LiveOk P bs (blocksOf P m'.storage) live ∧
      (m.vfAlloc = .heapInitAlloc → ∀ z ∈ heapInitCasts P m, int32 z = z) := by
  rcases h with ⟨hunused, rfl⟩ | ⟨bs, fl, hok, hlive⟩
  · obtain ⟨m', hrun, hok, hused, _⟩ := heapInitObj_ok hunused
    refine ⟨m', [base], [base], ?_, hok, LiveOk.none hused, fun _ => ?_⟩
    · unfold heapLazyInit
      rw [hunused.vfAlloc]
      exact hrun
    · have hblk := P.sizeofHeapBlock_eq
      have hgt := hunused.size_gt
      have hlt := hunused.size_lt
      unfold heapInitCasts
      rw [hunused.size_eq, int32_eq (z := size) (by omega) (by omega),
        int32_eq (z := P.sizeofHeapBlock) (by omega) (by omega),
        int32_eq (z := P.sizeofHeapPhy) (by omega) (by omega)]
      intro z hz
      apply int32_eq
      · simp only [List.mem_cons, List.not_mem_nil, or_false] at hz
        omega
      · simp only [List.mem_cons, List.not_mem_nil, or_false] at hz
        omega
  · refine ⟨m, bs, fl, ?_, hok, hlive, fun hv => ?_⟩
    · unfold heapLazyInit
      rw [hok.vfAlloc]
    · rw [hok.vfAlloc] at hv
      cases hv

theorem refused_ok (P : HeapPort) (m : Nmem) :
    refused P m = .ok (0, m) ↔ P.apiValidation = false := by
  unfold refused
  cases P.apiValidation with
  | true => exact ⟨nofun, nofun⟩
  | false => exact ⟨fun _ => rfl, fun _ => rfl⟩

theorem refused_null {r : ℕ} {m' : Nmem} (h : refused P m = .ok (r, m')) : r = 0 ∧ m' = m := by
  unfold refused at h
  split at h
  · cases h
  · obtain ⟨rfl, rfl⟩ := Prod.mk.inj (Except.ok.inj h)
    exact ⟨rfl, rfl⟩

namespace HeapOk

theorem free_cases (h : HeapOk P base m bs fl) :
    ((∃ x ∈ heapLayout P m, 0 < x.2) ∧ fl ≠ []) ∨ ((¬ ∃ x ∈ heapLayout P m, 0 < x.2) ∧ fl = []) := by
  have hiff := h.mem_layout_free (p := fun _ => False)
  cases fl with
  | nil =>
    refine Or.inr ⟨fun ⟨x, hx, hpos⟩ => ?_, rfl⟩
    exact hiff.mpr (fun b hb => nomatch hb) x hx hpos
  | cons b fl =>
    refine Or.inl ⟨?_, List.cons_ne_nil b fl⟩
    by_contra hfree
    exact hiff.mp (fun x hx hpos => hfree ⟨x, hx, hpos⟩) b List.mem_cons_self

theorem refuses (h : HeapOk P base m bs fl) (h1 : 1 ≤ n) (hn : n < 2147483647)
    (hfit : (∃ x ∈ heapLayout P m, 0 < x.2) → roundUp n P.sizeofHeapPhy < 2147483648)
    (hlarge : ∀ x ∈ heapLayout P m, 0 < x.2 → x.2 < n) : heapAlloc P m n = refused P m := by
  rcases h.free_cases with ⟨hfree, _⟩ | ⟨_, rfl⟩
  · have hle := (roundUp_ok h1 P.sizeofHeapPhy_pos).1
    refine heapAlloc_refused h h1 (hfit hfree) fun b hb => ?_
    have hb := (h.mem_layout_free (p := fun z => z < n)).mp hlarge b hb
    omega
  · exact heapAlloc_full h h1 hn

theorem casts (h : HeapOk P base m bs fl) (hn : n < 2147483647) :
    (∀ z ∈ heapAllocCasts P m n, int32 z = z) ↔
      ((∃ x ∈ heapLayout P m, 0 < x.2) → roundUp n P.sizeofHeapPhy < 2147483648) := by
  rcases h.free_cases with ⟨hfree, hne⟩ | ⟨hfull, rfl⟩
  · constructor
    · intro hcasts _
      by_contra htop
      exact absurd (hcasts _ (heapAllocCasts_top h hn htop hne)) (by decide)
    · exact fun hfit => heapAllocCasts_fit h (hfit hfree)
  · -- nothing is free, so nothing is compared
    refine iff_of_true ?_ (fun hfree => absurd hfree hfull)
    obtain ⟨bound, hbound⟩ := Nat.exists_eq_add_of_lt h.free_length
    rw [heapAllocCasts_eq h (by omega), hbound]
    show ∀ z ∈ (if m.base = m.base then [] else _), int32 z = z
    rw [if_pos rfl]
    exact fun z hz => nomatch hz

theorem clean_iff (h : HeapOk P base m bs fl) (h1 : 1 ≤ n) (hn : n < 2147483647) :
    FailsCleanly P m n ↔
      ((∃ x ∈ heapLayout P m, 0 < x.2) → roundUp n P.sizeofHeapPhy < 2147483648) ∧
      ((∀ x ∈ heapLayout P m, 0 < x.2 → x.2 < n) → P.apiValidation = false) := by
  constructor
  · intro hclean
    have hfit := (h.casts hn).mp hclean.casts
    refine ⟨hfit, fun hlarge => ?_⟩
    exact (refused_ok P m).mp ((h.refuses h1 hn hfit hlarge).symm.trans (hclean.refuses hlarge))
  · intro ⟨hfit, hapi⟩
    refine ⟨fun hlarge => ?_, (h.casts hn).mpr hfit⟩
    rw [h.refuses h1 hn hfit hlarge]
    exact (refused_ok P m).mpr (hapi hlarge)

end HeapOk

/-- **A request fails cleanly** unless its rounding is `2 ^ 31` and a block is free, or `NENSURE(mem)` is
checked. -/
theorem failsCleanly_iff {size : ℕ} {live : ℕ → Option ℕ} (P : HeapPort) (h : HeapState P base size m live)
    (h1 : 1 ≤ n) (hn : n < 2147483647) :
    ∃ m', heapLazyInit P m = .ok m' ∧ nmemAllocI P m n = heapAlloc P m' n ∧
      (m.vfAlloc = .heapInitAlloc → ∀ z ∈ heapInitCasts P m, int32 z = z) ∧
      (FailsCleanly P m' n ↔
        ((∃ x ∈ heapLayout P m', 0 < x.2) → roundUp n P.sizeofHeapPhy < 2147483648) ∧
        ((∀ x ∈ heapLayout P m', 0 < x.2 → x.2 < n) → P.apiValidation = false)) := by
  obtain ⟨m', bs, fl, hrun, hok, _, hcasts⟩ := h.lazyInit
  refine ⟨m', hrun, ?_, hcasts, hok.clean_iff h1 hn⟩
  rw [nmemAllocI_eq, hrun, ok_bind]

end

theorem heap200_unused : NmemUnused heapPort32 1000 200 heap200 :=
  ⟨rfl, rfl, rfl, rfl, by decide, by decide, by decide, by decide, rfl⟩

/-- 300 bytes of the heap of 200 bytes -/
theorem failsCleanly_heap200 : ∃ m', heapLazyInit heapPort32 heap200 = .ok m' ∧
    nmemAllocI heapPort32 heap200 300 = heapAlloc heapPort32 m' 300 ∧
    (heap200.vfAlloc = .heapInitAlloc → ∀ z ∈ heapInitCasts heapPort32 heap200, int32 z = z) ∧
    (FailsCleanly heapPort32 m' 300 ↔
      ((∃ x ∈ heapLayout heapPort32 m', 0 < x.2) → roundUp 300 heapPort32.sizeofHeapPhy < 2147483648) ∧
      ((∀ x ∈ heapLayout heapPort32 m', 0 < x.2 → x.2 < (300 : ℕ)) → heapPort32.apiValidation = false)) :=
  failsCleanly_iff heapPort32 (Or.inl ⟨heap200_unused, rfl⟩) (by decide) (by decide)

/-- `INT32_MAX - 1` bytes of the heap of 200 bytes -/
theorem heap200_top : ∃ m', heapLazyInit heapPort32 heap200 = .ok m' ∧
    (∀ x ∈ heapLayout heapPort32 m', 0 < x.2 → x.2 < (2147483646 : ℕ)) ∧
    heapAlloc heapPort32 m' 2147483646 = .error .bounds ∧ ¬ FailsCleanly heapPort32 m' 2147483646 := by
  obtain ⟨m', hrun, hok, _, hsize, _⟩ := heapInitObj_ok heap200_unused
  have hlarge : ∀ x ∈ heapLayout heapPort32 m', 0 < x.2 → x.2 < (2147483646 : ℕ) := by
    refine (hok.mem_layout_free (p := fun z => z < (2147483646 : ℕ))).mpr fun b hb => ?_
    rw [List.mem_singleton.mp hb, hsize]
    decide
  have hfault : heapAlloc heapPort32 m' 2147483646 = .error .bounds :=
    heapAlloc_top hok (by decide) (by decide) (by decide) (List.cons_ne_nil _ _)
  refine ⟨m', hrun, hlarge, hfault, fun hclean => ?_⟩
  have hnull := hclean.refuses hlarge
  rw [hfault] at hnull
  cases hnull

end NeonEds
