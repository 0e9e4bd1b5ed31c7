import NeonEds.Mm.HeapBranches

/-!
# The representation invariant of the heap

`HeapRep P base s bs fl B`: the blocks `bs` tile the region from `base` to the sentinel `s`, their
headers know the block before, the ring of the free list from `s` runs through `fl`, which are the blocks
of positive size, no two neighbours are free, and every block begins at a multiple of the size of a
header.

What a heap is for is `used`: the blocks in use with the sizes of their payloads.  Every branch of the
heap functions keeps `HeapRep` and changes `used` at one block only:

* `HeapRep.allocWhole`, `HeapRep.allocSplit`   one more block is in use;
* `HeapRep.freePrev`, `HeapRep.freeNext`, `HeapRep.freeBoth`, `HeapRep.freeNone`   it is not any more.
-/

namespace NeonEds
open Exec

structure HeapRep (P : HeapPort) (base s : ℕ) (bs fl : List ℕ) (B : HeapBlocks) : Prop where
  blocks : Closed P.sizeofHeapPhy P.sizeofHeapPhy B.tags s base bs s
  ring : Circular B.free s fl
  mem_free : ∀ b, b ∈ fl ↔ b ∈ bs ∧ 0 < B.tags.size b
  aligned : ∀ b ∈ bs, P.sizeofHeapPhy ∣ b - base

/-- the blocks in use with the sizes of their payloads -/
def used (bs : List ℕ) (B : HeapBlocks) (b : ℕ) : Option ℕ :=
  if b ∈ bs ∧ B.tags.size b < 0 then some (B.tags.size b).natAbs else none

section
variable {P : HeapPort} {base s : ℕ} {bs fl : List ℕ} {B B' : HeapBlocks} {c : ℕ}

theorem used_eq_some {k : ℕ} : used bs B c = some k ↔ c ∈ bs ∧ B.tags.size c = -k ∧ 0 < k := by
  unfold used
  by_cases h : c ∈ bs ∧ B.tags.size c < 0
  · rw [if_pos h, Option.some.injEq]
    constructor
    · rintro rfl
      exact ⟨h.1, by omega, by omega⟩
    · rintro ⟨_, hk, _⟩
      omega
  · rw [if_neg h]
    constructor
    · intro hc
      cases hc
    · rintro ⟨hm, hk, hpos⟩
      exact absurd ⟨hm, by omega⟩ h

theorem used_eq_none : used bs B c = none ↔ c ∉ bs ∨ 0 ≤ B.tags.size c := by
  unfold used
  by_cases h : c ∈ bs ∧ B.tags.size c < 0
  · rw [if_pos h]
    constructor
    · intro hc
      cases hc
    · rintro (hm | hk)
      · exact absurd h.1 hm
      · omega
  · rw [if_neg h]
    refine ⟨fun _ => ?_, fun _ => rfl⟩
    rw [not_and_or] at h
    exact h.imp_right (fun hk => by omega)

theorem used_congr {bs' : List ℕ} (hm : c ∈ bs' ↔ c ∈ bs)
    (hs : c ∈ bs → B'.tags.size c = B.tags.size c) : used bs' B' c = used bs B c := by
  unfold used
  by_cases hc : c ∈ bs
  · simp only [hm, hs hc]
  · rw [if_neg (fun h => hc (hm.mp h.1)), if_neg (fun h => hc h.1)]

/-! ### a block is cut, or blocks are put together -/

section
variable {bs' fl' ds : List ℕ} {d t size : ℕ}

theorem mem_free_split (hfree : ∀ b, b ∈ fl ↔ b ∈ bs ∧ 0 < B.tags.size b)
    (hbs : ∀ b, b ∈ bs' ↔ b = t ∨ b ∈ bs) (hfl : ∀ b, b ∈ fl' ↔ b = t ∨ (b ∈ fl ∧ b ≠ c))
    (hself : B'.tags.size c ≤ 0) (hrest : 0 < B'.tags.size t)
    (hother : ∀ x, x ≠ c → x ≠ t → B'.tags.size x = B.tags.size x) (b : ℕ) :
    b ∈ fl' ↔ b ∈ bs' ∧ 0 < B'.tags.size b := by
  rw [hfl, hbs]
  by_cases hbt : b = t
  · rw [hbt]
    exact iff_of_true (Or.inl rfl) ⟨Or.inl rfl, hrest⟩
  · rw [or_iff_right hbt, or_iff_right hbt, hfree]
    by_cases hbc : b = c
    · rw [hbc]
      exact iff_of_false (fun h => h.2 rfl) (fun h => absurd h.2 (not_lt.mpr hself))
    · rw [hother b hbc hbt, and_iff_left hbc]

theorem used_split (hbs : ∀ b, b ∈ bs' ↔ b = t ∨ b ∈ bs) (ht : t ∉ bs) (hc : c ∈ bs)
    (hself : B'.tags.size c = -size) (hpos : 0 < size) (hrest : 0 < B'.tags.size t)
    (hother : ∀ x, x ≠ c → x ≠ t → B'.tags.size x = B.tags.size x) :
    used bs' B' = Function.update (used bs B) c (some size) := by
  refine Function.eq_update_iff.mpr ⟨?_, fun b hbc => ?_⟩
  · rw [used_eq_some]
    exact ⟨(hbs c).mpr (Or.inr hc), hself, hpos⟩
  · by_cases hbt : b = t
    · rw [hbt, used_eq_none.mpr (Or.inr hrest.le), used_eq_none.mpr (Or.inl ht)]
    · refine used_congr ?_ (fun _ => hother b hbc hbt)
      rw [hbs, or_iff_right hbt]

theorem mem_free_join (hfree : ∀ b, b ∈ fl ↔ b ∈ bs ∧ 0 < B.tags.size b)
    (hbs : ∀ b, b ∈ bs' ↔ b ∈ bs ∧ b ∉ ds) (hfl : ∀ b, b ∈ fl' ↔ b = d ∨ (b ∈ fl ∧ b ∉ ds))
    (hd : d ∈ bs') (hself : 0 < B'.tags.size d)
    (hother : ∀ b ∈ bs', b ≠ d → B'.tags.size b = B.tags.size b) (b : ℕ) :
    b ∈ fl' ↔ b ∈ bs' ∧ 0 < B'.tags.size b := by
  rw [hfl]
  by_cases hbd : b = d
  · rw [hbd]
    exact iff_of_true (Or.inl rfl) ⟨hd, hself⟩
  · rw [or_iff_right hbd, hfree, and_right_comm, ← hbs]
    refine and_congr_right fun hb => ?_
    rw [hother b hb hbd]

theorem used_join (hbs : ∀ b, b ∈ bs' ↔ b ∈ bs ∧ b ∉ ds) (hc : c ∈ d :: ds)
    (hothers : ∀ x ∈ d :: ds, x ≠ c → 0 < B.tags.size x) (hself : 0 < B'.tags.size d)
    (hother : ∀ b ∈ bs', b ≠ d → B'.tags.size b = B.tags.size b) :
    used bs' B' = Function.update (used bs B) c none := by
  have hnone : ∀ x ∈ d :: ds, used bs' B' x = none := by
    intro x hx
    rw [used_eq_none]
    rcases List.mem_cons.mp hx with rfl | hx
    · exact Or.inr hself.le
    · exact Or.inl (fun hm => ((hbs x).mp hm).2 hx)
  refine Function.eq_update_iff.mpr ⟨hnone c hc, fun b hbc => ?_⟩
  by_cases hb : b ∈ d :: ds
  · rw [hnone b hb, used_eq_none.mpr (Or.inr (hothers b hb hbc).le)]
  · rw [List.mem_cons, not_or] at hb
    have hm : b ∈ bs' ↔ b ∈ bs := by rw [hbs, and_iff_left hb.2]
    exact used_congr hm (fun hbm => hother b (hm.mpr hbm) hb.1)

end

theorem HeapPort.sizeofHeapPhy_pos (P : HeapPort) : 0 < P.sizeofHeapPhy := by
  have := P.ptr_eq
  unfold HeapPort.sizeofHeapPhy
  omega

theorem HeapPort.next_ne (P : HeapPort) (T : Tags) (c : ℕ) : T.next P.sizeofHeapPhy c ≠ c := by
  have hpos := P.sizeofHeapPhy_pos
  unfold Tags.next
  omega

namespace HeapRep

theorem congr (h : HeapRep P base s bs fl B)
    (hprev : ∀ b, b = s ∨ b ∈ bs → B'.tags.prev b = B.tags.prev b)
    (hsize : ∀ b, b = s ∨ b ∈ bs → B'.tags.size b = B.tags.size b)
    (hfree : ∀ b ∈ s :: fl, B'.free.EqAt B.free b) : HeapRep P base s bs fl B' := by
  refine ⟨h.blocks.congr hprev hsize (hsize s (Or.inl rfl)), h.ring.congr hfree, fun b => ?_, h.aligned⟩
  rw [h.mem_free]
  constructor
  · rintro ⟨hb, hp⟩
    exact ⟨hb, by rw [hsize b (Or.inr hb)]; exact hp⟩
  · rintro ⟨hb, hp⟩
    exact ⟨hb, by rw [← hsize b (Or.inr hb)]; exact hp⟩

theorem size_ne_zero (h : HeapRep P base s bs fl B) {b : ℕ} (hb : b ∈ bs) : B.tags.size b ≠ 0 := by
  have hl := (h.blocks.bounds hb).2.2
  have hp := P.sizeofHeapPhy_pos
  omega

theorem ne_sentinel (h : HeapRep P base s bs fl B) {b : ℕ} (hb : b ∈ bs) : b ≠ s := by
  have hl := (h.blocks.bounds hb).2.1
  have hp := P.sizeofHeapPhy_pos
  unfold Tags.next at hl
  omega

theorem mem_of_ring (h : HeapRep P base s bs fl B) {b : ℕ} (hb : b ∈ s :: fl) : b = s ∨ b ∈ bs := by
  rcases List.mem_cons.mp hb with hb | hb
  · exact Or.inl hb
  · exact Or.inr ((h.mem_free b).mp hb).1

theorem notMem_ring (h : HeapRep P base s bs fl B) (hc : c ∈ bs) (hz : B.tags.size c < 0) :
    c ∉ s :: fl := by
  intro hm
  rcases List.mem_cons.mp hm with hm | hm
  · exact h.ne_sentinel hc hm
  · have := ((h.mem_free c).mp hm).2
    omega

theorem ring_neighbours (h : HeapRep P base s bs fl B) (hc : c ∈ fl) :
    ∃ x y, B.free.prev c = some x ∧ B.free.next c = some y ∧ x ∈ s :: fl ∧ y ∈ s :: fl ∧ x ≠ c ∧
      y ≠ c := by
  obtain ⟨xs, ys, rfl⟩ := List.append_of_mem hc
  obtain ⟨x, y, hx, hy, hxm, hym, hxc, hyc⟩ := h.ring.exists_neighbours
  have hsub : ∀ z ∈ s :: (xs ++ ys), z ∈ s :: (xs ++ c :: ys) := by
    intro z hz
    simp only [List.mem_cons, List.mem_append] at hz ⊢
    tauto
  exact ⟨x, y, hx, hy, hsub x hxm, hsub y hym, hxc, hyc⟩

theorem next_mem (h : HeapRep P base s bs fl B) (hc : c ∈ bs) :
    B.tags.next P.sizeofHeapPhy c = s ∨ B.tags.next P.sizeofHeapPhy c ∈ bs := by
  obtain ⟨l, r, rfl⟩ := List.append_of_mem hc
  rcases h.blocks.after_eq with ⟨_, hs⟩ | ⟨r', rfl⟩
  · exact Or.inl hs
  · right
    simp

theorem prev_mem (h : HeapRep P base s bs fl B) (hc : c ∈ bs) :
    B.tags.prev c ≠ c ∧ (B.tags.prev c = s ∨
      B.tags.prev c ∈ bs ∧ B.tags.next P.sizeofHeapPhy (B.tags.prev c) = c) := by
  obtain ⟨l, r, rfl⟩ := List.append_of_mem hc
  have hne := fun x hx => h.blocks.ne_of_split (x := x) P.sizeofHeapPhy_pos hx
  rcases h.blocks.before with ⟨_, hs⟩ | ⟨l', hl'⟩
  · exact ⟨hne _ (Or.inl hs), Or.inl hs⟩
  · refine ⟨hne _ (Or.inr (Or.inl ?_)), Or.inr ⟨?_, ?_⟩⟩
    · rw [hl']
      simp
    · rw [hl']
      simp
    · have hb := h.blocks
      rw [hl', List.append_assoc, List.singleton_append] at hb
      obtain ⟨q, e, hds, _⟩ := hb.tiles_cons [c] r rfl
      exact hds.1.symm

/-- the sentinel has a negative size and no block has the size 0 -/
theorem tag_ne_zero (h : HeapRep P base s bs fl B) {b : ℕ} (hb : b = s ∨ b ∈ bs) :
    B.tags.size b ≠ 0 := by
  rcases hb with rfl | hb
  · rw [h.blocks.sentinel]
    decide
  · exact h.size_ne_zero hb

theorem mem_of_pos (h : HeapRep P base s bs fl B) {b : ℕ} (hb : b = s ∨ b ∈ bs)
    (hpos : 0 < B.tags.size b) : b ∈ bs := by
  refine hb.resolve_left fun e => ?_
  rw [e, h.blocks.sentinel] at hpos
  exact absurd hpos (by decide)

theorem init (hbs : base ≠ s) (hps : B.tags.prev base = s) (hpb : B.tags.prev s = base)
    (hsize : B.tags.size base = s - base - P.sizeofHeapPhy) (hs : B.tags.size s = -1)
    (hle : base + 2 * P.sizeofHeapPhy ≤ s) (hsn : B.free.next s = some base)
    (hsp : B.free.prev s = some base) (hbn : B.free.next base = some s)
    (hbp : B.free.prev base = some s) : HeapRep P base s [base] [base] B := by
  have hpos := P.sizeofHeapPhy_pos
  refine ⟨⟨rfl, ⟨hps, by omega, by omega⟩, ?_, hpb, hs⟩, ⟨⟨⟨hsn, hbp⟩, hbn, hsp⟩, ?_⟩, fun b => ?_,
    fun b hb => ?_⟩
  · unfold Tags.next
    omega
  · simp [hbs.symm]
  · constructor
    · intro hb
      refine ⟨hb, ?_⟩
      rw [List.mem_singleton.mp hb]
      omega
    · exact fun hb => hb.1
  · rw [List.mem_singleton.mp hb, Nat.sub_self]
    exact dvd_zero _

/-! ## allocation -/

theorem allocWhole (h : HeapRep P base s bs fl B) (hc : c ∈ fl) {p q : ℕ}
    (hp : B.free.prev c = some p) (hq : B.free.next c = some q)
    (hB : B' = ⟨⟨B.tags.prev, Function.update B.tags.size c (-B.tags.size c)⟩, B.free.unlink p q⟩) :
    ∃ fl', HeapRep P base s bs fl' B' ∧
      used bs B' = Function.update (used bs B) c (some (B.tags.size c).toNat) := by
  have hsize : B'.tags.size = Function.update B.tags.size c (-B.tags.size c) := by rw [hB]
  have hprev : B'.tags.prev = B.tags.prev := by rw [hB]
  have hfree : B'.free = B.free.unlink p q := by rw [hB]
  obtain ⟨hcb, hpos⟩ := (h.mem_free c).mp hc
  obtain ⟨xs, ys, rfl⟩ := List.append_of_mem hc
  obtain ⟨l, r, rfl⟩ := List.append_of_mem hcb
  have hself : B'.tags.size c = -B.tags.size c := by rw [hsize, Function.update_self]
  have hother : ∀ x, x ≠ c → B'.tags.size x = B.tags.size x := by
    intro x hx
    rw [hsize, Function.update_of_ne hx]
  have hnext : B'.tags.next P.sizeofHeapPhy c = B.tags.next P.sizeofHeapPhy c := by
    unfold Tags.next
    rw [hself, Int.natAbs_neg]
  have hne : ∀ x, x = s ∨ x ∈ l ∨ x ∈ r → x ≠ c :=
    fun x hx => h.blocks.ne_of_split P.sizeofHeapPhy_pos hx
  refine ⟨xs ++ ys, ⟨?_, ?_, fun b => ?_, h.aligned⟩, ?_⟩
  · refine Closed.join [] h.blocks P.sizeofHeapPhy_pos ⟨rfl, rfl⟩ (fun x hx => hother x (hne x hx))
      (fun x _ _ => by rw [hprev]) ?_ hnext ?_ (fun hc' => ?_) (hother s (hne s (Or.inl rfl)))
    · rw [hprev]
      exact h.blocks.prev_next
    · rw [hself, Int.natAbs_neg]
      exact (h.blocks.bounds hcb).2.2
    · rw [hself] at hc'
      omega
  · rw [hfree]
    exact h.ring.unlink_mem hp hq
  · rw [h.ring.mem_remove, h.mem_free b]
    by_cases hbc : b = c
    · rw [hbc, hself]
      exact ⟨fun hx => absurd rfl hx.2, fun hx => by omega⟩
    · rw [hother b hbc]
      exact ⟨fun hx => hx.1, fun hx => ⟨hx, hbc⟩⟩
  · refine Function.eq_update_iff.mpr ⟨?_, fun b hbc => used_congr Iff.rfl (fun _ => hother b hbc)⟩
    rw [used_eq_some, hself]
    exact ⟨hcb, by omega, by omega⟩

theorem allocSplit (h : HeapRep P base s bs fl B) (hc : c ∈ fl) {p q size t : ℕ}
    (hp : B.free.prev c = some p) (hq : B.free.next c = some q)
    (ht : t = c + size + P.sizeofHeapPhy) (hleast : P.sizeofHeapPhy ≤ size)
    (hdvd : P.sizeofHeapPhy ∣ size) (hlt : size + 2 * P.sizeofHeapPhy < B.tags.size c)
    (hB : B' = ⟨⟨Function.update (Function.update B.tags.prev t c) (B.tags.next P.sizeofHeapPhy c) t,
        Function.update (Function.update B.tags.size t (B.tags.size c - size - P.sizeofHeapPhy)) c
          (-size)⟩, B.free.replace p q t⟩) :
    ∃ bs' fl', HeapRep P base s bs' fl' B' ∧
      used bs' B' = Function.update (used bs B) c (some size) ∧ ∀ b ∈ bs', b = t ∨ b ∈ bs := by
  have hsize : B'.tags.size = Function.update (Function.update B.tags.size t
      (B.tags.size c - size - P.sizeofHeapPhy)) c (-size) := by rw [hB]
  have hprev : B'.tags.prev = Function.update (Function.update B.tags.prev t c)
      (B.tags.next P.sizeofHeapPhy c) t := by rw [hB]
  have hfree : B'.free = B.free.replace p q t := by rw [hB]
  have hpos := P.sizeofHeapPhy_pos
  obtain ⟨hcb, _⟩ := (h.mem_free c).mp hc
  have htc : t ≠ c := by omega
  have hself : B'.tags.size c = -size := by rw [hsize, Function.update_self]
  have hselft : B'.tags.size t = B.tags.size c - size - P.sizeofHeapPhy := by
    rw [hsize, Function.update_of_ne htc, Function.update_self]
  have hother : ∀ x, x ≠ c → x ≠ t → B'.tags.size x = B.tags.size x := by
    intro x hxc hxt
    rw [hsize, Function.update_of_ne hxc, Function.update_of_ne hxt]
  -- the rest lies inside the block, so it is no block of the heap yet
  have hfresh : ∀ x, x = s ∨ x ∈ bs → x ≠ t := by
    rintro x hx rfl
    have hap := h.blocks.apart hcb hx htc
    unfold Tags.next at hap
    omega
  have hnextc : B'.tags.next P.sizeofHeapPhy c = t := by
    unfold Tags.next
    rw [hself]
    omega
  have hnextt : B'.tags.next P.sizeofHeapPhy t = B.tags.next P.sizeofHeapPhy c := by
    unfold Tags.next
    rw [hselft]
    omega
  have htn : t ≠ B.tags.next P.sizeofHeapPhy c := by
    unfold Tags.next
    omega
  obtain ⟨xs, ys, rfl⟩ := List.append_of_mem hc
  obtain ⟨l, r, rfl⟩ := List.append_of_mem hcb
  have hne : ∀ x, x = s ∨ x ∈ l ∨ x ∈ r → x ≠ c := fun x hx => h.blocks.ne_of_split hpos hx
  have hmem : ∀ x, x = s ∨ x ∈ l ∨ x = c ∨ x ∈ r → x = s ∨ x ∈ l ++ c :: r := by
    intro x hx
    rw [List.mem_append, List.mem_cons]
    exact hx
  have hsame : ∀ x, x = s ∨ x ∈ l ∨ x ∈ r → B'.tags.size x = B.tags.size x := by
    intro x hx
    exact hother x (hne x hx) (hfresh x (hmem x (hx.imp_right (fun hx => hx.imp_right Or.inr))))
  have hbs' : ∀ b, b ∈ l ++ c :: t :: r ↔ b = t ∨ b ∈ l ++ c :: r := by
    intro b
    simp only [List.mem_append, List.mem_cons]
    tauto
  refine ⟨l ++ c :: t :: r, xs ++ t :: ys, ⟨?_, ?_, fun b => ?_, fun b hb => ?_⟩, ?_,
    fun b hb => (hbs' b).mp hb⟩
  · refine h.blocks.split hpos hsame (fun x hx hxn => ?_) hnextc ?_ hnextt ?_ ?_ ?_ ?_ ?_
      (hsame s (Or.inl rfl))
    · rw [hprev, Function.update_of_ne hxn, Function.update_of_ne (hfresh x (hmem x hx))]
    · rw [hprev, Function.update_of_ne htn, Function.update_self]
    · rw [hprev, Function.update_self]
    · rw [hself]
      omega
    · rw [hselft]
      omega
    · rw [hself]
      omega
    · omega
  · rw [hfree]
    exact h.ring.replace_mem hp hq (fun hm => hfresh t (h.mem_of_ring hm) rfl)
  · refine mem_free_split h.mem_free hbs' (fun b => ?_) (by omega) (by omega) hother b
    rw [(@List.perm_middle _ t xs ys).mem_iff, List.mem_cons, h.ring.mem_remove]
  · rcases (hbs' b).mp hb with rfl | hb
    · have hle := (h.blocks.bounds hcb).1
      have hal := h.aligned c hcb
      have heq : b - base = (c - base) + size + P.sizeofHeapPhy := by omega
      rw [heq]
      exact Nat.dvd_add (Nat.dvd_add hal hdvd) (dvd_refl _)
    · exact h.aligned b hb
  · exact used_split hbs' (fun hm => hfresh t (Or.inr hm) rfl) hcb hself (by omega) (by omega) hother

/-! ## release -/

/-- **The block `c` is given back**: it is one of the blocks `d :: ds`, the others are free, and all of
them become the one free block `d`. -/
theorem release {l r fl' : List ℕ} (ds : List ℕ) {d q e : ℕ}
    (h : HeapRep P base s (l ++ d :: (ds ++ r)) fl B)
    (hds : Tiles P.sizeofHeapPhy P.sizeofHeapPhy B.tags d (B.tags.next P.sizeofHeapPhy d) ds q e)
    (hc : c ∈ d :: ds) (hothers : ∀ x ∈ d :: ds, x ≠ c → 0 < B.tags.size x)
    (hbefore : B.tags.size (B.tags.prev d) ≤ 0) (hafter : B.tags.size e ≤ 0)
    (hself : B'.tags.size d = e - d - P.sizeofHeapPhy)
    (hsize : ∀ x, x ≠ c → x ≠ d → B'.tags.size x = B.tags.size x)
    (hprev : B'.tags.prev = Function.update B.tags.prev e d)
    (hring : Circular B'.free s fl') (hfl : ∀ b, b ∈ fl' ↔ b = d ∨ (b ∈ fl ∧ b ∉ ds)) :
    HeapRep P base s (l ++ d :: r) fl' B' ∧
      used (l ++ d :: r) B' = Function.update (used (l ++ d :: (ds ++ r)) B) c none ∧
      ∀ b ∈ l ++ d :: r, b ∈ l ++ d :: (ds ++ r) := by
  have hpos := P.sizeofHeapPhy_pos
  have hdb : d ∈ l ++ d :: (ds ++ r) := by simp
  have hleast := (h.blocks.bounds hdb).2.2
  have hle := hds.le
  unfold Tags.next at hle
  have hselfpos : 0 < B'.tags.size d := by omega
  -- the blocks that are put together come nowhere else
  have hned : ∀ x, x = s ∨ x ∈ l ∨ x ∈ r → x ≠ d :=
    fun x hx => h.blocks.ne_of_split hpos (hx.imp_right (fun hx => hx.imp_right (by simp; tauto)))
  have hneds : ∀ y ∈ ds, ∀ x, x = s ∨ x ∈ l ++ d :: r → x ≠ y := by
    intro y hy x hx
    obtain ⟨ds₁, ds₂, rfl⟩ := List.append_of_mem hy
    have hb := h.blocks
    have hlist : l ++ d :: ((ds₁ ++ y :: ds₂) ++ r) = (l ++ d :: ds₁) ++ y :: (ds₂ ++ r) := by simp
    rw [hlist] at hb
    refine hb.ne_of_split hpos (hx.imp_right fun hx => ?_)
    simp only [List.mem_append, List.mem_cons] at hx ⊢
    tauto
  have hbs' : ∀ b, b ∈ l ++ d :: r ↔ b ∈ l ++ d :: (ds ++ r) ∧ b ∉ ds := by
    intro b
    have hn : b ∈ l ++ d :: r → b ∉ ds := fun hb hbds => hneds b hbds b (Or.inr hb) rfl
    simp only [List.mem_append, List.mem_cons] at hn ⊢
    tauto
  have hsub : ∀ b ∈ l ++ d :: r, b ∈ l ++ d :: (ds ++ r) := fun b hb => ((hbs' b).mp hb).1
  have hsame : ∀ x, x = s ∨ x ∈ l ∨ x ∈ r → B'.tags.size x = B.tags.size x := by
    intro x hx
    have hxd := hned x hx
    refine hsize x (fun hxc => ?_) hxd
    rcases List.mem_cons.mp hc with hcd | hcds
    · exact hxd (hxc.trans hcd)
    · refine hneds c hcds x (hx.imp_right fun hx => ?_) hxc
      simp only [List.mem_append, List.mem_cons]
      tauto
  have hother : ∀ b ∈ l ++ d :: r, b ≠ d → B'.tags.size b = B.tags.size b := by
    intro b hb hbd
    refine hsame b (Or.inr ?_)
    simp only [List.mem_append, List.mem_cons] at hb
    tauto
  refine ⟨⟨?_, hring, ?_, fun b hb => h.aligned b (hsub b hb)⟩, ?_, hsub⟩
  · refine Closed.join ds h.blocks hpos hds hsame (fun x _ hxe => ?_) ?_ ?_ ?_ (fun _ => ⟨hbefore, hafter⟩)
      (hsame s (Or.inl rfl))
    · rw [hprev, Function.update_of_ne hxe]
    · rw [hprev, Function.update_self]
    · unfold Tags.next
      omega
    · omega
  · exact mem_free_join h.mem_free hbs' hfl (by simp) hselfpos hother
  · exact used_join hbs' hc hothers hselfpos hother

theorem freePrev (h : HeapRep P base s bs fl B) (hc : c ∈ bs) (hz : B.tags.size c < 0)
    (hp : 0 < B.tags.size (B.tags.prev c)) (hn : B.tags.size (B.tags.next P.sizeofHeapPhy c) ≤ 0)
    (hself : B'.tags.size (B.tags.prev c)
      = B.tags.size (B.tags.prev c) + -B.tags.size c + P.sizeofHeapPhy)
    (hsize : ∀ x, x ≠ c → x ≠ B.tags.prev c → B'.tags.size x = B.tags.size x)
    (hprev : B'.tags.prev = Function.update B.tags.prev (B.tags.next P.sizeofHeapPhy c) (B.tags.prev c))
    (hfree : B'.free = B.free) :
    ∃ bs' fl', HeapRep P base s bs' fl' B' ∧ used bs' B' = Function.update (used bs B) c none ∧
      ∀ b ∈ bs', b ∈ bs := by
  obtain ⟨l, r, rfl⟩ := List.append_of_mem hc
  obtain ⟨_, hs⟩ | ⟨l, rfl⟩ := h.blocks.before
  · rw [hs, h.blocks.sentinel] at hp
    exact absurd hp (by decide)
  · generalize hpe : B.tags.prev c = p at *
    rw [List.append_assoc, List.singleton_append] at h ⊢
    have hpb : p ∈ l ++ p :: (c :: r) := by simp
    have hpfl : p ∈ fl := (h.mem_free p).mpr ⟨hpb, hp⟩
    obtain ⟨q, e, hds, _⟩ := h.blocks.tiles_cons [c] r rfl
    have hds' := hds
    obtain ⟨hcp, hfits, rfl, rfl⟩ := hds
    refine ⟨_, fl, h.release [c] hds' (List.mem_cons_of_mem _ (List.mem_cons_self ..)) (fun x hx hxc => ?_)
      (h.blocks.neighbours hp).1 hn ?_ hsize hprev (hfree ▸ h.ring) (fun b => ?_)⟩
    · rcases List.mem_cons.mp hx with hx | hx
      · rw [hx]
        exact hp
      · exact absurd (List.mem_singleton.mp hx) hxc
    · unfold Tags.next at hcp ⊢
      rw [hself]
      omega
    · constructor
      · intro hb
        by_cases hbp : b = p
        · exact Or.inl hbp
        · refine Or.inr ⟨hb, fun hm => ?_⟩
          rw [List.mem_singleton] at hm
          have := ((h.mem_free b).mp hb).2
          rw [hm] at this
          omega
      · rintro (hb | hb)
        · rw [hb]
          exact hpfl
        · exact hb.1

theorem freeNext (h : HeapRep P base s bs fl B) (hc : c ∈ bs) (hz : B.tags.size c < 0) {t x y : ℕ}
    (ht : t = B.tags.next P.sizeofHeapPhy c) (hx : B.free.prev t = some x)
    (hy : B.free.next t = some y) (hp : B.tags.size (B.tags.prev c) ≤ 0) (hn : 0 < B.tags.size t)
    (hself : B'.tags.size c = -B.tags.size c + B.tags.size t + P.sizeofHeapPhy)
    (hsize : ∀ x, x ≠ c → B'.tags.size x = B.tags.size x)
    (hprev : B'.tags.prev = Function.update B.tags.prev (B.tags.next P.sizeofHeapPhy t) c)
    (hfree : B'.free = B.free.replace x y c) :
    ∃ bs' fl', HeapRep P base s bs' fl' B' ∧ used bs' B' = Function.update (used bs B) c none ∧
      ∀ b ∈ bs', b ∈ bs := by
  have hcring := h.notMem_ring hc hz
  obtain ⟨l, r, rfl⟩ := List.append_of_mem hc
  obtain ⟨_, hs⟩ | ⟨r, rfl⟩ := h.blocks.after_eq
  · rw [ht, hs, h.blocks.sentinel] at hn
    exact absurd hn (by decide)
  · rw [← ht] at h ⊢
    obtain ⟨q, e, hds, _⟩ := h.blocks.tiles_cons [t] r rfl
    have hds' := hds
    obtain ⟨htc, hfits, rfl, rfl⟩ := hds
    have htb : t ∈ l ++ c :: t :: r := by simp
    have hlist : l ++ c :: t :: r = (l ++ [c]) ++ t :: r := by simp
    obtain ⟨xs, ys, rfl⟩ := List.append_of_mem ((h.mem_free t).mpr ⟨htb, hn⟩)
    have hnt : B.tags.size (B.tags.next P.sizeofHeapPhy t) ≤ 0 := by
      have hb := h.blocks
      rw [hlist] at hb
      exact (hb.neighbours hn).2
    refine ⟨_, xs ++ c :: ys, h.release [t] hds' (List.mem_cons_self ..) (fun z hzm hzc => ?_) hp hnt ?_
      (fun z hz _ => hsize z hz) hprev ?_ (fun b => ?_)⟩
    · rcases List.mem_cons.mp hzm with hzm | hzm
      · exact absurd hzm hzc
      · rw [List.mem_singleton.mp hzm]
        exact hn
    · rw [hself]
      unfold Tags.next at htc ⊢
      omega
    · rw [hfree]
      exact h.ring.replace_mem hx hy hcring
    · rw [(@List.perm_middle _ c xs ys).mem_iff, List.mem_cons, h.ring.mem_remove,
        List.mem_singleton]

/-- both neighbours are free -/
theorem freeBoth (h : HeapRep P base s bs fl B) (hc : c ∈ bs) (hz : B.tags.size c < 0) {t x y : ℕ}
    (ht : t = B.tags.next P.sizeofHeapPhy c) (hx : B.free.prev t = some x)
    (hy : B.free.next t = some y) (hp : 0 < B.tags.size (B.tags.prev c)) (hn : 0 < B.tags.size t)
    (hself : B'.tags.size (B.tags.prev c) = B.tags.size (B.tags.prev c) +
      (-B.tags.size c + B.tags.size t) + 2 * P.sizeofHeapPhy)
    (hsize : ∀ x, x ≠ c → x ≠ B.tags.prev c → B'.tags.size x = B.tags.size x)
    (hprev : B'.tags.prev = Function.update B.tags.prev (B.tags.next P.sizeofHeapPhy t) (B.tags.prev c))
    (hfree : B'.free = B.free.unlink x y) :
    ∃ bs' fl', HeapRep P base s bs' fl' B' ∧ used bs' B' = Function.update (used bs B) c none ∧
      ∀ b ∈ bs', b ∈ bs := by
  have hcring := h.notMem_ring hc hz
  obtain ⟨l, r, rfl⟩ := List.append_of_mem hc
  obtain ⟨_, hs⟩ | ⟨r, rfl⟩ := h.blocks.after_eq
  · rw [ht, hs, h.blocks.sentinel] at hn
    exact absurd hn (by decide)
  obtain ⟨_, hs⟩ | ⟨l, rfl⟩ := h.blocks.before
  · rw [hs, h.blocks.sentinel] at hp
    exact absurd hp (by decide)
  generalize hpe : B.tags.prev c = p at *
  rw [← ht, List.append_assoc, List.singleton_append] at h ⊢
  obtain ⟨q, e, hds, _⟩ := h.blocks.tiles_cons [c, t] r rfl
  have hds' := hds
  obtain ⟨hcp, _, htc, _, rfl, rfl⟩ := hds
  have hpb : p ∈ l ++ p :: c :: t :: r := by simp
  have htb : t ∈ l ++ p :: c :: t :: r := by simp
  have hpfl := (h.mem_free p).mpr ⟨hpb, hp⟩
  have hpt : p ≠ t := by
    unfold Tags.next at hcp htc
    omega
  have hnt : B.tags.size (B.tags.next P.sizeofHeapPhy t) ≤ 0 := by
    have hb := h.blocks
    have hlist : l ++ p :: c :: t :: r = (l ++ [p, c]) ++ t :: r := by simp
    rw [hlist] at hb
    exact (hb.neighbours hn).2
  obtain ⟨xs, ys, rfl⟩ := List.append_of_mem ((h.mem_free t).mpr ⟨htb, hn⟩)
  refine ⟨_, xs ++ ys, h.release [c, t] hds' (List.mem_cons_of_mem _ (List.mem_cons_self ..))
    (fun z hzm hzc => ?_) (h.blocks.neighbours hp).1 hnt ?_ hsize hprev ?_ (fun b => ?_)⟩
  · rcases List.mem_cons.mp hzm with hzm | hzm
    · rw [hzm]
      exact hp
    · rcases List.mem_cons.mp hzm with hzm | hzm
      · exact absurd hzm hzc
      · rw [List.mem_singleton.mp hzm]
        exact hn
  · rw [hself]
    unfold Tags.next at hcp htc ⊢
    omega
  · rw [hfree]
    exact h.ring.unlink_mem hx hy
  · have hbc : b ∈ xs ++ t :: ys → b ≠ c := fun hb e => hcring (e ▸ List.mem_cons_of_mem _ hb)
    rw [h.ring.mem_remove, List.mem_cons, List.mem_singleton]
    constructor
    · rintro ⟨hb, hbt⟩
      exact Or.inr ⟨hb, fun hm => hm.elim (hbc hb) hbt⟩
    · rintro (hb | ⟨hb, hm⟩)
      · rw [hb]
        exact ⟨hpfl, hpt⟩
      · exact ⟨hb, fun hbt => hm (Or.inr hbt)⟩

theorem freeNone (h : HeapRep P base s bs fl B) (hc : c ∈ bs) (hz : B.tags.size c < 0) {y : ℕ}
    (hy : B.free.next s = some y) (hp : B.tags.size (B.tags.prev c) ≤ 0)
    (hn : B.tags.size (B.tags.next P.sizeofHeapPhy c) ≤ 0)
    (hself : B'.tags.size c = -B.tags.size c) (hsize : ∀ x, x ≠ c → B'.tags.size x = B.tags.size x)
    (hprev : B'.tags.prev = B.tags.prev) (hfree : B'.free = B.free.insertAfter s y c) :
    ∃ bs' fl', HeapRep P base s bs' fl' B' ∧ used bs' B' = Function.update (used bs B) c none ∧
      ∀ b ∈ bs', b ∈ bs := by
  have hcring := h.notMem_ring hc hz
  obtain ⟨l, r, rfl⟩ := List.append_of_mem hc
  refine ⟨_, c :: fl, h.release [] ⟨rfl, rfl⟩ (List.mem_cons_self ..) (fun x hx hxc => ?_) hp hn ?_
    (fun x hx _ => hsize x hx) ?_ (hfree ▸ h.ring.insertAfter hy hcring) (fun b => ?_)⟩
  · exact absurd (List.mem_singleton.mp hx) hxc
  · rw [hself]
    unfold Tags.next
    omega
  · rw [hprev]
    exact (Function.update_eq_self_iff.mpr h.blocks.prev_next.symm).symm
  · rw [List.mem_cons]
    simp

end HeapRep

end

end NeonEds
