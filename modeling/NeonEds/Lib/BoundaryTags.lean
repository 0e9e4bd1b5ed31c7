import Mathlib.Algebra.GroupWithZero.Nat
import Mathlib.Data.Int.Notation
import Mathlib.Data.List.Nodup
import Mathlib.Logic.Function.Basic
import Mathlib.Tactic.Common

/-!
# Blocks with boundary tags

A region of memory is divided into blocks, one after the other: a header of `hdr` bytes, and a payload
of `|size|` bytes, at least `least`.  A block is free iff its size is positive.  The header has the
address of the block before it, `prev`.

`Tiles T p a bs q e`: from the address `a`, which comes after the block `p`, the blocks `bs` lead to the
address `e`, which comes after the block `q`; no two neighbours are free.  `Closed T p a bs s`: they lead
to the sentinel `s`.

* `Closed.apart`   no other block, nor the sentinel, begins inside a block;
* `Closed.split`   a block is cut in two;
* `Closed.join`    a block is put together with those that follow it, or changes its sign;
* `Closed.unique`  the blocks in use determine the others;
* `Closed.sum`     the bytes of a region are headers and payloads.

`Tags.walk` are the blocks that one meets on the way from an address to the sentinel.
-/

structure Tags where
  prev : ℕ → ℕ
  size : ℕ → ℤ

namespace Tags

/-- where the block after `b` begins -/
def next (hdr : ℕ) (T : Tags) (b : ℕ) : ℕ := b + hdr + (T.size b).natAbs

/-- at most `n` blocks from `b` up to the sentinel `s`, with their sizes -/
def walk (hdr : ℕ) (T : Tags) (s : ℕ) : ℕ → ℕ → List (ℕ × ℤ)
  | 0, _ => []
  | n + 1, b => if b = s then [] else (b, T.size b) :: walk hdr T s n (T.next hdr b)

end Tags

section
variable (hdr least : ℕ)

/-- the block at `a` has the block `p` before it -/
structure Fits (T : Tags) (p a : ℕ) : Prop where
  prev : T.prev a = p
  least : least ≤ (T.size a).natAbs
  apart : ¬ (0 < T.size p ∧ 0 < T.size a)

def Tiles (T : Tags) (p a : ℕ) : List ℕ → ℕ → ℕ → Prop
  | [], q, e => p = q ∧ a = e
  | b :: bs, q, e => b = a ∧ Fits least T p b ∧ Tiles T b (T.next hdr b) bs q e

def Closed (T : Tags) (p a : ℕ) : List ℕ → ℕ → Prop
  | [], s => a = s ∧ T.prev s = p ∧ T.size s = -1
  | b :: bs, s => b = a ∧ Fits least T p b ∧ Closed T b (T.next hdr b) bs s

end

section
variable {hdr least : ℕ} {T T' : Tags} {p a q e s b : ℕ} {bs l r : List ℕ}

theorem Tiles.unique (h : Tiles hdr least T p a bs q e) {q' e' : ℕ}
    (h' : Tiles hdr least T p a bs q' e') : q = q' ∧ e = e' := by
  induction bs generalizing p a with
  | nil => exact ⟨h.1.symm.trans h'.1, h.2.symm.trans h'.2⟩
  | cons b bs ih => exact ih h.2.2 h'.2.2

theorem Tiles.le (h : Tiles hdr least T p a bs q e) : a ≤ e := by
  induction bs generalizing p a with
  | nil => exact Nat.le_of_eq h.2
  | cons b bs ih =>
    have := ih h.2.2
    rw [← h.1]
    unfold Tags.next at this
    omega

theorem Tiles.congr (h : Tiles hdr least T p a bs q e)
    (hprev : ∀ x ∈ bs, T'.prev x = T.prev x) (hsize : ∀ x ∈ bs, T'.size x = T.size x)
    (hp : T'.size p = T.size p) : Tiles hdr least T' p a bs q e := by
  induction bs generalizing p a with
  | nil => exact h
  | cons b bs ih =>
    obtain ⟨hb, hfits, htl⟩ := h
    have hs := hsize b (List.mem_cons_self ..)
    refine ⟨hb, ⟨(hprev b (List.mem_cons_self ..)).trans hfits.prev, ?_, ?_⟩, ?_⟩
    · rw [hs]
      exact hfits.least
    · rw [hp, hs]
      exact hfits.apart
    · have hnext : T'.next hdr b = T.next hdr b := by
        unfold Tags.next
        rw [hs]
      rw [hnext]
      exact ih htl (fun x hx => hprev x (List.mem_cons_of_mem _ hx))
        (fun x hx => hsize x (List.mem_cons_of_mem _ hx)) hs

theorem Tiles.mem_or_eq (h : Tiles hdr least T p a bs q e) : q = p ∨ q ∈ bs := by
  induction bs generalizing p a with
  | nil => exact Or.inl h.1.symm
  | cons b bs ih =>
    rcases ih h.2.2 with hq | hq
    · exact Or.inr (hq ▸ List.mem_cons_self ..)
    · exact Or.inr (List.mem_cons_of_mem _ hq)

theorem closed_append : Closed hdr least T p a (l ++ r) s ↔
    ∃ q e, Tiles hdr least T p a l q e ∧ Closed hdr least T q e r s := by
  induction l generalizing p a with
  | nil =>
    constructor
    · exact fun h => ⟨p, a, ⟨rfl, rfl⟩, h⟩
    · rintro ⟨q, e, ⟨rfl, rfl⟩, h⟩
      exact h
  | cons b l ih =>
    constructor
    · rintro ⟨hb, hfits, h⟩
      obtain ⟨q, e, htl, hr⟩ := ih.mp h
      exact ⟨q, e, ⟨hb, hfits, htl⟩, hr⟩
    · rintro ⟨q, e, ⟨hb, hfits, htl⟩, hr⟩
      exact ⟨hb, hfits, ih.mpr ⟨q, e, htl, hr⟩⟩

/-! ### where the blocks lie -/

theorem Tiles.bounds (h : Tiles hdr least T p a bs q e) {x : ℕ} (hx : x ∈ bs) :
    a ≤ x ∧ T.next hdr x ≤ e ∧ least ≤ (T.size x).natAbs := by
  induction bs generalizing p a with
  | nil => cases hx
  | cons b bs ih =>
    obtain ⟨hb, hfits, htl⟩ := h
    have hle := htl.le
    rcases List.mem_cons.mp hx with rfl | hx
    · exact ⟨Nat.le_of_eq hb.symm, hle, hfits.least⟩
    · obtain ⟨h1, h2, h3⟩ := ih htl hx
      unfold Tags.next at h1
      exact ⟨by omega, h2, h3⟩

namespace Closed

theorem le (h : Closed hdr least T p a bs s) : a ≤ s := by
  induction bs generalizing p a with
  | nil => exact Nat.le_of_eq h.1
  | cons b bs ih =>
    have := ih h.2.2
    rw [← h.1]
    unfold Tags.next at this
    omega

theorem bounds (h : Closed hdr least T p a bs s) {x : ℕ} (hx : x ∈ bs) :
    a ≤ x ∧ T.next hdr x ≤ s ∧ least ≤ (T.size x).natAbs := by
  induction bs generalizing p a with
  | nil => cases hx
  | cons b bs ih =>
    obtain ⟨hb, hfits, htl⟩ := h
    have hle := htl.le
    rcases List.mem_cons.mp hx with rfl | hx
    · exact ⟨Nat.le_of_eq hb.symm, hle, hfits.least⟩
    · obtain ⟨h1, h2, h3⟩ := ih htl hx
      unfold Tags.next at h1
      exact ⟨by omega, h2, h3⟩

theorem sentinel (h : Closed hdr least T p a bs s) : T.size s = -1 := by
  induction bs generalizing p a with
  | nil => exact h.2.2
  | cons b bs ih => exact ih h.2.2

/-- **Nothing else begins inside a block.** -/
theorem apart (h : Closed hdr least T p a bs s) {b x : ℕ} (hb : b ∈ bs) (hx : x = s ∨ x ∈ bs)
    (hne : x ≠ b) : x + hdr + least ≤ b ∨ T.next hdr b ≤ x := by
  obtain ⟨l, r, rfl⟩ := List.append_of_mem hb
  obtain ⟨q, e, hl, rfl, hfits, hr⟩ := closed_append.mp h
  rcases hx with rfl | hx
  · exact Or.inr hr.le
  · rcases List.mem_append.mp hx with hx | hx
    · obtain ⟨_, h2, h3⟩ := hl.bounds hx
      unfold Tags.next at h2
      exact Or.inl (by omega)
    · rcases List.mem_cons.mp hx with hx | hx
      · exact absurd hx hne
      · exact Or.inr (hr.bounds hx).1

theorem nodup (h : Closed hdr least T p a bs s) (hpos : 0 < hdr) : (bs ++ [s]).Nodup := by
  induction bs generalizing p a with
  | nil => exact List.nodup_singleton s
  | cons b bs ih =>
    obtain ⟨_, _, htl⟩ := h
    refine List.nodup_cons.mpr ⟨fun hb => ?_, ih htl⟩
    have hlt : T.next hdr b ≤ b := by
      rcases List.mem_append.mp hb with hb | hb
      · exact (htl.bounds hb).1
      · rw [List.mem_singleton] at hb
        rw [hb]
        exact hb ▸ htl.le
    unfold Tags.next at hlt
    omega

theorem length_le (h : Closed hdr least T p a bs s) (hpos : 0 < hdr) : a + bs.length ≤ s := by
  induction bs generalizing p a with
  | nil => exact Nat.le_of_eq h.1
  | cons b bs ih =>
    have := ih h.2.2
    have hb := h.1
    unfold Tags.next at this
    rw [List.length_cons]
    omega

theorem ne_of_split {c x : ℕ} (h : Closed hdr least T p a (l ++ c :: r) s) (hpos : 0 < hdr)
    (hx : x = s ∨ x ∈ l ∨ x ∈ r) : x ≠ c := by
  have hnd := h.nodup hpos
  rw [List.append_assoc, List.cons_append] at hnd
  have hperm := (@List.perm_middle _ c l (r ++ [s])).nodup hnd
  rintro rfl
  apply (List.nodup_cons.mp hperm).1
  rcases hx with hx | hx | hx
  · simp [hx]
  · simp [hx]
  · simp [hx]

theorem before {c : ℕ} (h : Closed hdr least T p a (l ++ c :: r) s) :
    (l = [] ∧ T.prev c = p) ∨ ∃ l', l = l' ++ [T.prev c] := by
  obtain ⟨q, e, hl, rfl, hfits, _⟩ := closed_append.mp h
  rw [hfits.prev]
  rcases List.eq_nil_or_concat l with rfl | ⟨l', x, rfl⟩
  · exact Or.inl ⟨rfl, hl.1.symm⟩
  · right
    rw [List.concat_eq_append] at hl ⊢
    refine ⟨l', ?_⟩
    have hlast : ∀ {p a : ℕ} {l : List ℕ}, Tiles hdr least T p a (l ++ [x]) q c → q = x := by
      intro p a l
      induction l generalizing p a with
      | nil => exact fun h => h.2.2.1.symm
      | cons b l ih => exact fun h => ih h.2.2
    rw [hlast hl]

theorem prev_next {c : ℕ} (h : Closed hdr least T p a (l ++ c :: r) s) : T.prev (T.next hdr c) = c := by
  obtain ⟨_, _, _, _, _, hr⟩ := closed_append.mp h
  cases r with
  | nil =>
    rw [hr.1]
    exact hr.2.1
  | cons b r =>
    rw [← hr.1]
    exact hr.2.1.prev

theorem after_eq {c : ℕ} (h : Closed hdr least T p a (l ++ c :: r) s) :
    (r = [] ∧ T.next hdr c = s) ∨ ∃ r', r = T.next hdr c :: r' := by
  obtain ⟨_, _, _, _, _, hr⟩ := closed_append.mp h
  cases r with
  | nil => exact Or.inl ⟨rfl, hr.1⟩
  | cons b r => exact Or.inr ⟨r, by rw [hr.1]⟩

theorem tiles_cons {c : ℕ} (h : Closed hdr least T p a (l ++ c :: r) s) (ds r' : List ℕ)
    (hr : r = ds ++ r') : ∃ q e, Tiles hdr least T c (T.next hdr c) ds q e ∧
      Closed hdr least T q e r' s := by
  obtain ⟨_, _, _, _, _, hc⟩ := closed_append.mp h
  rw [hr] at hc
  exact closed_append.mp hc

/-- the neighbours of a free block are in use -/
theorem neighbours {c : ℕ} (h : Closed hdr least T p a (l ++ c :: r) s) (hc : 0 < T.size c) :
    T.size (T.prev c) ≤ 0 ∧ T.size (T.next hdr c) ≤ 0 := by
  obtain ⟨_, _, _, rfl, hfits, hr⟩ := closed_append.mp h
  constructor
  · have hap := hfits.apart
    rw [hfits.prev]
    omega
  · cases r with
    | nil =>
      rw [hr.1, hr.2.2]
      decide
    | cons b r =>
      have hap := hr.2.1.apart
      rw [← hr.1]
      omega

/-! ### changes -/

theorem congr (h : Closed hdr least T p a bs s)
    (hprev : ∀ x, x = s ∨ x ∈ bs → T'.prev x = T.prev x)
    (hsize : ∀ x, x = s ∨ x ∈ bs → T'.size x = T.size x) (hp : T'.size p = T.size p) :
    Closed hdr least T' p a bs s := by
  rw [← List.append_nil bs] at h
  obtain ⟨q, e, htl, he, hq, hs⟩ := closed_append.mp h
  rw [← List.append_nil bs]
  refine closed_append.mpr ⟨q, e, htl.congr (fun x hx => hprev x (Or.inr hx))
    (fun x hx => hsize x (Or.inr hx)) hp, he, ?_, ?_⟩
  · rw [hprev s (Or.inl rfl)]
    exact hq
  · exact (hsize s (Or.inl rfl)).trans hs

/-- what comes after a change: only the first header is told of it -/
theorem after (h : Closed hdr least T p a bs s) (hpos : 0 < hdr)
    (hprev : ∀ x, x = s ∨ x ∈ bs → x ≠ a → T'.prev x = T.prev x)
    (hsize : ∀ x, x = s ∨ x ∈ bs → T'.size x = T.size x) {p' : ℕ} (hp : T'.prev a = p')
    (hfree : 0 < T'.size p' → 0 < T.size p ∨ T.size a ≤ 0) :
    Closed hdr least T' p' a bs s := by
  cases bs with
  | nil =>
    obtain ⟨rfl, _, hs⟩ := h
    exact ⟨rfl, hp, (hsize a (Or.inl rfl)).trans hs⟩
  | cons b bs =>
    obtain ⟨rfl, hfits, htl⟩ := h
    have hs := hsize b (Or.inr (List.mem_cons_self ..))
    refine ⟨rfl, ⟨hp, ?_, fun hc => ?_⟩, ?_⟩
    · rw [hs]
      exact hfits.least
    · rw [hs] at hc
      rcases hfree hc.1 with hf | hf
      · exact hfits.apart ⟨hf, hc.2⟩
      · omega
    · -- every later address is greater than that of the first header
      have hgt : ∀ x, x = s ∨ x ∈ bs → x ≠ b := by
        rintro x hx rfl
        have hle : T.next hdr x ≤ x := by
          rcases hx with hx | hx
          · exact hx ▸ htl.le
          · exact (htl.bounds hx).1
        unfold Tags.next at hle
        omega
      have hmem : ∀ x, x = s ∨ x ∈ bs → x = s ∨ x ∈ b :: bs :=
        fun x hx => hx.imp_right (List.mem_cons_of_mem _)
      have hnext : T'.next hdr b = T.next hdr b := by
        unfold Tags.next
        rw [hs]
      rw [hnext]
      exact htl.congr (fun x hx => hprev x (hmem x hx) (hgt x hx)) (fun x hx => hsize x (hmem x hx)) hs

/-- **A block is put together with the blocks `ds` after it**; with none of them it is the sign of its
size that changes. -/
theorem join {c : ℕ} (ds : List ℕ) (h : Closed hdr least T p a (l ++ c :: (ds ++ r)) s)
    (hpos : 0 < hdr) (hds : Tiles hdr least T c (T.next hdr c) ds q e)
    (hsize : ∀ x, x = s ∨ x ∈ l ∨ x ∈ r → T'.size x = T.size x)
    (hprev : ∀ x, x = s ∨ x ∈ l ∨ x = c ∨ x ∈ r → x ≠ e → T'.prev x = T.prev x)
    (he : T'.prev e = c) (hnext : T'.next hdr c = e) (hleast : least ≤ (T'.size c).natAbs)
    (hfree : 0 < T'.size c → T.size (T.prev c) ≤ 0 ∧ T.size e ≤ 0) (hp : T'.size p = T.size p) :
    Closed hdr least T' p a (l ++ c :: r) s := by
  obtain ⟨q₁, _, hl, rfl, hfits, hc⟩ := closed_append.mp h
  obtain ⟨q₂, e₂, hds', hr⟩ := closed_append.mp hc
  obtain ⟨rfl, rfl⟩ := hds.unique hds'
  have hce : T.next hdr c ≤ e := hds.le
  unfold Tags.next at hce
  have hlt : ∀ x ∈ l, x ≠ e := by
    intro x hx
    have hb := (hl.bounds hx).2.1
    unfold Tags.next at hb
    omega
  have hq₁ : T'.size q₁ = T.size q₁ := by
    rcases hl.mem_or_eq with hq | hq
    · rw [hq]
      exact hp
    · exact hsize q₁ (Or.inr (Or.inl hq))
  refine closed_append.mpr ⟨q₁, c, hl.congr (fun x hx => hprev x (Or.inr (Or.inl hx)) (hlt x hx))
    (fun x hx => hsize x (Or.inr (Or.inl hx))) hp, rfl, ⟨?_, hleast, ?_⟩, ?_⟩
  · rw [hprev c (Or.inr (Or.inr (Or.inl rfl))) (by omega)]
    exact hfits.prev
  · rintro ⟨h1, h2⟩
    have hprevfree := (hfree h2).1
    rw [hfits.prev] at hprevfree
    omega
  · rw [hnext]
    refine hr.after hpos (fun x hx hne => hprev x ?_ hne) (fun x hx => hsize x ?_) he
      (fun hc => Or.inr (hfree hc).2)
    · exact hx.imp_right (fun hx => Or.inr (Or.inr hx))
    · exact hx.imp_right Or.inr

/-- **A free block is cut in two**: the front `c` is taken, the rest `t` may stay free. -/
theorem split {c t : ℕ} (h : Closed hdr least T p a (l ++ c :: r) s) (hpos : 0 < hdr)
    (hsize : ∀ x, x = s ∨ x ∈ l ∨ x ∈ r → T'.size x = T.size x)
    (hprev : ∀ x, x = s ∨ x ∈ l ∨ x = c ∨ x ∈ r → x ≠ T.next hdr c → T'.prev x = T.prev x)
    (ht : T'.next hdr c = t) (hprevt : T'.prev t = c) (hend : T'.next hdr t = T.next hdr c)
    (hprevn : T'.prev (T.next hdr c) = t) (hleast : least ≤ (T'.size c).natAbs)
    (hleastt : least ≤ (T'.size t).natAbs) (hc : T'.size c ≤ 0) (hfree : 0 < T.size c)
    (hp : T'.size p = T.size p) : Closed hdr least T' p a (l ++ c :: t :: r) s := by
  obtain ⟨q₁, _, hl, rfl, hfits, hr⟩ := closed_append.mp h
  have hct : c < t := by
    unfold Tags.next at ht
    omega
  have hlt : ∀ x ∈ l, x ≠ T.next hdr c := by
    intro x hx
    have hb := (hl.bounds hx).2.1
    unfold Tags.next at hb ⊢
    omega
  have hne : c ≠ T.next hdr c := by
    unfold Tags.next
    omega
  refine closed_append.mpr ⟨q₁, c, hl.congr (fun x hx => hprev x (Or.inr (Or.inl hx)) (hlt x hx))
    (fun x hx => hsize x (Or.inr (Or.inl hx))) hp, rfl, ⟨?_, hleast, fun hcc => ?_⟩, ht.symm,
    ⟨hprevt, hleastt, fun hcc => ?_⟩, ?_⟩
  · rw [hprev c (Or.inr (Or.inr (Or.inl rfl))) hne]
    exact hfits.prev
  · omega
  · omega
  · rw [hend]
    refine hr.after hpos (fun x hx hne => hprev x ?_ hne) (fun x hx => hsize x ?_) hprevn
      (fun _ => Or.inl hfree)
    · exact hx.imp_right (fun hx => Or.inr (Or.inr hx))
    · exact hx.imp_right Or.inr

/-! ### the blocks as a whole -/

theorem walk_eq (h : Closed hdr least T p a bs s) (hpos : 0 < hdr) {n : ℕ} (hn : bs.length ≤ n) :
    T.walk hdr s n a = bs.map (fun b => (b, T.size b)) := by
  induction bs generalizing p a n with
  | nil =>
    cases n with
    | zero => rfl
    | succ n => exact if_pos h.1
  | cons b bs ih =>
    have hle := h.2.2.le
    cases n with
    | zero => exact absurd hn (Nat.not_succ_le_zero _)
    | succ n =>
      have hne : a ≠ s := by
        rw [← h.1]
        unfold Tags.next at hle
        omega
      rw [Tags.walk, if_neg hne, ← h.1, List.map_cons, ih h.2.2 (Nat.le_of_succ_le_succ hn)]

theorem sum (h : Closed hdr least T p a bs s) :
    a + (bs.map fun b => hdr + (T.size b).natAbs).sum = s := by
  induction bs generalizing p a with
  | nil => exact h.1
  | cons b bs ih =>
    have hrest := ih h.2.2
    rw [List.map_cons, List.sum_cons, ← h.1]
    unfold Tags.next at hrest
    omega

theorem free_le {p' : ℕ} {bs' : List ℕ} (h : Closed hdr least T p a (b :: bs) s)
    (h' : Closed hdr least T' p' a (b :: bs') s) (hpos : 0 < hdr) (hb : 0 < T.size b)
    (hused : ∀ x ∈ bs, T.size x < 0 → x ∈ b :: bs') (hleast : 0 < least) :
    (T'.size b).natAbs ≤ (T.size b).natAbs := by
  by_contra hlt
  -- the block after the smaller one is in use, and it lies inside the larger one
  have hend : T.next hdr b < T'.next hdr b := by
    unfold Tags.next
    omega
  have hle' := h'.2.2.le
  cases bs with
  | nil =>
    have hs : T.next hdr b = s := h.2.2.1
    omega
  | cons d ds =>
    obtain ⟨hd, hfits, _⟩ := h.2.2
    have hneg : T.size d < 0 := by
      have hap := hfits.apart
      have hl := hfits.least
      omega
    have hgt : b < d := by
      rw [hd]
      unfold Tags.next
      omega
    rcases List.mem_cons.mp (hused d List.mem_cons_self hneg) with hdb | hmem
    · omega
    · have hge := (h'.2.2.bounds hmem).1
      omega

/-- **The blocks in use determine the others**, for between them there is one free block at most. -/
theorem unique {p' : ℕ} {bs' : List ℕ} (h : Closed hdr least T p a bs s)
    (h' : Closed hdr least T' p' a bs' s) (hpos : 0 < hdr) (hleast : 0 < least)
    (hused : ∀ x z, z < 0 → (x ∈ bs ∧ T.size x = z ↔ x ∈ bs' ∧ T'.size x = z)) :
    bs' = bs ∧ ∀ x ∈ bs, T'.size x = T.size x := by
  induction bs generalizing p p' a bs' with
  | nil =>
    cases bs' with
    | nil => exact ⟨rfl, fun x hx => absurd hx List.not_mem_nil⟩
    | cons b' bs' =>
      have hle := h'.2.2.le
      have ha : a = s := h.1
      rw [h'.1] at hle
      unfold Tags.next at hle
      omega
  | cons b bs ih =>
    obtain ⟨rfl, hfits, htl⟩ := h
    have hle := htl.le
    cases bs' with
    | nil =>
      have ha : b = s := h'.1
      unfold Tags.next at hle
      omega
    | cons b' bs' =>
      obtain ⟨rfl, hfits', htl'⟩ := h'
      have hl := hfits.least
      have hl' := hfits'.least
      have hlater : ∀ {T₁ : Tags} {q : ℕ} {l : List ℕ}, Closed hdr least T₁ q (T₁.next hdr b') l s →
          b' ∉ l := by
        intro T₁ q l hc hmem
        have hge := (hc.bounds hmem).1
        unfold Tags.next at hge
        omega
      have hsize : T'.size b' = T.size b' := by
        by_cases hneg : T.size b' < 0
        · exact ((hused b' (T.size b') hneg).mp ⟨List.mem_cons_self, rfl⟩).2
        · have hneg' : ¬ T'.size b' < 0 := by
            intro hc
            have hsame := ((hused b' (T'.size b') hc).mpr ⟨List.mem_cons_self, rfl⟩).2
            omega
          have h1 := free_le ⟨rfl, hfits, htl⟩ ⟨rfl, hfits', htl'⟩ hpos (by omega)
            (fun x hx hz => ((hused x (T.size x) hz).mp ⟨List.mem_cons_of_mem _ hx, rfl⟩).1) hleast
          have h2 := free_le ⟨rfl, hfits', htl'⟩ ⟨rfl, hfits, htl⟩ hpos (by omega)
            (fun x hx hz => ((hused x (T'.size x) hz).mpr ⟨List.mem_cons_of_mem _ hx, rfl⟩).1) hleast
          omega
      have hnext : T'.next hdr b' = T.next hdr b' := by
        unfold Tags.next
        rw [hsize]
      have hnotin := hlater htl
      have hnotin' := hlater htl'
      rw [hnext] at htl'
      obtain ⟨rfl, hsizes⟩ := ih htl htl' (fun x z hz => by
        by_cases hx : x = b'
        · rw [hx]
          exact iff_of_false (fun hc => hnotin hc.1) (fun hc => hnotin' hc.1)
        · have hiff := hused x z hz
          rw [List.mem_cons, List.mem_cons] at hiff
          simpa only [hx, false_or] using hiff)
      refine ⟨rfl, fun x hx => ?_⟩
      rcases List.mem_cons.mp hx with rfl | hx
      · exact hsize
      · exact hsizes x hx

end Closed

end
