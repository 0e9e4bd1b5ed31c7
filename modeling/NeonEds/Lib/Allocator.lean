import Mathlib.Data.List.Nodup
import Mathlib.Logic.Function.Basic
import NeonEds.Lib.Exec

/-!
# Allocators

An allocator answers a request with the address of a block, or with nothing, and takes blocks back.
`out a = some n`: the block at `a` is out, `n` was asked for.

* `Keeps`                what an allocator promises in the states `Rep`;
* `Apart`                several allocators whose blocks lie apart, `out a = some (i, n)`;
* `Apart.alloc`, `Apart.free`, `Apart.write`   a call on one of them leaves the others alone;
* `Apart.freeAll`        so blocks of any of them are given back, each once;
* `Reads`                and what is written into a block stays there, whatever becomes of the others.
-/

/-- with states `σ`, addresses `α` and blocks of elements `β` -/
structure Allocator (σ α β : Type) where
  alloc : σ → ℕ → Exec (Option α × σ)
  free : σ → α → Exec σ
  write : σ → α → ℕ → β → σ

namespace Allocator
open Exec

variable {σ α β ι : Type} [DecidableEq α] [DecidableEq ι]

/-- requests of `n` with `asks n` are admitted, the blocks lie in `own` -/
structure Keeps (A : Allocator σ α β) (asks : ℕ → Prop) (own : α → Prop)
    (Rep : σ → (α → Option ℕ) → Prop) : Prop where
  fault : ∀ {s out n f}, Rep s out → asks n → A.alloc s n = .error f → f = .assertion
  refuse : ∀ {s out n s'}, Rep s out → asks n → A.alloc s n = .ok (none, s') → Rep s' out
  alloc : ∀ {s out n a s'}, Rep s out → asks n → A.alloc s n = .ok (some a, s') →
    out a = none ∧ Rep s' (Function.update out a (some n))
  free : ∀ {s out a}, Rep s out → (out a).isSome →
    ∃ s', A.free s a = .ok s' ∧ Rep s' (Function.update out a none)
  write : ∀ {s out a n i x}, Rep s out → out a = some n → i < n → Rep (A.write s a i x) out
  inside : ∀ {s out a}, Rep s out → (out a).isSome → own a

/-- `read s a i` is the element `i` of the block at `a` -/
structure Reads (A : Allocator σ α β) (asks : ℕ → Prop) (Rep : σ → (α → Option ℕ) → Prop)
    (read : σ → α → ℕ → β) : Prop where
  alloc : ∀ {s out n r s' a k i}, Rep s out → asks n → A.alloc s n = .ok (r, s') → out a = some k →
    i < k → read s' a i = read s a i
  free : ∀ {s out b s' a k i}, Rep s out → (out b).isSome → A.free s b = .ok s' → out a = some k →
    i < k → a ≠ b → read s' a i = read s a i
  write : ∀ {s out b n j x a k i}, Rep s out → out b = some n → j < n → out a = some k → i < k →
    a ≠ b ∨ i ≠ j → read (A.write s b j x) a i = read s a i
  written : ∀ s a i x, read (A.write s a i x) a i = x

structure Apart (A : Allocator σ α β) (asks : ι → ℕ → Prop) (own : ι → α → Prop)
    (Rep : ι → σ → (α → Option ℕ) → Prop) : Prop where
  keeps : ∀ i, A.Keeps (asks i) (own i) (Rep i)
  apart : ∀ i j a, own i a → own j a → i = j

/-- the blocks of the allocator `i` -/
def share (out : α → Option (ι × ℕ)) (i : ι) (a : α) : Option ℕ :=
  match out a with
  | some (j, n) => if j = i then some n else none
  | none => none

def Holds (Rep : ι → σ → (α → Option ℕ) → Prop) (mems : ι → σ) (out : α → Option (ι × ℕ)) : Prop :=
  ∀ i, Rep i (mems i) (share out i)

/-- blocks are given back one after the other, each to the allocator that it names -/
def freeAll (A : Allocator σ α β) : (ι → σ) → List (Option ι × α) → Exec (ι → σ)
  | mems, [] => .ok mems
  | mems, (i, a) :: calls => do
    let i ← deref i
    let s ← A.free (mems i) a
    freeAll A (Function.update mems i s) calls

section
variable {out : α → Option (ι × ℕ)} {i j : ι} {a : α} {n : ℕ}

omit [DecidableEq α] in
theorem share_none (h : out a = none) : share out i a = none := by
  unfold share
  rw [h]

omit [DecidableEq α] in
theorem share_some (h : out a = some (i, n)) : share out i a = some n := by
  unfold share
  rw [h]
  exact if_pos rfl

omit [DecidableEq α] in
theorem share_of_ne (h : out a = some (j, n)) (hij : j ≠ i) : share out i a = none := by
  unfold share
  rw [h]
  exact if_neg hij

theorem share_update (out : α → Option (ι × ℕ)) (i j : ι) (a : α) (x : Option ℕ)
    (hj : j ≠ i → share out j a = none) :
    share (Function.update out a (x.map fun n => (i, n))) j
      = if j = i then Function.update (share out i) a x else share out j := by
  funext b
  by_cases hb : b = a
  · rw [hb]
    by_cases hij : j = i
    · rw [if_pos hij, hij, Function.update_self]
      cases x with
      | none => exact share_none (Function.update_self ..)
      | some n => exact share_some (Function.update_self ..)
    · rw [if_neg hij, hj hij]
      cases x with
      | none => exact share_none (Function.update_self ..)
      | some n => exact share_of_ne (Function.update_self ..) (Ne.symm hij)
  · have hshare : ∀ k, share (Function.update out a (x.map fun n => (i, n))) k b = share out k b := by
      intro k
      unfold share
      rw [Function.update_of_ne hb]
    rw [hshare]
    by_cases hij : j = i
    · rw [if_pos hij, Function.update_of_ne hb, hij]
    · rw [if_neg hij]

end

section
variable {A : Allocator σ α β} {asks : ι → ℕ → Prop} {own : ι → α → Prop}
  {Rep : ι → σ → (α → Option ℕ) → Prop} {mems : ι → σ} {out : α → Option (ι × ℕ)} {i : ι} {a : α}
  {n : ℕ} {s : σ}

theorem Holds.update (h : Holds Rep mems out) {x : Option ℕ}
    (hother : ∀ j, j ≠ i → share out j a = none)
    (hi : Rep i s (Function.update (share out i) a x)) :
    Holds Rep (Function.update mems i s) (Function.update out a (x.map fun n => (i, n))) := by
  intro j
  rw [share_update out i j a x (hother j)]
  by_cases hij : j = i
  · rw [if_pos hij, hij, Function.update_self]
    exact hi
  · rw [if_neg hij, Function.update_of_ne hij]
    exact h j

omit [DecidableEq α] in
theorem Holds.update_same (h : Holds Rep mems out) (hi : Rep i s (share out i)) :
    Holds Rep (Function.update mems i s) out := by
  intro j
  by_cases hij : j = i
  · rw [hij, Function.update_self]
    exact hi
  · rw [Function.update_of_ne hij]
    exact h j

namespace Apart

theorem share_other (h : A.Apart asks own Rep) (hm : Holds Rep mems out) (hown : own i a) {j : ι}
    (hij : j ≠ i) : share out j a = none := by
  cases hj : share out j a with
  | none => rfl
  | some n =>
    have hown' := (h.keeps j).inside (hm j) (by rw [hj]; rfl)
    exact absurd (h.apart j i a hown' hown) hij

/-- **A request** that is served: the block was not out. -/
theorem alloc (h : A.Apart asks own Rep) (hm : Holds Rep mems out) (hn : asks i n)
    (hrun : A.alloc (mems i) n = .ok (some a, s)) :
    out a = none ∧ own i a ∧
      Holds Rep (Function.update mems i s) (Function.update out a (some (i, n))) := by
  obtain ⟨hfresh, hrep⟩ := (h.keeps i).alloc (hm i) hn hrun
  have hown : own i a := (h.keeps i).inside hrep (by rw [Function.update_self]; rfl)
  have hother : ∀ j, j ≠ i → share out j a = none := fun j hij => h.share_other hm hown hij
  refine ⟨?_, hown, hm.update (x := some n) hother hrep⟩
  cases ha : out a with
  | none => rfl
  | some x =>
    obtain ⟨j, k⟩ := x
    have hj := share_some ha
    by_cases hij : j = i
    · rw [hij, hfresh] at hj
      cases hj
    · rw [hother j hij] at hj
      cases hj

theorem refuse (h : A.Apart asks own Rep) (hm : Holds Rep mems out) (hn : asks i n)
    (hrun : A.alloc (mems i) n = .ok (none, s)) : Holds Rep (Function.update mems i s) out :=
  hm.update_same ((h.keeps i).refuse (hm i) hn hrun)

/-- **A release** of a block to the allocator that it came from. -/
theorem free (h : A.Apart asks own Rep) (hm : Holds Rep mems out) (ha : out a = some (i, n)) :
    ∃ s, A.free (mems i) a = .ok s ∧
      Holds Rep (Function.update mems i s) (Function.update out a none) := by
  have hsome : (share out i a).isSome := by
    rw [share_some ha]
    rfl
  obtain ⟨s, hrun, hrep⟩ := (h.keeps i).free (hm i) hsome
  exact ⟨s, hrun, hm.update (x := none) (fun j hij => share_of_ne ha (Ne.symm hij)) hrep⟩

/-- **A user** writes into its block. -/
theorem write (h : A.Apart asks own Rep) (hm : Holds Rep mems out) (ha : out a = some (i, n)) {k : ℕ}
    (hk : k < n) (x : β) : Holds Rep (Function.update mems i (A.write (mems i) a k x)) out :=
  hm.update_same ((h.keeps i).write (hm i) (share_some ha) hk)

omit [DecidableEq ι] in
theorem calls_rest {owner : Option ι} {calls : List (Option ι × α)} (ha : a ∉ calls.map Prod.snd)
    (hcalls : ∀ c ∈ (owner, a) :: calls, ∃ i n, c.1 = some i ∧ out c.2 = some (i, n)) :
    ∀ c ∈ calls, ∃ i n, c.1 = some i ∧ Function.update out a none c.2 = some (i, n) := by
  intro c hc
  obtain ⟨j, k, hj, hk⟩ := hcalls c (List.mem_cons_of_mem _ hc)
  have hne : c.2 ≠ a := by
    intro hca
    have hmem : c.2 ∈ calls.map Prod.snd := List.mem_map_of_mem hc
    rw [hca] at hmem
    exact ha hmem
  exact ⟨j, k, hj, (Function.update_of_ne hne ..).trans hk⟩

/-- **Some blocks are given back**, each once: by induction on their list. -/
theorem freeAll (h : A.Apart asks own Rep) (calls : List (Option ι × α)) :
    ∀ {mems : ι → σ} {out : α → Option (ι × ℕ)}, Holds Rep mems out →
      (calls.map Prod.snd).Nodup → (∀ c ∈ calls, ∃ i n, c.1 = some i ∧ out c.2 = some (i, n)) →
      ∃ mems', A.freeAll mems calls = .ok mems' ∧
        Holds Rep mems' fun a => if a ∈ calls.map Prod.snd then none else out a := by
  induction calls with
  | nil =>
    intro mems out hm _ _
    refine ⟨mems, rfl, ?_⟩
    have hsame : (fun a => if a ∈ ([] : List (Option ι × α)).map Prod.snd then none else out a) = out := by
      funext a
      exact if_neg List.not_mem_nil
    rw [hsame]
    exact hm
  | cons c calls ih =>
    intro mems out hm hnodup hcalls
    obtain ⟨owner, a⟩ := c
    obtain ⟨ha, hrest⟩ := List.nodup_cons.mp hnodup
    obtain ⟨i, n, hi, hout⟩ := hcalls _ List.mem_cons_self
    obtain rfl : owner = some i := hi
    obtain ⟨s, hrun, hm₁⟩ := h.free hm hout
    obtain ⟨mems', hall, hm'⟩ := ih hm₁ hrest (calls_rest ha hcalls)
    refine ⟨mems', ?_, ?_⟩
    · unfold Allocator.freeAll
      rw [deref_some, ok_bind, hrun, ok_bind]
      exact hall
    · have hsame : (fun b => if b ∈ ((some i, a) :: calls).map Prod.snd then none else out b)
          = fun b => if b ∈ calls.map Prod.snd then none else Function.update out a none b := by
        funext b
        rw [List.map_cons]
        by_cases hb : b = a
        · rw [hb, if_pos List.mem_cons_self, if_neg ha, Function.update_self]
        · rw [Function.update_of_ne hb]
          exact if_congr (List.mem_cons.trans (or_iff_right hb)) rfl rfl
      rw [hsame]
      exact hm'

/-! ### what the blocks hold -/

variable {read : σ → α → ℕ → β} {b : α} {k x : ℕ}

omit [DecidableEq α] in
theorem read_update (ha : out a = some (j, k))
    (hread : share out i a = some k → read s a x = read (mems i) a x) :
    read (Function.update mems i s j) a x = read (mems j) a x := by
  by_cases hij : j = i
  · rw [← hij] at hread ⊢
    rw [Function.update_self]
    exact hread (share_some ha)
  · rw [Function.update_of_ne hij]

omit [DecidableEq α] in
theorem alloc_read (hr : ∀ i, A.Reads (asks i) (Rep i) read) (hm : Holds Rep mems out) (hn : asks i n)
    {r : Option α} (hrun : A.alloc (mems i) n = .ok (r, s)) (ha : out a = some (j, k)) (hx : x < k) :
    read (Function.update mems i s j) a x = read (mems j) a x :=
  read_update ha fun hshare => (hr i).alloc (hm i) hn hrun hshare hx

omit [DecidableEq α] in
theorem write_read (hr : ∀ i, A.Reads (asks i) (Rep i) read) (hm : Holds Rep mems out)
    (hb : out b = some (i, n)) {m : ℕ} (hmn : m < n) (y : β) (ha : out a = some (j, k)) (hx : x < k)
    (hne : a ≠ b ∨ x ≠ m) :
    read (Function.update mems i (A.write (mems i) b m y) j) a x = read (mems j) a x :=
  read_update ha fun hshare => (hr i).write (hm i) (share_some hb) hmn hshare hx hne

/-- the releases leave the other blocks alone: by induction on their list -/
theorem freeAll_read (h : A.Apart asks own Rep) (hr : ∀ i, A.Reads (asks i) (Rep i) read)
    (calls : List (Option ι × α)) :
    ∀ {mems mems' : ι → σ} {out : α → Option (ι × ℕ)}, Holds Rep mems out →
      (calls.map Prod.snd).Nodup → (∀ c ∈ calls, ∃ i n, c.1 = some i ∧ out c.2 = some (i, n)) →
      A.freeAll mems calls = .ok mems' → out a = some (j, k) → x < k → a ∉ calls.map Prod.snd →
      read (mems' j) a x = read (mems j) a x := by
  induction calls with
  | nil =>
    intro mems mems' out _ _ _ hrun _ _ _
    rw [Except.ok.inj hrun]
  | cons c calls ih =>
    intro mems mems' out hm hnodup hcalls hrun ha hx hnot
    obtain ⟨owner, b⟩ := c
    obtain ⟨hb, hrest⟩ := List.nodup_cons.mp hnodup
    obtain ⟨i, n, hi, hout⟩ := hcalls _ List.mem_cons_self
    obtain rfl : owner = some i := hi
    obtain ⟨s, hfree, hm₁⟩ := h.free hm hout
    have hab : a ≠ b := fun hc => hnot (hc ▸ List.mem_cons_self)
    unfold Allocator.freeAll at hrun
    rw [deref_some, ok_bind, hfree, ok_bind] at hrun
    have hsame : read (Function.update mems i s j) a x = read (mems j) a x :=
      read_update ha fun hshare =>
        (hr i).free (hm i) (by rw [share_some hout]; rfl) hfree hshare hx hab
    rw [← hsame]
    exact ih hm₁ hrest (calls_rest hb hcalls) hrun ((Function.update_of_ne hab ..).trans ha) hx
      (fun hc => hnot (List.mem_cons_of_mem _ hc))

end Apart

end

end Allocator
