import Mathlib.Data.Nat.Bits
import NeonEds.Lib.Window

/-!
# Queues (include/base/queue.h)

A queue is a circular buffer with 32-bit indices; the buffer has a power of two of cells and the
indices are masked.  `nqueueItems` is the content of a queue, the front first.

* `QueueOk`                                 what holds of a queue in use;
* `nqueuePutFifo_ok`, `nqueuePutLifo_ok`    an item comes to the back, to the front;
* `nqueueGet_ok`                            the front leaves the queue.
-/

namespace NeonEds

structure Nqueue (α : Type) where
  head : ℕ
  tail : ℕ
  empty : ℕ
  mask : ℕ
  buf : ℕ → α

section
variable {α : Type}

/-- the macro `nqueue_init` -/
def nqueueInit (size : ℕ) (buf : ℕ → α) : Nqueue α where
  head := 0
  tail := 0
  empty := size
  mask := (size + 2 ^ 32 - 1) % 2 ^ 32
  buf := buf

def nqueueSize (self : Nqueue α) : ℕ := (self.mask + 1) % 2 ^ 32

def nqueueEmpty (self : Nqueue α) : ℕ := self.empty

def nqueueIsFull (self : Nqueue α) : Bool := decide (self.empty = 0)

def nqueueIsEmpty (self : Nqueue α) : Bool := decide (self.empty = nqueueSize self)

def nqueuePutFifo (self : Nqueue α) (item : α) : Nqueue α :=
  { self with
    buf := Function.update self.buf self.head item
    head := (self.head + 1) % 2 ^ 32 &&& self.mask
    empty := (self.empty + 2 ^ 32 - 1) % 2 ^ 32 }

def nqueuePutLifo (self : Nqueue α) (item : α) : Nqueue α :=
  let tail := (self.tail + 2 ^ 32 - 1) % 2 ^ 32 &&& self.mask
  { self with
    tail := tail
    buf := Function.update self.buf tail item
    empty := (self.empty + 2 ^ 32 - 1) % 2 ^ 32 }

def nqueueGet (self : Nqueue α) : α × Nqueue α :=
  (self.buf self.tail, { self with
    tail := (self.tail + 1) % 2 ^ 32 &&& self.mask
    empty := (self.empty + 1) % 2 ^ 32 })

/-- the item that was put last at the back -/
def nqueueHead (self : Nqueue α) : α :=
  let realHead := (self.head + 2 ^ 32 - 1) % 2 ^ 32 &&& self.mask
  self.buf realHead

/-- the item that comes next -/
def nqueueTail (self : Nqueue α) : α := self.buf self.tail

/-- the content of a queue, the front first -/
def nqueueItems (self : Nqueue α) : List α :=
  window (nqueueSize self) self.buf self.tail (nqueueSize self - self.empty)

/-- a queue in use: the buffer has `2 ^ k` cells, `1 ≤ k ≤ 31` -/
structure QueueOk (qu : Nqueue α) : Prop where
  size : ∃ k, 1 ≤ k ∧ k ≤ 31 ∧ qu.mask = 2 ^ k - 1
  tail : qu.tail < nqueueSize qu
  empty : qu.empty ≤ nqueueSize qu
  head : qu.head = (qu.tail + (nqueueSize qu - qu.empty)) % nqueueSize qu

namespace QueueOk
variable {qu : Nqueue α}

theorem size_eq (h : QueueOk qu) : ∃ k, 1 ≤ k ∧ k ≤ 31 ∧ nqueueSize qu = 2 ^ k ∧
    qu.mask = 2 ^ k - 1 := by
  obtain ⟨k, h1, h31, hm⟩ := h.size
  refine ⟨k, h1, h31, ?_, hm⟩
  have hle : 2 ^ k ≤ 2 ^ 31 := Nat.pow_le_pow_right (by decide) h31
  have hpos : 0 < 2 ^ k := Nat.two_pow_pos k
  unfold nqueueSize
  rw [hm, Nat.sub_add_cancel hpos, Nat.mod_eq_of_lt (by omega)]

theorem size_bounds (h : QueueOk qu) : 2 ≤ nqueueSize qu ∧ nqueueSize qu ≤ 2 ^ 31 := by
  obtain ⟨k, h1, h31, hs, _⟩ := h.size_eq
  rw [hs]
  exact ⟨Nat.pow_le_pow_right (n := 2) (by decide) h1, Nat.pow_le_pow_right (by decide) h31⟩

theorem and_mask (h : QueueOk qu) (x : ℕ) : x % 2 ^ 32 &&& qu.mask = x % nqueueSize qu := by
  obtain ⟨k, _, h31, hs, hm⟩ := h.size_eq
  rw [hm, Nat.and_two_pow_sub_one_eq_mod, hs, Nat.mod_mod_of_dvd _ (Nat.pow_dvd_pow 2 (by omega))]

theorem pred_succ (h : QueueOk qu) (x : ℕ) :
    ((x + 2 ^ 32 - 1) % nqueueSize qu + 1) % nqueueSize qu = x % nqueueSize qu := by
  have hdvd : nqueueSize qu ∣ 2 ^ 32 := by
    obtain ⟨k, _, h31, hs, _⟩ := h.size_eq
    rw [hs]
    exact Nat.pow_dvd_pow 2 (by omega)
  rw [Nat.mod_add_mod, Nat.sub_add_cancel (by omega), Nat.add_mod, Nat.mod_eq_zero_of_dvd hdvd,
    Nat.add_zero, Nat.mod_mod]

theorem length (h : QueueOk qu) : (nqueueItems qu).length + qu.empty = nqueueSize qu := by
  unfold nqueueItems
  rw [window_length, Nat.sub_add_cancel h.empty]

theorem isFull_iff (h : QueueOk qu) :
    nqueueIsFull qu = true ↔ (nqueueItems qu).length = nqueueSize qu := by
  have hlen := h.length
  unfold nqueueIsFull
  rw [decide_eq_true_iff]
  omega

theorem isEmpty_iff (h : QueueOk qu) : nqueueIsEmpty qu = true ↔ nqueueItems qu = [] := by
  have hlen := h.length
  unfold nqueueIsEmpty
  rw [decide_eq_true_iff, ← List.length_eq_zero_iff]
  omega

end QueueOk

theorem queueOk_update {ι : Type} [DecidableEq ι] {f : ι → Nqueue α} (h : ∀ i, QueueOk (f i)) {i : ι}
    {qu : Nqueue α} (hqu : QueueOk qu) : ∀ j, QueueOk (Function.update f i qu j) :=
  (Function.forall_update_iff f fun _ => QueueOk).mpr ⟨hqu, fun j _ => h j⟩

theorem nqueueInit_ok {k : ℕ} (h1 : 1 ≤ k) (h31 : k ≤ 31) (buf : ℕ → α) :
    QueueOk (nqueueInit (2 ^ k) buf) ∧ nqueueItems (nqueueInit (2 ^ k) buf) = [] := by
  have hle : 2 ^ k ≤ 2 ^ 31 := Nat.pow_le_pow_right (by decide) h31
  have hpos : 0 < 2 ^ k := Nat.two_pow_pos k
  have hmask : (2 ^ k + 2 ^ 32 - 1) % 2 ^ 32 = 2 ^ k - 1 := by omega
  have hsize : nqueueSize (nqueueInit (2 ^ k) buf) = 2 ^ k := by
    show ((2 ^ k + 2 ^ 32 - 1) % 2 ^ 32 + 1) % 2 ^ 32 = 2 ^ k
    rw [hmask]
    omega
  refine ⟨⟨⟨k, h1, h31, hmask⟩, ?_, ?_, ?_⟩, ?_⟩
  · rw [hsize]
    exact hpos
  · rw [hsize]
    exact le_refl _
  · rw [hsize]
    show 0 = (0 + (2 ^ k - 2 ^ k)) % 2 ^ k
    rw [Nat.sub_self, Nat.zero_mod]
  · unfold nqueueItems
    rw [hsize]
    show window _ _ _ (2 ^ k - 2 ^ k) = []
    rw [Nat.sub_self, window_zero]

section
variable {qu : Nqueue α}

/-! ### what the functions write -/

theorem nqueuePutFifo_eq (h : QueueOk qu) (hfull : nqueueIsFull qu = false) (item : α) :
    nqueuePutFifo qu item = { qu with
      buf := Function.update qu.buf qu.head item
      head := (qu.head + 1) % nqueueSize qu
      empty := qu.empty - 1 } := by
  have hne : qu.empty ≠ 0 := of_decide_eq_false hfull
  have hsize := h.size_bounds
  have hle := h.empty
  have hempty : (qu.empty + 2 ^ 32 - 1) % 2 ^ 32 = qu.empty - 1 := by omega
  unfold nqueuePutFifo
  rw [h.and_mask, hempty]

theorem nqueuePutLifo_eq (h : QueueOk qu) (hfull : nqueueIsFull qu = false) (item : α) :
    ∃ t, t < nqueueSize qu ∧ (t + 1) % nqueueSize qu = qu.tail % nqueueSize qu ∧
      nqueuePutLifo qu item = { qu with
        tail := t
        buf := Function.update qu.buf t item
        empty := qu.empty - 1 } := by
  have hne : qu.empty ≠ 0 := of_decide_eq_false hfull
  have hsize := h.size_bounds
  have hle := h.empty
  have hempty : (qu.empty + 2 ^ 32 - 1) % 2 ^ 32 = qu.empty - 1 := by omega
  refine ⟨(qu.tail + 2 ^ 32 - 1) % nqueueSize qu, Nat.mod_lt _ (by omega), h.pred_succ qu.tail, ?_⟩
  · unfold nqueuePutLifo
    rw [h.and_mask, hempty]

theorem nqueueGet_eq (h : QueueOk qu) (hempty : qu.empty < nqueueSize qu) :
    nqueueGet qu = (qu.buf qu.tail, { qu with
      tail := (qu.tail + 1) % nqueueSize qu
      empty := qu.empty + 1 }) := by
  have hsize := h.size_bounds
  have he : (qu.empty + 1) % 2 ^ 32 = qu.empty + 1 := by omega
  unfold nqueueGet
  rw [h.and_mask, he]

/-! ### what becomes of the content -/

/-- **An item comes to the back.** -/
theorem nqueuePutFifo_ok (h : QueueOk qu) (hfull : nqueueIsFull qu = false) (item : α) :
    QueueOk (nqueuePutFifo qu item) ∧
      nqueueItems (nqueuePutFifo qu item) = nqueueItems qu ++ [item] ∧
      nqueueSize (nqueuePutFifo qu item) = nqueueSize qu := by
  have hne : qu.empty ≠ 0 := of_decide_eq_false hfull
  have hle := h.empty
  have hlen : nqueueSize qu - (qu.empty - 1) = nqueueSize qu - qu.empty + 1 := by omega
  rw [nqueuePutFifo_eq h hfull]
  refine ⟨⟨h.size, h.tail, ?_, ?_⟩, ?_, rfl⟩
  · show qu.empty - 1 ≤ nqueueSize qu
    omega
  · show (qu.head + 1) % nqueueSize qu
      = (qu.tail + (nqueueSize qu - (qu.empty - 1))) % nqueueSize qu
    rw [hlen, h.head, Nat.mod_add_mod, Nat.add_assoc]
  · show window (nqueueSize qu) (Function.update qu.buf qu.head item) qu.tail
      (nqueueSize qu - (qu.empty - 1)) = _
    rw [hlen, h.head, window_push_back (by omega)]
    rfl

/-- **An item comes to the front.** -/
theorem nqueuePutLifo_ok (h : QueueOk qu) (hfull : nqueueIsFull qu = false) (item : α) :
    QueueOk (nqueuePutLifo qu item) ∧
      nqueueItems (nqueuePutLifo qu item) = item :: nqueueItems qu ∧
      nqueueSize (nqueuePutLifo qu item) = nqueueSize qu := by
  have hne : qu.empty ≠ 0 := of_decide_eq_false hfull
  have hle := h.empty
  have htl := h.tail
  have hlen : nqueueSize qu - (qu.empty - 1) = nqueueSize qu - qu.empty + 1 := by omega
  obtain ⟨t, ht, hnext, heq⟩ := nqueuePutLifo_eq h hfull item
  rw [heq]
  refine ⟨⟨h.size, ht, ?_, ?_⟩, ?_, rfl⟩
  · show qu.empty - 1 ≤ nqueueSize qu
    omega
  · show qu.head = (t + (nqueueSize qu - (qu.empty - 1))) % nqueueSize qu
    rw [hlen, ← Nat.add_assoc, Nat.add_right_comm, Nat.add_mod, hnext, ← Nat.add_mod]
    exact h.head
  · show window (nqueueSize qu) (Function.update qu.buf t item) t
      (nqueueSize qu - (qu.empty - 1)) = _
    have hmod := Nat.mod_eq_of_lt ht
    rw [hlen, ← congrArg (Function.update qu.buf · item) hmod,
      window_push_front (by omega) item hnext]
    rfl

/-- **The front leaves the queue.** -/
theorem nqueueGet_ok (h : QueueOk qu) {item : α} {rest : List α}
    (hitems : nqueueItems qu = item :: rest) :
    (nqueueGet qu).1 = item ∧ QueueOk (nqueueGet qu).2 ∧ nqueueItems (nqueueGet qu).2 = rest ∧
      nqueueSize (nqueueGet qu).2 = nqueueSize qu := by
  have hlen := h.length
  rw [hitems, List.length_cons] at hlen
  have hn : nqueueSize qu - qu.empty = nqueueSize qu - (qu.empty + 1) + 1 := by omega
  have heq : item :: rest = qu.buf qu.tail ::
      window (nqueueSize qu) qu.buf ((qu.tail + 1) % nqueueSize qu)
        (nqueueSize qu - (qu.empty + 1)) := by
    rw [← hitems, nqueueItems, hn, window_pop (Nat.mod_mod (qu.tail + 1) (nqueueSize qu)),
      Nat.mod_eq_of_lt h.tail]
  obtain ⟨hitem, hrest⟩ := List.cons.inj heq
  rw [nqueueGet_eq h (by omega)]
  refine ⟨hitem.symm, ⟨h.size, Nat.mod_lt _ (by omega), ?_, ?_⟩, hrest.symm, rfl⟩
  · show qu.empty + 1 ≤ nqueueSize qu
    omega
  · show qu.head = ((qu.tail + 1) % nqueueSize qu + (nqueueSize qu - (qu.empty + 1)))
      % nqueueSize qu
    rw [Nat.mod_add_mod, h.head, hn]
    congr 1
    omega

end

end

end NeonEds
