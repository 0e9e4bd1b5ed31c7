import NeonEds.Base.Queue

/-!
# Queues as bounded deques

`dequeStep` is what a call does to the sequence of the items, the front first; `FollowsDeque` says
that a run of the calls shows this sequence in every state.

* `showsDeque`             what the queries answer on a queue in use;
* `runQueueOp_step`        one call, on a queue that is not full (not empty for `nqueue_get`);
* `nqueue_followsDeque`    every run from `nqueue_init`.
-/

namespace NeonEds

inductive QueueOp (α : Type) where
  | putFifo (item : α)
  | putLifo (item : α)
  | get

section
variable {α : Type}

/-- a call with its result -/
def runQueueOp (self : Nqueue α) : QueueOp α → Option α × Nqueue α
  | .putFifo item => (none, nqueuePutFifo self item)
  | .putLifo item => (none, nqueuePutLifo self item)
  | .get => (some (nqueueGet self).1, (nqueueGet self).2)

/-- callers ask before the call -/
def QueueOp.Allowed (self : Nqueue α) : QueueOp α → Prop
  | .putFifo _ => nqueueIsFull self = false
  | .putLifo _ => nqueueIsFull self = false
  | .get => nqueueIsEmpty self = false

def dequeStep (xs : List α) : QueueOp α → Option α × List α
  | .putFifo item => (none, xs ++ [item])
  | .putLifo item => (none, item :: xs)
  | .get => (xs.head?, xs.tail)

/-- the indices with which the functions go to the buffer: `nqueue_put_fifo` uses `head`, `nqueue_get`
and `nqueue_tail` use `tail`, `nqueue_put_lifo` and `nqueue_head` what comes before these -/
def bufIndices (self : Nqueue α) : List ℕ :=
  [self.head, self.tail, (self.tail + 2 ^ 32 - 1) % 2 ^ 32 &&& self.mask,
    (self.head + 2 ^ 32 - 1) % 2 ^ 32 &&& self.mask]

/-- the queue shows the sequence `xs` -/
structure ShowsDeque (capacity : ℕ) (qu : Nqueue α) (xs : List α) : Prop where
  length : xs.length ≤ capacity
  size : nqueueSize qu = capacity
  empty : nqueueEmpty qu = capacity - xs.length
  isFull : nqueueIsFull qu = true ↔ xs.length = capacity
  isEmpty : nqueueIsEmpty qu = true ↔ xs = []
  tail : ∀ x, xs.head? = some x → nqueueTail qu = x
  head : ∀ x, xs.getLast? = some x → nqueueHead qu = x
  indices : ∀ i ∈ bufIndices qu, i < capacity

/-- **The queue follows the deque**: in every state it shows the sequence, an allowed call has the
same result and writes to no cell outside the buffer. -/
def FollowsDeque (capacity : ℕ) : Nqueue α → List α → List (QueueOp α) → Prop
  | self, xs, [] => ShowsDeque capacity self xs
  | self, xs, op :: ops => ShowsDeque capacity self xs ∧ (op.Allowed self →
      (runQueueOp self op).1 = (dequeStep xs op).1 ∧
      (∀ i, capacity ≤ i → (runQueueOp self op).2.buf i = self.buf i) ∧
      FollowsDeque capacity (runQueueOp self op).2 (dequeStep xs op).2 ops)

variable {qu : Nqueue α}

theorem QueueOk.pred_lt (h : QueueOk qu) (x : ℕ) :
    (x + 2 ^ 32 - 1) % 2 ^ 32 &&& qu.mask < nqueueSize qu := by
  have hsize := h.size_bounds
  rw [h.and_mask]
  exact Nat.mod_lt _ (by omega)

theorem nqueueTail_eq (h : QueueOk qu) {x : α} (hx : (nqueueItems qu).head? = some x) :
    nqueueTail qu = x := by
  have hn : nqueueSize qu - qu.empty ≠ 0 := by
    intro hn
    rw [nqueueItems, hn] at hx
    cases hx
  obtain ⟨n, hn⟩ := Nat.exists_eq_succ_of_ne_zero hn
  rw [nqueueItems, hn, window_pop (Nat.mod_mod (qu.tail + 1) (nqueueSize qu)),
    Nat.mod_eq_of_lt h.tail] at hx
  exact Option.some.inj hx

theorem nqueueHead_eq (h : QueueOk qu) {x : α} (hx : (nqueueItems qu).getLast? = some x) :
    nqueueHead qu = x := by
  have hn : nqueueSize qu - qu.empty ≠ 0 := by
    intro hn
    rw [nqueueItems, hn] at hx
    cases hx
  obtain ⟨n, hn⟩ := Nat.exists_eq_succ_of_ne_zero hn
  have hpred : ((qu.head + 2 ^ 32 - 1) % nqueueSize qu + 1) % nqueueSize qu =
      (qu.tail + (n + 1)) % nqueueSize qu := by
    rw [h.pred_succ, h.head, Nat.mod_mod, hn]
  rw [nqueueItems, hn, window_getLast hpred, Nat.mod_mod] at hx
  rw [nqueueHead]
  show qu.buf ((qu.head + 2 ^ 32 - 1) % 2 ^ 32 &&& qu.mask) = x
  rw [h.and_mask]
  exact Option.some.inj hx

/-- **What the queries answer.** -/
theorem showsDeque (h : QueueOk qu) : ShowsDeque (nqueueSize qu) qu (nqueueItems qu) where
  length := by have := h.length; omega
  size := rfl
  empty := by have := h.length; unfold nqueueEmpty; omega
  isFull := h.isFull_iff
  isEmpty := h.isEmpty_iff
  tail _ hx := nqueueTail_eq h hx
  head _ hx := nqueueHead_eq h hx
  indices i hi := by
    have hsize := h.size_bounds
    simp only [bufIndices, List.mem_cons, List.not_mem_nil, or_false] at hi
    rcases hi with rfl | rfl | rfl | rfl
    · rw [h.head]
      exact Nat.mod_lt _ (by omega)
    · exact h.tail
    · exact h.pred_lt qu.tail
    · exact h.pred_lt qu.head

theorem runQueueOp_step (h : QueueOk qu) {op : QueueOp α} (hop : op.Allowed qu) :
    (runQueueOp qu op).1 = (dequeStep (nqueueItems qu) op).1 ∧
    (∀ i, nqueueSize qu ≤ i → (runQueueOp qu op).2.buf i = qu.buf i) ∧
    QueueOk (runQueueOp qu op).2 ∧
    nqueueItems (runQueueOp qu op).2 = (dequeStep (nqueueItems qu) op).2 ∧
    nqueueSize (runQueueOp qu op).2 = nqueueSize qu := by
  have hidx := (showsDeque h).indices
  cases op with
  | putFifo item =>
    refine ⟨rfl, fun i hi => ?_, nqueuePutFifo_ok h hop item⟩
    have hlt : qu.head < nqueueSize qu := hidx qu.head (List.mem_cons_self ..)
    show Function.update qu.buf qu.head item i = _
    rw [Function.update_of_ne (by omega)]
  | putLifo item =>
    refine ⟨rfl, fun i hi => ?_, nqueuePutLifo_ok h hop item⟩
    have hlt := h.pred_lt qu.tail
    show Function.update qu.buf ((qu.tail + 2 ^ 32 - 1) % 2 ^ 32 &&& qu.mask) item i = _
    generalize (qu.tail + 2 ^ 32 - 1) % 2 ^ 32 &&& qu.mask = t at hlt ⊢
    rw [Function.update_of_ne (by omega)]
  | get =>
    have hne : nqueueItems qu ≠ [] := by
      intro hnil
      have hempty : nqueueIsEmpty qu = false := hop
      rw [h.isEmpty_iff.mpr hnil] at hempty
      cases hempty
    obtain ⟨item, rest, hitems⟩ := List.exists_cons_of_ne_nil hne
    obtain ⟨h1, h2, h3, h4⟩ := nqueueGet_ok h hitems
    rw [hitems]
    exact ⟨congrArg some h1, fun _ _ => rfl, h2, h3, h4⟩

theorem followsDeque (ops : List (QueueOp α)) :
    ∀ {qu : Nqueue α}, QueueOk qu → FollowsDeque (nqueueSize qu) qu (nqueueItems qu) ops := by
  induction ops with
  | nil => exact fun h => showsDeque h
  | cons op ops ih =>
    intro qu h
    refine ⟨showsDeque h, fun hop => ?_⟩
    obtain ⟨hres, hbuf, hok, hitems, hsize⟩ := runQueueOp_step h hop
    refine ⟨hres, hbuf, ?_⟩
    rw [← hitems, ← hsize]
    exact ih hok

/-- **A queue is a bounded deque**, from `nqueue_init` on and for every run of the calls. -/
theorem nqueue_followsDeque (k : ℕ) (h1 : 1 ≤ k) (h31 : k ≤ 31) (buf : ℕ → α)
    (ops : List (QueueOp α)) : FollowsDeque (2 ^ k) (nqueueInit (2 ^ k) buf) [] ops := by
  obtain ⟨hok, hitems⟩ := nqueueInit_ok h1 h31 buf
  have hsize : nqueueSize (nqueueInit (2 ^ k) buf) = 2 ^ k := by
    obtain ⟨_, _, _, hs, _⟩ := hok.size_eq
    have hempty := hok.length
    rw [hitems, List.length_nil] at hempty
    exact hempty.symm.trans (Nat.zero_add _)
  have hrun := followsDeque ops hok
  rwa [hsize, hitems] at hrun

/-- the tail of a queue of two items goes below 0 -/
theorem nqueue_followsDeque_wrap : FollowsDeque 2 (nqueueInit 2 fun _ => 0) []
    [.putLifo 3, .putFifo 4, .get, .putFifo 5, .get, .get] :=
  nqueue_followsDeque 1 (by decide) (by decide) _ _

end

end NeonEds
