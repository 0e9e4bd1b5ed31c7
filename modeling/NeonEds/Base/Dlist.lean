import NeonEds.Lib.Dll
import NeonEds.Lib.Exec
import Mathlib.Data.List.Rotate

/-!
# Doubly linked lists (include/base/dlist.h)

The functions of `dlist.h` as sequences of pointer reads and writes.  A pointer that is followed
while it is NULL is the fault `null`; `v` is `CONFIG_API_VALIDATION == 1`, where a removed node
gets a NULL `prev`.

* `ndlistAddBefore_ring`, `ndlistAddAfter_place`, `ndlistRemove_ring`, `ndlistRotateLeft_ring`: on a
  ring the functions do not fault, they insert and remove at the named place, and touch no node
  outside the ring.
-/

namespace NeonEds
open Exec

section
variable {α : Type} [DecidableEq α]

def ndlistInit (L : Links α) (node : α) : Links α :=
  (L.setNext node (some node)).setPrev node (some node)

def ndlistAddBefore (L : Links α) (current node : α) : Exec (Links α) := do
  let L := L.setNext node (some current)
  let L := L.setPrev node (L.prev current)
  let p ← deref (L.prev current)
  let L := L.setNext p (some node)
  return L.setPrev current (some node)

def ndlistAddAfter (L : Links α) (current node : α) : Exec (Links α) := do
  let L := L.setPrev node (some current)
  let L := L.setNext node (L.next current)
  let q ← deref (L.next current)
  let L := L.setPrev q (some node)
  return L.setNext current (some node)

def ndlistRemove (v : Bool) (L : Links α) (node : α) : Exec (Links α) := do
  let q ← deref (L.next node)
  let L := L.setPrev q (L.prev node)
  let p ← deref (L.prev node)
  let L := L.setNext p (L.next node)
  let L := L.setNext node (some node)
  return if v then L.setPrev node none else L

def ndlistIsEmpty (L : Links α) (node : α) : Bool := decide (L.next node = some node)

def ndlistNext (L : Links α) (node : α) : Exec α := deref (L.next node)

def ndlistPrev (L : Links α) (node : α) : Exec α := deref (L.prev node)

def ndlistRotateLeft (v : Bool) (L : Links α) (sentinel : α) : Exec (Links α) :=
  if ndlistIsEmpty L sentinel then .ok L
  else do
    let first ← deref (L.next sentinel)
    let L ← ndlistRemove v L first
    ndlistAddBefore L sentinel first

variable {L : Links α} {s c n : α} {xs pre post : List α}

/-! ### what the functions write -/

theorem ndlistAddBefore_eq {p : α} (hp : L.prev c = some p) (hn : n ≠ c) :
    ndlistAddBefore L c n = .ok (L.insertBefore p c n) := by
  simp [ndlistAddBefore, Links.insertBefore, hn.symm, hp]

theorem ndlistAddAfter_eq {q : α} (hq : L.next c = some q) (hn : n ≠ c) :
    ndlistAddAfter L c n = .ok (L.insertAfter c q n) := by
  simp [ndlistAddAfter, Links.insertAfter, hn.symm, hq]

theorem ndlistRemove_eq (v : Bool) {p q : α} (hq : L.next n = some q) (hp : L.prev n = some p)
    (hqn : q ≠ n) :
    ∃ L', ndlistRemove v L n = .ok L' ∧ L'.next n = some n ∧
      ∀ x, x ≠ n → L'.EqAt (L.unlink p q) x := by
  have hw : ndlistRemove v L n = .ok (if v then ((L.unlink p q).setNext n (some n)).setPrev n none
      else (L.unlink p q).setNext n (some n)) := by
    simp [ndlistRemove, Links.unlink, hq, hp, hqn.symm]
  refine ⟨_, hw, ?_, fun x hx => ?_⟩
  · cases v <;> simp
  · cases v <;> simp [Links.EqAt, hx]

/-! ### the functions on a ring -/

theorem ndlistIsEmpty_iff (h : Circular L s xs) : ndlistIsEmpty L s = true ↔ xs = [] := by
  rw [ndlistIsEmpty, decide_eq_true_iff]
  exact h.next_self_iff

theorem ndlistAddBefore_base (h : Circular L s xs) (hn : n ∉ s :: xs) :
    ∃ L', ndlistAddBefore L s n = .ok L' ∧ Circular L' s (xs ++ [n]) ∧
      ∀ x, x ∉ n :: s :: xs → L'.EqAt L x := by
  obtain ⟨p, hpm, hp⟩ := h.exists_prev
  have hns : n ≠ s := fun e => hn (e ▸ List.mem_cons_self ..)
  refine ⟨_, ndlistAddBefore_eq hp hns, h.insertBefore hp hn, fun x hx => ?_⟩
  rw [List.mem_cons, not_or] at hx
  exact L.eqAt_insertBefore (fun e => hx.2 (e ▸ hpm))
    (fun e => hx.2 (e ▸ List.mem_cons_self ..)) hx.1

/-- **Insertion before any place of the list**: `c` is the node that follows it, the base at the
end. -/
theorem ndlistAddBefore_ring (h : Circular L s (pre ++ post)) (hc : c = post.head?.getD s)
    (hn : n ∉ s :: (pre ++ post)) :
    ∃ L', ndlistAddBefore L c n = .ok L' ∧ Circular L' s (pre ++ n :: post) ∧
      ∀ x, x ∉ n :: s :: (pre ++ post) → L'.EqAt L x := by
  cases post with
  | nil =>
    rw [List.append_nil] at h hn ⊢
    subst hc
    exact ndlistAddBefore_base h hn
  | cons y post =>
    have hcy : c = y := hc
    subst hcy
    have hmem : ∀ x, x ∈ c :: (post ++ s :: pre) ↔ x ∈ s :: (pre ++ c :: post) := by
      intro x
      simp only [List.mem_cons, List.mem_append]
      tauto
    obtain ⟨L', hL', hr, he⟩ := ndlistAddBefore_base (Circular.rotate.mp h)
      (fun hm => hn ((hmem n).mp hm))
    refine ⟨L', hL', ?_, fun x hx => he x (fun hm => hx ?_)⟩
    · rw [List.append_assoc, List.cons_append] at hr
      have := Circular.rotate.mpr hr
      rwa [List.append_assoc, List.singleton_append] at this
    · rcases List.mem_cons.mp hm with rfl | hm
      · exact List.mem_cons_self ..
      · exact List.mem_cons_of_mem _ ((hmem x).mp hm)

theorem ndlistAddAfter_ring (h : Circular L s xs) (hn : n ∉ s :: xs) :
    ∃ L', ndlistAddAfter L s n = .ok L' ∧ Circular L' s (n :: xs) ∧
      ∀ x, x ∉ n :: s :: xs → L'.EqAt L x := by
  obtain ⟨q, hqm, hq⟩ := h.exists_next (List.mem_cons_self ..)
  have hns : n ≠ s := fun e => hn (e ▸ List.mem_cons_self ..)
  refine ⟨_, ndlistAddAfter_eq hq hns, h.insertAfter hq hn, fun x hx => ?_⟩
  rw [List.mem_cons, not_or] at hx
  exact L.eqAt_insertAfter (fun e => hx.2 (e ▸ List.mem_cons_self ..))
    (fun e => hx.2 (e ▸ hqm)) hx.1

/-- **Insertion after any place of the list**: `c` is the node before it, the base at the front. -/
theorem ndlistAddAfter_place (h : Circular L s (pre ++ post)) (hc : c = pre.getLast?.getD s)
    (hn : n ∉ s :: (pre ++ post)) :
    ∃ L', ndlistAddAfter L c n = .ok L' ∧ Circular L' s (pre ++ n :: post) ∧
      ∀ x, x ∉ n :: s :: (pre ++ post) → L'.EqAt L x := by
  rcases List.eq_nil_or_concat pre with rfl | ⟨as, y, rfl⟩
  · subst hc
    exact ndlistAddAfter_ring h hn
  · rw [List.concat_eq_append] at h hc hn ⊢
    have hcy : c = y := by
      rw [hc, List.getLast?_concat]
      rfl
    subst hcy
    simp only [List.append_assoc, List.singleton_append] at h hn ⊢
    have hmem : ∀ x, x ∈ c :: (post ++ s :: as) ↔ x ∈ s :: (as ++ c :: post) := by
      intro x
      simp only [List.mem_cons, List.mem_append]
      tauto
    obtain ⟨L', hL', hr, he⟩ := ndlistAddAfter_ring (Circular.rotate.mp h)
      (fun hm => hn ((hmem n).mp hm))
    refine ⟨L', hL', ?_, fun x hx => he x (fun hm => hx ?_)⟩
    · exact Circular.rotate.mpr hr
    · rcases List.mem_cons.mp hm with rfl | hm
      · exact List.mem_cons_self ..
      · exact List.mem_cons_of_mem _ ((hmem x).mp hm)

/-- **Removal of any node of the list.** -/
theorem ndlistRemove_ring (v : Bool) (h : Circular L s (pre ++ n :: post)) :
    ∃ L', ndlistRemove v L n = .ok L' ∧ Circular L' s (pre ++ post) ∧ L'.next n = some n ∧
      ∀ x, x ∉ s :: (pre ++ n :: post) → L'.EqAt L x := by
  have hr := Circular.rotate.mp h
  obtain ⟨y, zs, hyz⟩ : ∃ y zs, post ++ s :: pre = y :: zs := by
    cases post with
    | nil => exact ⟨s, pre, rfl⟩
    | cons y post => exact ⟨y, post ++ s :: pre, rfl⟩
  rw [hyz] at hr
  obtain ⟨p, hpm, hp⟩ := hr.exists_prev
  have hq := hr.next_cons
  have hnd := hr.base_notMem
  have hyn : y ≠ n := fun e => hnd (e ▸ List.mem_cons_self ..)
  obtain ⟨L', hL', hnext, he⟩ := ndlistRemove_eq v hq hp hyn
  have hring : Circular L' y zs := (hr.unlink hp).congr (fun x hx => he x (fun e => hnd (e ▸ hx)))
  refine ⟨L', hL', ?_, hnext, fun x hx => ?_⟩
  · cases post with
    | nil =>
      rw [List.nil_append] at hyz
      injection hyz with e1 e2
      subst e1 e2
      rwa [List.append_nil]
    | cons w post =>
      rw [List.cons_append] at hyz
      injection hyz with e1 e2
      subst e1 e2
      exact Circular.rotate.mpr hring
  · have hxm : x ∉ n :: y :: zs := by
      rw [← hyz]
      intro hm
      apply hx
      simp only [List.mem_cons, List.mem_append] at hm ⊢
      tauto
    have hxn : x ≠ n := fun e => hxm (e ▸ List.mem_cons_self ..)
    exact (he x hxn).trans (L.eqAt_unlink (fun e => hxm (e ▸ hpm)) (fun e => hxm (by simp [e])))

/-- **The first node comes last.** -/
theorem ndlistRotateLeft_ring (v : Bool) (h : Circular L s xs) :
    ∃ L', ndlistRotateLeft v L s = .ok L' ∧ Circular L' s (xs.rotate 1) ∧
      ∀ x, x ∉ s :: xs → L'.EqAt L x := by
  cases xs with
  | nil =>
    refine ⟨L, ?_, h, fun x _ => ⟨rfl, rfl⟩⟩
    rw [ndlistRotateLeft, if_pos ((ndlistIsEmpty_iff h).mpr rfl)]
  | cons y xs =>
    have hne : ¬ ndlistIsEmpty L s = true := by
      rw [ndlistIsEmpty_iff h]
      exact List.cons_ne_nil y xs
    have hy : y ∉ s :: xs := by
      have hnd := h.nodup
      simp only [List.nodup_cons, List.mem_cons, not_or] at hnd ⊢
      exact ⟨Ne.symm hnd.1.1, hnd.2.1⟩
    obtain ⟨L₁, hL₁, hr₁, _, he₁⟩ := ndlistRemove_ring v
      (show Circular L s ([] ++ y :: xs) from h)
    obtain ⟨L₂, hL₂, hr₂, he₂⟩ := ndlistAddBefore_base hr₁ hy
    refine ⟨L₂, ?_, ?_, fun x hx => ?_⟩
    · rw [ndlistRotateLeft, if_neg hne, h.next_cons, deref_some, ok_bind, hL₁, ok_bind, hL₂]
    · rw [List.rotate_cons_succ, List.rotate_zero]
      exact hr₂
    · refine (he₂ x (fun hm => hx ?_)).trans (he₁ x hx)
      exact (List.Perm.swap s y xs).mem_iff.mp hm

end

end NeonEds
