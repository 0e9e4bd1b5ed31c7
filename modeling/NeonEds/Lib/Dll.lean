import Mathlib.Data.List.Nodup
import Mathlib.Data.List.Perm.Basic
import Mathlib.Logic.Function.Basic
import Mathlib.Tactic.Common

/-!
# Circular doubly linked lists

`Links α` is the content of the two pointer fields of every node of type `α`.  `Circular L s xs`: from
the base node `s` the `next` pointers run through `xs` and back to `s`, the `prev` pointers the
other way round, and no node comes twice.

* `Circular.rotate`        every node of a ring can serve as its base, so a change at any place of the
                       list is a change at the base of the same ring;
* `Circular.next_prev`     `next` and `prev` undo each other;
* `Circular.insertBefore`  four pointer writes put a new node before the base;
* `Circular.insertAfter`   the same after the base;
* `Circular.unlink`        two pointer writes take the base out, the ring of the others is left;
* `Circular.replace`       four pointer writes put a new node in the place of the base;
* `Circular.congr`         a ring depends on the pointers of its own nodes only.
-/

universe u

/-- the `next` and `prev` fields of the nodes; `none` is a NULL pointer -/
structure Links (α : Type u) where
  next : α → Option α
  prev : α → Option α

namespace Links
variable {α : Type u} [DecidableEq α]

def setNext (L : Links α) (a : α) (b : Option α) : Links α :=
  { L with next := Function.update L.next a b }

def setPrev (L : Links α) (a : α) (b : Option α) : Links α :=
  { L with prev := Function.update L.prev a b }

@[simp] theorem setNext_next (L : Links α) (a : α) (b : Option α) :
    (L.setNext a b).next = Function.update L.next a b := rfl
@[simp] theorem setNext_prev (L : Links α) (a : α) (b : Option α) :
    (L.setNext a b).prev = L.prev := rfl
@[simp] theorem setPrev_next (L : Links α) (a : α) (b : Option α) :
    (L.setPrev a b).next = L.next := rfl
@[simp] theorem setPrev_prev (L : Links α) (a : α) (b : Option α) :
    (L.setPrev a b).prev = Function.update L.prev a b := rfl

theorem setNext_self {L : Links α} {a : α} {b : Option α} (h : L.next a = b) :
    L.setNext a b = L := by
  rw [← h, setNext, Function.update_eq_self]

theorem setPrev_self {L : Links α} {a : α} {b : Option α} (h : L.prev a = b) :
    L.setPrev a b = L := by
  rw [← h, setPrev, Function.update_eq_self]

/-- the pointers of `x` are the same in both -/
def EqAt (L' L : Links α) (x : α) : Prop := L'.next x = L.next x ∧ L'.prev x = L.prev x

omit [DecidableEq α] in
theorem EqAt.trans {L₁ L₂ L₃ : Links α} {x : α} (h : L₁.EqAt L₂ x) (h' : L₂.EqAt L₃ x) :
    L₁.EqAt L₃ x := ⟨h.1.trans h'.1, h.2.trans h'.2⟩

/-- `n` goes between `p` and its successor `c` -/
def insertBefore (L : Links α) (p c n : α) : Links α :=
  (((L.setNext n (some c)).setPrev n (some p)).setNext p (some n)).setPrev c (some n)

/-- `n` goes between `c` and its successor `q` -/
def insertAfter (L : Links α) (c q n : α) : Links α :=
  (((L.setPrev n (some c)).setNext n (some q)).setPrev q (some n)).setNext c (some n)

/-- the neighbours `p` and `q` of a node become neighbours -/
def unlink (L : Links α) (p q : α) : Links α :=
  (L.setPrev q (some p)).setNext p (some q)

/-- `n` takes the place of the node between `p` and `q` -/
def replace (L : Links α) (p q n : α) : Links α :=
  (((L.setNext n (some q)).setPrev n (some p)).setPrev q (some n)).setNext p (some n)

theorem eqAt_insertBefore (L : Links α) {p c n x : α} (hp : x ≠ p) (hc : x ≠ c) (hn : x ≠ n) :
    (L.insertBefore p c n).EqAt L x := by
  simp [EqAt, insertBefore, hp, hc, hn]

theorem eqAt_insertAfter (L : Links α) {c q n x : α} (hc : x ≠ c) (hq : x ≠ q) (hn : x ≠ n) :
    (L.insertAfter c q n).EqAt L x := by
  simp [EqAt, insertAfter, hc, hq, hn]

theorem eqAt_unlink (L : Links α) {p q x : α} (hp : x ≠ p) (hq : x ≠ q) :
    (L.unlink p q).EqAt L x := by
  simp [EqAt, unlink, hp, hq]

theorem eqAt_replace (L : Links α) {p q n x : α} (hp : x ≠ p) (hq : x ≠ q) (hn : x ≠ n) :
    (L.replace p q n).EqAt L x := by
  simp [EqAt, replace, hp, hq, hn]

end Links

section
variable {α : Type u}

/-- `a` leads to `b` through the nodes `xs` -/
def Seg (L : Links α) (a : α) : List α → α → Prop
  | [], b => L.next a = some b ∧ L.prev b = some a
  | x :: xs, b => (L.next a = some x ∧ L.prev x = some a) ∧ Seg L x xs b

theorem seg_append (L : Links α) (a y b : α) (xs ys : List α) :
    Seg L a (xs ++ y :: ys) b ↔ Seg L a xs y ∧ Seg L y ys b := by
  induction xs generalizing a with
  | nil => exact Iff.rfl
  | cons x xs ih =>
    show _ ∧ Seg L x (xs ++ y :: ys) b ↔ (_ ∧ Seg L x xs y) ∧ Seg L y ys b
    rw [ih x, and_assoc, and_assoc, and_assoc]

theorem Seg.congr {L L' : Links α} {a b : α} {xs : List α} (h : Seg L a xs b)
    (hn : ∀ x ∈ a :: xs, L'.next x = L.next x) (hp : ∀ x ∈ xs ++ [b], L'.prev x = L.prev x) :
    Seg L' a xs b := by
  induction xs generalizing a with
  | nil =>
    exact ⟨(hn a (List.mem_cons_self ..)).trans h.1, (hp b (by simp)).trans h.2⟩
  | cons x xs ih =>
    refine ⟨⟨(hn a (List.mem_cons_self ..)).trans h.1.1, (hp x (by simp)).trans h.1.2⟩, ?_⟩
    exact ih h.2 (fun y hy => hn y (List.mem_cons_of_mem _ hy))
      (fun y hy => hp y (List.mem_cons_of_mem _ hy))

theorem Seg.next_prev {L : Links α} {b x : α} {xs : List α} :
    ∀ {a : α}, Seg L a xs b → x ∈ a :: xs → ∃ y ∈ xs ++ [b], L.next x = some y ∧ L.prev y = some x := by
  induction xs with
  | nil =>
    intro a h hx
    rw [List.mem_singleton] at hx
    exact ⟨b, List.mem_singleton_self b, hx ▸ h⟩
  | cons w xs ih =>
    intro a h hx
    rcases List.mem_cons.mp hx with rfl | hx
    · exact ⟨w, List.mem_cons_self .., h.1⟩
    · obtain ⟨y, hy, hxy⟩ := ih h.2 hx
      exact ⟨y, List.mem_cons_of_mem _ hy, hxy⟩

theorem Seg.prev_next {L : Links α} {b y : α} {xs : List α} :
    ∀ {a : α}, Seg L a xs b → y ∈ xs ++ [b] → ∃ x ∈ a :: xs, L.prev y = some x ∧ L.next x = some y := by
  induction xs with
  | nil =>
    intro a h hy
    rw [List.nil_append, List.mem_singleton] at hy
    exact ⟨a, List.mem_singleton_self a, hy ▸ h.symm⟩
  | cons w xs ih =>
    intro a h hy
    rcases List.mem_cons.mp hy with rfl | hy
    · exact ⟨a, List.mem_cons_self .., h.1.symm⟩
    · obtain ⟨x, hx, hxy⟩ := ih h.2 hy
      exact ⟨x, List.mem_cons_of_mem _ hx, hxy⟩

theorem Seg.unique {L : Links α} {b : α} {xs ys : List α} :
    ∀ {a : α}, Seg L a xs b → Seg L a ys b → b ∉ xs → b ∉ ys → xs = ys := by
  induction xs generalizing ys with
  | nil =>
    intro a h h' _ hy
    cases ys with
    | nil => rfl
    | cons y ys =>
      have hby : b = y := Option.some.inj (h.1.symm.trans h'.1.1)
      exact absurd (List.mem_cons_self ..) (hby ▸ hy)
  | cons x xs ih =>
    intro a h h' hx hy
    cases ys with
    | nil =>
      have hxb : x = b := Option.some.inj (h.1.1.symm.trans h'.1)
      exact absurd (List.mem_cons_self ..) (hxb ▸ hx)
    | cons y ys =>
      have hxy : x = y := Option.some.inj (h.1.1.symm.trans h'.1.1)
      subst hxy
      rw [ih h.2 h'.2 (fun hm => hx (List.mem_cons_of_mem _ hm))
        (fun hm => hy (List.mem_cons_of_mem _ hm))]

/-- the nodes `xs`, in this order, are the circular list with base (sentinel) `s` -/
structure Circular (L : Links α) (s : α) (xs : List α) : Prop where
  seg : Seg L s xs s
  nodup : (s :: xs).Nodup

namespace Circular
variable {L L' : Links α} {s : α} {xs ys : List α}

theorem base_notMem (h : Circular L s xs) : s ∉ xs := (List.nodup_cons.mp h.nodup).1
theorem list_nodup (h : Circular L s xs) : xs.Nodup := (List.nodup_cons.mp h.nodup).2

theorem unique (h : Circular L s xs) (h' : Circular L s ys) : xs = ys :=
  h.seg.unique h'.seg h.base_notMem h'.base_notMem

theorem congr (h : Circular L s xs) (he : ∀ x ∈ s :: xs, L'.EqAt L x) :
    Circular L' s xs := by
  refine ⟨h.seg.congr (fun x hx => (he x hx).1) (fun x hx => (he x ?_).2), h.nodup⟩
  rw [List.mem_append, List.mem_singleton] at hx
  rcases hx with hx | hx
  · exact List.mem_cons_of_mem _ hx
  · rw [hx]; exact List.mem_cons_self ..

/-- **Any node of a ring can serve as its base.** -/
theorem rotate {y : α} : Circular L s (xs ++ y :: ys) ↔ Circular L y (ys ++ s :: xs) := by
  have hperm : (s :: (xs ++ y :: ys)).Perm (y :: (ys ++ s :: xs)) :=
    @List.perm_append_comm _ (s :: xs) (y :: ys)
  constructor
  · intro h
    obtain ⟨h1, h2⟩ := (seg_append L s y s xs ys).mp h.seg
    exact ⟨(seg_append L y s y ys xs).mpr ⟨h2, h1⟩, hperm.nodup h.nodup⟩
  · intro h
    obtain ⟨h1, h2⟩ := (seg_append L y s y ys xs).mp h.seg
    exact ⟨(seg_append L s y s xs ys).mpr ⟨h2, h1⟩, hperm.symm.nodup h.nodup⟩

theorem nil_iff : Circular L s [] ↔ L.next s = some s ∧ L.prev s = some s :=
  ⟨fun h => h.seg, fun h => ⟨h, List.nodup_singleton s⟩⟩

/-! ### neighbours -/

theorem next_nil (h : Circular L s []) : L.next s = some s := h.seg.1

theorem next_cons {x : α} (h : Circular L s (x :: xs)) : L.next s = some x := h.seg.1.1

theorem prev_nil (h : Circular L s []) : L.prev s = some s := h.seg.2

theorem prev_concat {x : α} (h : Circular L s (xs ++ [x])) : L.prev s = some x :=
  ((seg_append L s x s xs []).mp h.seg).2.2

theorem next_mem {x y : α} (h : Circular L s (xs ++ x :: y :: ys)) : L.next x = some y :=
  ((seg_append L s x s xs (y :: ys)).mp h.seg).2.1.1

theorem next_last {x : α} (h : Circular L s (xs ++ [x])) : L.next x = some s :=
  ((seg_append L s x s xs []).mp h.seg).2.1

theorem next_base (h : Circular L s xs) : L.next s = some (xs.head?.getD s) := by
  cases xs with
  | nil => exact h.next_nil
  | cons x xs => exact h.next_cons

theorem next_at {x : α} (h : Circular L s (xs ++ x :: ys)) : L.next x = some (ys.head?.getD s) := by
  cases ys with
  | nil => exact h.next_last
  | cons y ys => exact h.next_mem

theorem prev_head {x : α} (h : Circular L s (x :: xs)) : L.prev x = some s := h.seg.1.2

theorem prev_mem {x y : α} (h : Circular L s (xs ++ x :: y :: ys)) : L.prev y = some x :=
  ((seg_append L s x s xs (y :: ys)).mp h.seg).2.1.2

theorem next_self_iff (h : Circular L s xs) : L.next s = some s ↔ xs = [] := by
  cases xs with
  | nil => exact ⟨fun _ => rfl, fun _ => h.next_nil⟩
  | cons x xs =>
    rw [h.next_cons]
    constructor
    · intro e
      injection e with e
      exact absurd (List.mem_cons_self ..) (e ▸ h.base_notMem)
    · intro e
      cases e

theorem exists_next (h : Circular L s xs) {x : α} (hx : x ∈ s :: xs) :
    ∃ y ∈ s :: xs, L.next x = some y := by
  rcases List.mem_cons.mp hx with rfl | hx
  · cases xs with
    | nil => exact ⟨x, List.mem_cons_self .., h.next_nil⟩
    | cons y xs => exact ⟨y, by simp, h.next_cons⟩
  · obtain ⟨as, bs, rfl⟩ := List.append_of_mem hx
    cases bs with
    | nil => exact ⟨s, List.mem_cons_self .., h.next_last⟩
    | cons y bs => exact ⟨y, by simp, h.next_mem⟩

/-- **In a ring `next` and `prev` undo each other.** -/
theorem next_prev (h : Circular L s xs) {x : α} (hx : x ∈ s :: xs) :
    (∃ y ∈ s :: xs, L.next x = some y ∧ L.prev y = some x) ∧
    (∃ y ∈ s :: xs, L.prev x = some y ∧ L.next y = some x) := by
  have hmem : ∀ y, y ∈ xs ++ [s] ↔ y ∈ s :: xs := fun y => by simp [or_comm]
  constructor
  · obtain ⟨y, hy, hxy⟩ := h.seg.next_prev hx
    exact ⟨y, (hmem y).mp hy, hxy⟩
  · exact h.seg.prev_next ((hmem x).mpr hx)

theorem exists_prev (h : Circular L s xs) : ∃ y ∈ s :: xs, L.prev s = some y := by
  rcases List.eq_nil_or_concat xs with rfl | ⟨as, y, rfl⟩
  · exact ⟨s, List.mem_cons_self .., h.prev_nil⟩
  · rw [List.concat_eq_append] at h ⊢
    exact ⟨y, by simp, h.prev_concat⟩

theorem next_ne_self (h : Circular L s xs) {x : α} (hx : x ∈ xs) : L.next x ≠ some x := by
  obtain ⟨as, bs, rfl⟩ := List.append_of_mem hx
  have hr := rotate.mp h
  rw [Ne, hr.next_self_iff]
  simp

/-! ### inserting and removing -/

section
variable [DecidableEq α] {n : α}

theorem insertBefore {p : α} (h : Circular L s xs) (hp : L.prev s = some p) (hn : n ∉ s :: xs) :
    Circular (L.insertBefore p s n) s (xs ++ [n]) := by
  have hns : n ≠ s := fun e => hn (e ▸ List.mem_cons_self ..)
  have hnd : (s :: (xs ++ [n])).Nodup := by
    rw [← List.cons_append]
    exact List.nodup_append.mpr ⟨h.nodup, List.nodup_singleton n, by
      intro a ha b hb
      rw [List.mem_singleton] at hb
      subst hb
      exact fun e => hn (e ▸ ha)⟩
  refine ⟨?_, hnd⟩
  rcases List.eq_nil_or_concat xs with rfl | ⟨as, q, rfl⟩
  · have hps : p = s := by
      have := h.prev_nil
      rw [hp] at this
      injection this
    subst hps
    show (_ ∧ _) ∧ _ ∧ _
    simp [Links.insertBefore, hns]
  · rw [List.concat_eq_append] at h hn hnd ⊢
    have hqp : q = p := by
      have := h.prev_concat
      rw [hp] at this
      injection this with e
      exact e.symm
    subst hqp
    have hnq : n ≠ q := fun e => hn (by simp [e])
    have hqs : q ≠ s := fun e => h.base_notMem (by simp [e])
    obtain ⟨h1, h2⟩ := (seg_append L s q s as []).mp h.seg
    have hqas : q ∉ as := by
      have := h.list_nodup
      rw [List.nodup_append] at this
      exact fun hm => this.2.2 q hm q (by simp) rfl
    rw [seg_append, seg_append]
    refine ⟨⟨h1.congr ?_ ?_, ?_⟩, ?_⟩
    · intro x hx
      have hxn : x ≠ n := fun e => hn (by
        rw [← e]
        rcases List.mem_cons.mp hx with rfl | hx
        · simp
        · simp [hx])
      have hxq : x ≠ q := by
        rcases List.mem_cons.mp hx with rfl | hx
        · exact hqs.symm
        · exact fun e => hqas (e ▸ hx)
      simp [Links.insertBefore, hxn, hxq]
    · intro x hx
      have hxn : x ≠ n := fun e => hn (by rw [← e]; exact List.mem_cons_of_mem _ hx)
      have hxs : x ≠ s := fun e => h.base_notMem (e ▸ hx)
      simp [Links.insertBefore, hxn, hxs]
    · show _ ∧ _
      simp [Links.insertBefore, hns]
    · show _ ∧ _
      simp [Links.insertBefore, hnq]

theorem insertAfter {q : α} (h : Circular L s xs) (hq : L.next s = some q) (hn : n ∉ s :: xs) :
    Circular (L.insertAfter s q n) s (n :: xs) := by
  have hns : n ≠ s := fun e => hn (e ▸ List.mem_cons_self ..)
  have hnx : n ∉ xs := fun hm => hn (List.mem_cons_of_mem _ hm)
  have hnd : (s :: n :: xs).Nodup := by
    rw [List.nodup_cons, List.nodup_cons]
    exact ⟨by simp [hns.symm, h.base_notMem], hnx, h.list_nodup⟩
  refine ⟨?_, hnd⟩
  cases xs with
  | nil =>
    have hqs : q = s := by
      have := h.next_nil
      rw [hq] at this
      injection this
    subst hqs
    show (_ ∧ _) ∧ _ ∧ _
    simp [Links.insertAfter, hns]
  | cons x xs =>
    have hxq : q = x := by
      have := h.next_cons
      rw [hq] at this
      injection this
    subst hxq
    have hnq : n ≠ q := fun e => hn (by simp [e])
    have hqs : q ≠ s := fun e => h.base_notMem (by simp [e])
    have hqxs : q ∉ xs := (List.nodup_cons.mp h.list_nodup).1
    refine ⟨by simp [Links.insertAfter, hnq], by simp [Links.insertAfter, hns], h.seg.2.congr ?_ ?_⟩
    · intro y hy
      have hyn : y ≠ n := fun e => hnx (e ▸ hy)
      have hys : y ≠ s := fun e => h.base_notMem (e ▸ hy)
      simp [Links.insertAfter, hyn, hys]
    · intro y hy
      rw [List.mem_append, List.mem_singleton] at hy
      have hyn : y ≠ n := by
        rcases hy with hy | rfl
        · exact fun e => hnx (e ▸ List.mem_cons_of_mem _ hy)
        · exact hns.symm
      have hyq : y ≠ q := by
        rcases hy with hy | rfl
        · exact fun e => hqxs (e ▸ hy)
        · exact hqs.symm
      simp [Links.insertAfter, hyn, hyq]

/-- **The base leaves the ring**; the first of the others is the base of what is left. -/
theorem unlink {p y : α} (h : Circular L s (y :: xs)) (hp : L.prev s = some p) :
    Circular (L.unlink p y) y xs := by
  refine ⟨?_, h.list_nodup⟩
  rcases List.eq_nil_or_concat xs with rfl | ⟨as, q, rfl⟩
  · have hpy : p = y := by
      have := (show Circular L s ([] ++ [y]) from h).prev_concat
      rw [hp] at this
      injection this
    subst hpy
    show _ ∧ _
    simp [Links.unlink]
  · rw [List.concat_eq_append] at h ⊢
    have hqp : q = p := by
      have := (show Circular L s (y :: as ++ [q]) from h).prev_concat
      rw [hp] at this
      injection this with e
      exact e.symm
    subst hqp
    have hnd := h.list_nodup
    have hyas : y ∉ as ++ [q] := (List.nodup_cons.mp hnd).1
    have hqas : q ∉ y :: as := by
      rw [← List.cons_append, List.nodup_append] at hnd
      exact fun hm => hnd.2.2 q hm q (by simp) rfl
    rw [seg_append]
    obtain ⟨h1, _⟩ := (seg_append L y q s as []).mp h.seg.2
    refine ⟨h1.congr ?_ ?_, ?_⟩
    · intro x hx
      have hxq : x ≠ q := fun e => hqas (e ▸ hx)
      simp [Links.unlink, hxq]
    · intro x hx
      have hxy : x ≠ y := fun e => hyas (e ▸ hx)
      simp [Links.unlink, hxy]
    · show _ ∧ _
      simp [Links.unlink]

/-- **A new node takes the place of the base.** -/
theorem replace {p y : α} (h : Circular L s (y :: xs)) (hp : L.prev s = some p)
    (hn : n ∉ s :: y :: xs) : Circular (L.replace p y n) n (y :: xs) := by
  have hnyx : n ∉ y :: xs := fun hm => hn (List.mem_cons_of_mem _ hm)
  have hny : n ≠ y := fun e => hnyx (e ▸ List.mem_cons_self ..)
  refine ⟨?_, List.nodup_cons.mpr ⟨hnyx, h.list_nodup⟩⟩
  rcases List.eq_nil_or_concat xs with rfl | ⟨as, q, rfl⟩
  · have hpy : p = y := by
      have := (show Circular L s ([] ++ [y]) from h).prev_concat
      rw [hp] at this
      injection this
    subst hpy
    show (_ ∧ _) ∧ _ ∧ _
    simp [Links.replace, hny]
  · rw [List.concat_eq_append] at h hn hnyx ⊢
    have hqp : q = p := by
      have := (show Circular L s (y :: as ++ [q]) from h).prev_concat
      rw [hp] at this
      injection this with e
      exact e.symm
    subst hqp
    have hnq : n ≠ q := fun e => hnyx (by simp [e])
    have hnd := h.list_nodup
    have hyas : y ∉ as ++ [q] := (List.nodup_cons.mp hnd).1
    have hqas : q ∉ y :: as := by
      rw [← List.cons_append, List.nodup_append] at hnd
      exact fun hm => hnd.2.2 q hm q (by simp) rfl
    obtain ⟨h1, _⟩ := (seg_append L y q s as []).mp h.seg.2
    refine ⟨⟨by simp [Links.replace, hnq], by simp [Links.replace]⟩, (seg_append ..).mpr
      ⟨h1.congr ?_ ?_, by simp [Links.replace], by simp [Links.replace, hny]⟩⟩
    · intro x hx
      have hxq : x ≠ q := fun e => hqas (e ▸ hx)
      have hxn : x ≠ n := by
        intro e
        apply hnyx
        rw [← e]
        rcases List.mem_cons.mp hx with hx | hx
        · simp [hx]
        · simp [hx]
      simp [Links.replace, hxq, hxn]
    · intro x hx
      have hxy : x ≠ y := fun e => hyas (e ▸ hx)
      have hxn : x ≠ n := fun e => hnyx (e ▸ List.mem_cons_of_mem _ hx)
      simp [Links.replace, hxy, hxn]

/-! ### at a node of the list -/

omit [DecidableEq α] in
/-- seen from a node of the list the others are the list -/
theorem rotate_cons {c : α} (h : Circular L s (xs ++ c :: ys)) :
    ∃ y zs, ys ++ s :: xs = y :: zs ∧ Circular L c (y :: zs) := by
  have hr := rotate.mp h
  cases ys with
  | nil => exact ⟨s, xs, rfl, hr⟩
  | cons y ys => exact ⟨y, ys ++ s :: xs, rfl, hr⟩

omit [DecidableEq α] in
theorem exists_neighbours {c : α} (h : Circular L s (xs ++ c :: ys)) :
    ∃ p q, L.prev c = some p ∧ L.next c = some q ∧ p ∈ s :: (xs ++ ys) ∧ q ∈ s :: (xs ++ ys) ∧
      p ≠ c ∧ q ≠ c := by
  obtain ⟨y, zs, hyz, hr⟩ := rotate_cons h
  have hmem : ∀ x, x ∈ y :: zs ↔ x ∈ s :: (xs ++ ys) := by
    intro x
    rw [← hyz]
    simp only [List.mem_cons, List.mem_append]
    tauto
  have hne : ∀ x ∈ y :: zs, x ≠ c := fun x hx e => hr.base_notMem (e ▸ hx)
  obtain ⟨as, p, hp⟩ := List.eq_nil_or_concat (y :: zs) |>.resolve_left (List.cons_ne_nil y zs)
  rw [List.concat_eq_append] at hp
  have hpm : p ∈ y :: zs := by simp [hp]
  refine ⟨p, y, ?_, hr.next_cons, (hmem p).mp hpm, (hmem y).mp (List.mem_cons_self ..), hne p hpm,
    hne y (List.mem_cons_self ..)⟩
  rw [hp] at hr
  exact hr.prev_concat

omit [DecidableEq α] in
theorem mem_remove {c b : α} (h : Circular L s (xs ++ c :: ys)) :
    b ∈ xs ++ ys ↔ b ∈ xs ++ c :: ys ∧ b ≠ c := by
  have hperm := @List.perm_middle _ c xs ys
  have hcn : c ∉ xs ++ ys := (List.nodup_cons.mp (hperm.nodup h.list_nodup)).1
  rw [hperm.mem_iff, List.mem_cons]
  constructor
  · intro hb
    exact ⟨Or.inr hb, fun e => hcn (e ▸ hb)⟩
  · rintro ⟨hb | hb, hne⟩
    · exact absurd hb hne
    · exact hb

/-- **A node of the list leaves the ring.** -/
theorem unlink_mem {c p q : α} (h : Circular L s (xs ++ c :: ys)) (hp : L.prev c = some p)
    (hq : L.next c = some q) : Circular (L.unlink p q) s (xs ++ ys) := by
  obtain ⟨y, zs, hyz, hr⟩ := rotate_cons h
  have hyq : y = q := Option.some.inj (hr.next_cons.symm.trans hq)
  have hu := hr.unlink hp
  rw [hyq] at hu hyz
  cases ys with
  | nil =>
    rw [List.nil_append] at hyz
    obtain ⟨rfl, rfl⟩ := List.cons.inj hyz
    rw [List.append_nil]
    exact hu
  | cons w ys =>
    rw [List.cons_append] at hyz
    obtain ⟨rfl, rfl⟩ := List.cons.inj hyz
    exact rotate.mpr hu

/-- **A new node takes the place of a node of the list.** -/
theorem replace_mem {c p q : α} (h : Circular L s (xs ++ c :: ys)) (hp : L.prev c = some p)
    (hq : L.next c = some q) (hn : n ∉ s :: (xs ++ c :: ys)) :
    Circular (L.replace p q n) s (xs ++ n :: ys) := by
  obtain ⟨y, zs, hyz, hr⟩ := rotate_cons h
  have hyq : y = q := Option.some.inj (hr.next_cons.symm.trans hq)
  have hu := hr.replace hp (n := n) (fun hm => hn (by
    rw [← hyz] at hm
    simp only [List.mem_cons, List.mem_append] at hm ⊢
    tauto))
  rw [← hyz, hyq] at hu
  exact rotate.mpr hu

end

end Circular

end
