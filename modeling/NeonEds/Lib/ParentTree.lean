import Mathlib.Data.List.Iterate
import Mathlib.Order.BooleanAlgebra.Set
import Mathlib.Tactic.Common

/-!
# Rooted trees and active configurations

A rooted tree is given by the parent of every node and the depth of every node.  `up n s` is the
`n`-th node on the way from `s` to the root, `path s n` the first `n` nodes of that way.

A configuration is a set of nodes that are active.  `ConfigRun` are the sequences of changes in
which a node is left only while none of its children is active and entered only while it is not
active and its parent is: leaving a path upwards and entering a path downwards are such sequences
(`ConfigRun.leave_path`, `ConfigRun.enter_path`).
-/

structure ParentTree (S : Type*) where
  root : S
  parent : S → S
  depth : S → ℕ
  depth_eq_zero : ∀ s, depth s = 0 ↔ s = root
  depth_parent : ∀ s, s ≠ root → depth s = depth (parent s) + 1

namespace ParentTree
variable {S : Type*} (t : ParentTree S)

/-- the `n`-th node on the way from `s` to the root -/
def up (n : ℕ) (s : S) : S := t.parent^[n] s

/-- the first `n` nodes on the way from `s` to the root -/
def path (s : S) (n : ℕ) : List S := List.iterate t.parent s n

/-- `a` is `s` or one of its ancestors -/
def Encloses (a s : S) : Prop := ∃ n ≤ t.depth s, t.up n s = a

/-- `a` is a proper ancestor of `s` -/
def ProperEncloses (a s : S) : Prop := ∃ n, 1 ≤ n ∧ n ≤ t.depth s ∧ t.up n s = a

/-- the nodes from `s` upwards to just below `a` -/
def pathBelow (s a : S) : List S := t.path s (t.depth s - t.depth a)

/-- `l` is the deepest common ancestor of `a` and `b` -/
def IsDeepestCommon (l a b : S) : Prop :=
  t.Encloses l a ∧ t.Encloses l b ∧ ∀ c, t.Encloses c a → t.Encloses c b → t.Encloses c l

/-- `s` and its ancestors below the root -/
def active (s : S) : Set S := {a | a ≠ t.root ∧ t.Encloses a s}

@[simp] theorem up_zero (s : S) : t.up 0 s = s := rfl

theorem up_succ (n : ℕ) (s : S) : t.up (n + 1) s = t.parent (t.up n s) :=
  Function.iterate_succ_apply' t.parent n s

theorem up_add (m n : ℕ) (s : S) : t.up (m + n) s = t.up m (t.up n s) :=
  Function.iterate_add_apply t.parent m n s

variable {t}

theorem depth_pos {s : S} (h : s ≠ t.root) : 0 < t.depth s :=
  Nat.pos_of_ne_zero (fun h0 => h ((t.depth_eq_zero s).mp h0))

theorem depth_up {s : S} {n : ℕ} (h : n ≤ t.depth s) : t.depth (t.up n s) = t.depth s - n := by
  induction n with
  | zero => rfl
  | succ n ih =>
    have ih := ih (by omega)
    have hne : t.up n s ≠ t.root := by
      intro hr
      have := (t.depth_eq_zero _).mpr hr
      omega
    have := t.depth_parent _ hne
    rw [up_succ]
    omega

theorem up_eq_root {s : S} {n : ℕ} (h : n ≤ t.depth s) : t.up n s = t.root ↔ n = t.depth s := by
  rw [← t.depth_eq_zero, depth_up h]
  omega

theorem up_ne_root {s : S} {n : ℕ} (h : n < t.depth s) : t.up n s ≠ t.root := by
  rw [Ne, up_eq_root h.le]
  omega

theorem depth_eq_of_up_eq {a b : S} {m n : ℕ} (hm : m ≤ t.depth a) (hn : n ≤ t.depth b)
    (h : t.up m a = t.up n b) : t.depth a - m = t.depth b - n := by
  rw [← depth_up hm, ← depth_up hn, h]

theorem up_mem_path {s : S} {m n : ℕ} (h : m < n) : t.up m s ∈ t.path s n :=
  List.mem_iterate.mpr ⟨m, h, rfl⟩

theorem path_succ (s : S) (n : ℕ) : t.path s (n + 1) = t.path s n ++ [t.up n s] :=
  List.iterate_add t.parent s n 1

theorem encloses_refl (s : S) : t.Encloses s s := ⟨0, Nat.zero_le _, rfl⟩

theorem Encloses.depth_le {a s : S} (h : t.Encloses a s) : t.depth a ≤ t.depth s := by
  obtain ⟨n, hn, rfl⟩ := h
  rw [depth_up hn]
  omega

theorem ProperEncloses.depth_lt {a s : S} (h : t.ProperEncloses a s) : t.depth a < t.depth s := by
  obtain ⟨n, h1, hn, rfl⟩ := h
  rw [depth_up hn]
  omega

theorem pathBelow_up {s : S} {n : ℕ} (h : n ≤ t.depth s) : t.pathBelow s (t.up n s) = t.path s n := by
  unfold pathBelow
  rw [depth_up h, Nat.sub_sub_self h]

/-! ## the active nodes -/

theorem self_mem_active {s : S} (h : s ≠ t.root) : s ∈ t.active s := ⟨h, encloses_refl s⟩

/-- a node as deep as `s` or deeper is not active with the parent of `s` -/
theorem not_mem_active_of_depth {a s : S} (h : t.depth s < t.depth a) : a ∉ t.active s := by
  intro ha
  have := ha.2.depth_le
  omega

theorem active_eq_insert {s : S} (h : s ≠ t.root) :
    t.active s = insert s (t.active (t.parent s)) := by
  have hd := t.depth_parent s h
  ext a
  constructor
  · rintro ⟨hne, n, hn, rfl⟩
    cases n with
    | zero => exact Or.inl rfl
    | succ n => exact Or.inr ⟨hne, n, by omega, rfl⟩
  · rintro (rfl | ⟨hne, n, hn, rfl⟩)
    · exact self_mem_active h
    · exact ⟨hne, n + 1, by omega, rfl⟩

theorem not_mem_active_parent {s : S} (h : s ≠ t.root) : s ∉ t.active (t.parent s) := by
  apply not_mem_active_of_depth
  have := t.depth_parent s h
  omega

theorem active_parent {s : S} (h : s ≠ t.root) : t.active s \ {s} = t.active (t.parent s) := by
  rw [active_eq_insert h]
  exact Set.insert_sdiff_self_of_notMem (not_mem_active_parent h)

/-! ## changes of a configuration -/

inductive Change where
  | enter
  | leave
  deriving DecidableEq

variable (t) in
/-- the changes, in order, lead from the first set of active nodes to the second; no node is left
before its children and none entered before its parent -/
inductive ConfigRun : Set S → List (Change × S) → Set S → Prop where
  | nil (A : Set S) : ConfigRun A [] A
  | leave {A B : Set S} {s : S} {l : List (Change × S)} (hs : s ∈ A)
      (hc : ∀ c, c ≠ t.root → t.parent c = s → c ∉ A) (h : ConfigRun (A \ {s}) l B) :
      ConfigRun A ((.leave, s) :: l) B
  | enter {A B : Set S} {s : S} {l : List (Change × S)} (hs : s ∉ A)
      (hp : t.parent s = t.root ∨ t.parent s ∈ A) (h : ConfigRun (insert s A) l B) :
      ConfigRun A ((.enter, s) :: l) B

namespace ConfigRun

theorem append {A B C : Set S} {l m : List (Change × S)} (h : t.ConfigRun A l B)
    (h' : t.ConfigRun B m C) : t.ConfigRun A (l ++ m) C := by
  induction h with
  | nil => exact h'
  | leave hs hc _ ih => exact .leave hs hc (ih h')
  | enter hs hp _ ih => exact .enter hs hp (ih h')

theorem leave_one {s : S} (h : s ≠ t.root) :
    t.ConfigRun (t.active s) [(.leave, s)] (t.active (t.parent s)) := by
  apply ConfigRun.leave (self_mem_active h)
  · intro c hc hp
    apply not_mem_active_of_depth
    have := t.depth_parent c hc
    rw [hp] at this
    omega
  · rw [active_parent h]
    exact .nil _

theorem enter_one {s : S} (h : s ≠ t.root) :
    t.ConfigRun (t.active (t.parent s)) [(.enter, s)] (t.active s) := by
  apply ConfigRun.enter (not_mem_active_parent h)
  · rcases eq_or_ne (t.parent s) t.root with hp | hp
    · exact Or.inl hp
    · exact Or.inr (self_mem_active hp)
  · rw [← active_eq_insert h]
    exact .nil _

theorem leave_path {s : S} {n : ℕ} (h : n ≤ t.depth s) :
    t.ConfigRun (t.active s) ((t.path s n).map (Prod.mk .leave)) (t.active (t.up n s)) := by
  induction n with
  | zero => exact .nil _
  | succ n ih =>
    rw [path_succ, List.map_append, up_succ]
    exact (ih (by omega)).append (leave_one (up_ne_root (by omega)))

theorem enter_path {s : S} {n : ℕ} (h : n ≤ t.depth s) :
    t.ConfigRun (t.active (t.up n s)) ((t.path s n).reverse.map (Prod.mk .enter)) (t.active s) := by
  induction n with
  | zero => exact .nil _
  | succ n ih =>
    rw [path_succ, List.reverse_append, List.map_append, up_succ]
    exact (enter_one (up_ne_root (by omega))).append (ih (by omega))

end ConfigRun

end ParentTree
