import NeonEds.Base.Dlist

/-!
# Bias lists (include/base/bias_list.h)

A node of a bias list is a list node with a `bias`; `BiasLists` holds the link and the bias members
of all nodes.  `nbiasListSortInsert` looks for the first node whose bias is not smaller, the sentinel
not counted: on a list whose nodes all have a smaller bias it leaves the new node out.

* `sortInsert_search`        where the search stops;
* `nbiasListSortInsert_iff`  the node is inserted exactly when some node has a bias not smaller.
-/

namespace NeonEds
open Exec

structure BiasLists (α : Type) where
  list : Links α
  bias : α → ℕ

def nbiasListMaxPrio : ℕ := 255

section
variable {α : Type} [DecidableEq α]

def nbiasListInit (L : BiasLists α) (node : α) (bias : ℕ) : BiasLists α :=
  { list := ndlistInit L.list node, bias := Function.update L.bias node bias }

def nbiasListTerm (L : BiasLists α) (node : α) : BiasLists α :=
  { list := ndlistInit L.list node, bias := Function.update L.bias node 0 }

/-- the loop goes on while neither the sentinel nor a bias that is not smaller has come -/
def sortInsertCond (L : BiasLists α) (list node : α) (current : α) : Bool :=
  decide (current ≠ list ∧ ¬ L.bias node ≤ L.bias current)

def nbiasListSortInsert (fuel : ℕ) (L : BiasLists α) (list node : α) : Exec (BiasLists α) := do
  let first ← ndlistNext L.list list
  let current ← whileLoop (sortInsertCond L list node) (ndlistNext L.list) fuel first
  if current ≠ list then
    let list ← ndlistAddBefore L.list current node
    return { L with list := list }
  else return L

def nbiasListFifoInsert (L : BiasLists α) (list node : α) : Exec (BiasLists α) := do
  let list ← ndlistAddBefore L.list list node
  return { L with list := list }

def nbiasListRemove (v : Bool) (L : BiasLists α) (node : α) : Exec (BiasLists α) := do
  let list ← ndlistRemove v L.list node
  return { L with list := list }

def nbiasListIsEmpty (L : BiasLists α) (list : α) : Bool := ndlistIsEmpty L.list list

def nbiasListNext (L : BiasLists α) (node : α) : Exec α := ndlistNext L.list node

def nbiasListGetBias (L : BiasLists α) (node : α) : ℕ := L.bias node

/-! ## sorted insertion -/

/-- the nodes come in the order of their bias -/
def BiasSorted (L : BiasLists α) (xs : List α) : Prop :=
  xs.Pairwise (fun x y => L.bias x ≤ L.bias y)

/-- what a sorted insertion is for: `node` stands somewhere between the old nodes, which keep their
order, and the list is sorted -/
def SortInserted (L : BiasLists α) (list node : α) (xs : List α) (r : Exec (BiasLists α)) : Prop :=
  ∃ L' pre post, r = .ok L' ∧ xs = pre ++ post ∧ Circular L'.list list (pre ++ node :: post) ∧
    L'.bias = L.bias ∧ BiasSorted L' (pre ++ node :: post)

variable {L : BiasLists α} {list node : α} {xs : List α}

/-- the search stops at the first node whose bias is not smaller, else at the sentinel -/
theorem sortInsert_search (node : α) {post : List α} : ∀ {pre : List α} {fuel : ℕ},
    Circular L.list list (pre ++ post) → post.length ≤ fuel →
    ∃ mid rest, post = mid ++ rest ∧ (∀ x ∈ mid, L.bias x < L.bias node) ∧
      (∀ y ∈ rest.head?, L.bias node ≤ L.bias y) ∧
      whileLoop (sortInsertCond L list node) (ndlistNext L.list) fuel (post.head?.getD list) =
        .ok (rest.head?.getD list) := by
  induction post with
  | nil =>
    intro pre fuel _ _
    refine ⟨[], [], rfl, nofun, nofun, whileLoop_exit ?_ fuel⟩
    exact decide_eq_false (fun hc => hc.1 rfl)
  | cons x post ih =>
    intro pre fuel h hf
    rw [List.length_cons] at hf
    by_cases hx : L.bias node ≤ L.bias x
    · refine ⟨[], x :: post, rfl, nofun, fun y hy => ?_, whileLoop_exit ?_ fuel⟩
      · exact Option.some.inj hy ▸ hx
      · exact decide_eq_false (fun hc => hc.2 hx)
    · have hne : x ≠ list := fun e => h.base_notMem (e ▸ by simp)
      have hcond : sortInsertCond L list node x = true := decide_eq_true ⟨hne, hx⟩
      have hnext : ndlistNext L.list x = .ok (post.head?.getD list) := by
        rw [ndlistNext, h.next_at, deref_some]
      obtain ⟨fuel, rfl⟩ : ∃ k, fuel = k + 1 := ⟨fuel - 1, by omega⟩
      rw [List.append_cons] at h
      obtain ⟨mid, rest, hpost, hmid, hrest, hloop⟩ := ih h (Nat.le_of_succ_le_succ hf)
      refine ⟨x :: mid, rest, by rw [hpost, List.cons_append], ?_, hrest, ?_⟩
      · intro y hy
        rcases List.mem_cons.mp hy with rfl | hy
        · omega
        · exact hmid y hy
      · exact (whileLoop_succ hcond hnext fuel).trans hloop

theorem nbiasListSortInsert_eq (node : α) {fuel : ℕ} (h : Circular L.list list xs) (hf : xs.length ≤ fuel) :
    ∃ pre post, xs = pre ++ post ∧ (∀ x ∈ pre, L.bias x < L.bias node) ∧
      (∀ y ∈ post.head?, L.bias node ≤ L.bias y) ∧
      nbiasListSortInsert fuel L list node =
        if post.head?.getD list ≠ list then
          (ndlistAddBefore L.list (post.head?.getD list) node).map ({ L with list := · })
        else .ok L := by
  obtain ⟨pre, post, hxs, hpre, hpost, hloop⟩ :=
    sortInsert_search node (show Circular L.list list ([] ++ xs) from h) hf
  refine ⟨pre, post, hxs, hpre, hpost, ?_⟩
  rw [nbiasListSortInsert, ndlistNext, h.next_base, deref_some, ok_bind, hloop, ok_bind]
  rfl

omit [DecidableEq α] in
theorem biasSorted_insert {pre post : List α} (hs : BiasSorted L (pre ++ post))
    (hpre : ∀ x ∈ pre, L.bias x < L.bias node) (hpost : ∀ y ∈ post.head?, L.bias node ≤ L.bias y) :
    BiasSorted L (pre ++ node :: post) := by
  obtain ⟨h1, h2, h12⟩ := List.pairwise_append.mp hs
  have hall : ∀ y ∈ post, L.bias node ≤ L.bias y := by
    intro y hy
    cases post with
    | nil => cases hy
    | cons z post =>
      have hz : L.bias node ≤ L.bias z := hpost z rfl
      rcases List.mem_cons.mp hy with rfl | hy
      · exact hz
      · exact hz.trans ((List.pairwise_cons.mp h2).1 y hy)
  refine List.pairwise_append.mpr ⟨h1, List.pairwise_cons.mpr ⟨hall, h2⟩, ?_⟩
  intro x hx y hy
  rcases List.mem_cons.mp hy with rfl | hy
  · exact (hpre x hx).le
  · exact h12 x hx y hy

/-- **Sorted insertion inserts exactly when a node of the list has a bias that is not smaller.** The
bias of the sentinel plays no part. -/
theorem nbiasListSortInsert_iff {fuel : ℕ} (h : Circular L.list list xs) (hs : BiasSorted L xs)
    (hn : node ∉ list :: xs) (hf : xs.length ≤ fuel) :
    SortInserted L list node xs (nbiasListSortInsert fuel L list node) ↔
      ∃ x ∈ xs, L.bias node ≤ L.bias x := by
  obtain ⟨pre, post, rfl, hpre, hpost, hrun⟩ := nbiasListSortInsert_eq node h hf
  rw [hrun]
  cases post with
  | nil =>
    -- the search came to the sentinel: nothing is written
    rw [if_neg (fun hc => hc rfl)]
    constructor
    · intro ⟨L', pre', post', hL', _, hring, _, _⟩
      obtain rfl := Except.ok.inj hL'
      rw [h.unique hring] at hn
      exact absurd (by simp) hn
    · intro ⟨x, hx, hle⟩
      rw [List.append_nil] at hx
      have := hpre x hx
      omega
  | cons y post =>
    have hy : y ≠ list := fun e => h.base_notMem (e ▸ by simp)
    obtain ⟨L', hL', hring, _⟩ := ndlistAddBefore_ring h (c := y) rfl hn
    constructor
    · intro _
      exact ⟨y, by simp, hpost y rfl⟩
    · intro _
      refine ⟨{ L with list := L' }, pre, y :: post, ?_, rfl, hring, rfl, biasSorted_insert hs hpre hpost⟩
      show (if y ≠ list then (ndlistAddBefore L.list y node).map _ else _) = _
      rw [if_pos hy, hL']
      rfl

end

/-- a list with the node 1 of bias 9, and the node 2 of bias 7 -/
theorem nbiasListSortInsert_before :
    let L : BiasLists ℕ := {
      list := { next := fun x => some (1 - x), prev := fun x => some (1 - x) },
      bias := fun x => if x = 0 then nbiasListMaxPrio else 11 - 2 * x }
    SortInserted L 0 2 [1] (nbiasListSortInsert 1 L 0 2) :=
  (nbiasListSortInsert_iff ⟨by simp [Seg], by simp⟩ (List.pairwise_singleton ..) (by simp)
    (by simp)).mpr ⟨1, by simp, by simp⟩

theorem nbiasListSortInsert_empty :
    let L : BiasLists ℕ := nbiasListInit (nbiasListInit
      { list := { next := fun _ => none, prev := fun _ => none }, bias := fun _ => 0 } 0
        nbiasListMaxPrio) 1 7
    Circular L.list 0 [] ∧ L.bias 0 = nbiasListMaxPrio ∧ BiasSorted L [] ∧ 1 ∉ [0] ∧
      ∀ fuel, ¬ SortInserted L 0 1 [] (nbiasListSortInsert fuel L 0 1) := by
  intro L
  have hring : Circular L.list 0 [] := Circular.nil_iff.mpr ⟨rfl, rfl⟩
  refine ⟨hring, rfl, List.Pairwise.nil, by simp, fun fuel => ?_⟩
  intro ⟨L', pre, post, hrun, _, hring', _, _⟩
  obtain ⟨pre', post', hnil, _, _, hrun'⟩ := nbiasListSortInsert_eq 1 hring (Nat.zero_le fuel)
  obtain ⟨rfl, rfl⟩ := List.append_eq_nil_iff.mp hnil.symm
  rw [hrun', if_neg (fun hc => hc rfl)] at hrun
  obtain rfl := Except.ok.inj hrun
  exact absurd (hring.unique hring') (by simp)

end NeonEds
