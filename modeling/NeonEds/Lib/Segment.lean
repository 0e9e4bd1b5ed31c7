import Mathlib.Data.List.Basic
import Mathlib.Logic.Function.Basic

/-!
# Segments of an array

An array is a function from the indices to the entries, `none` for an entry that is not set.
`Holds a off l`: from the index `off` on the array `a` holds the entries of `l`.

* `holds_append`, `holds_update`   a segment is cut in two, an entry outside is set;
* `Insertion key x l l'`           `x` has come to its place by `key` into `l`, after those of its key;
* `Insertion.sorted`               which keeps the order.
-/

namespace Segment
universe u
variable {α : Type u}

def Holds (a : ℕ → Option α) (off : ℕ) : List α → Prop
  | [] => True
  | x :: l => a off = some x ∧ Holds a (off + 1) l

section
variable {a : ℕ → Option α} {off : ℕ} {l l' : List α}

theorem holds_append :
    Holds a off (l ++ l') ↔ Holds a off l ∧ Holds a (off + l.length) l' := by
  induction l generalizing off with
  | nil =>
    rw [List.nil_append, List.length_nil, Nat.add_zero]
    exact (and_iff_right trivial).symm
  | cons x l ih =>
    have hlen : off + (x :: l).length = off + 1 + l.length := by
      rw [List.length_cons]
      omega
    rw [hlen]
    show a off = some x ∧ Holds a (off + 1) (l ++ l') ↔
      (a off = some x ∧ Holds a (off + 1) l) ∧ _
    rw [ih, and_assoc]

theorem holds_concat {x : α} :
    Holds a off (l ++ [x]) ↔ Holds a off l ∧ a (off + l.length) = some x := by
  rw [holds_append]
  show _ ∧ _ ∧ True ↔ _
  rw [and_true]

theorem Holds.update (h : Holds a off l) {i : ℕ} (hi : i < off ∨ off + l.length ≤ i)
    (y : Option α) : Holds (Function.update a i y) off l := by
  induction l generalizing off with
  | nil => trivial
  | cons x l ih =>
    rw [List.length_cons] at hi
    refine ⟨?_, ih h.2 (by omega)⟩
    rw [Function.update_of_ne (by omega)]
    exact h.1

theorem Holds.get (h : Holds a off l) {i : ℕ} (hi : i < l.length) :
    a (off + i) = some (l.get ⟨i, hi⟩) := by
  induction l generalizing off i with
  | nil => cases hi
  | cons x l ih =>
    cases i with
    | zero => exact h.1
    | succ i =>
      have hrec := ih h.2 (Nat.lt_of_succ_lt_succ hi)
      rw [show off + (i + 1) = off + 1 + i by omega]
      exact hrec

end

/-! ## insertion by a key -/

/-- `x` stands after the entries of `l` up to its key and before the others -/
structure Insertion (key : α → ℕ) (x : α) (l l' : List α) : Prop where
  exists_split : ∃ pre post, l = pre ++ post ∧ l' = pre ++ x :: post ∧
    (∀ y ∈ pre.getLast?, key y ≤ key x) ∧ ∀ y ∈ post, key x < key y

namespace Insertion
variable {key : α → ℕ} {x : α} {l l' : List α}

theorem length (h : Insertion key x l l') : l'.length = l.length + 1 := by
  obtain ⟨pre, post, hl, hl', _, _⟩ := h.exists_split
  rw [hl, hl', List.length_append, List.length_append, List.length_cons]
  omega

theorem mem (h : Insertion key x l l') (y : α) : y ∈ l' ↔ y = x ∨ y ∈ l := by
  obtain ⟨pre, post, hl, hl', _, _⟩ := h.exists_split
  rw [hl, hl', List.mem_append, List.mem_append, List.mem_cons]
  exact or_left_comm

theorem nodup (h : Insertion key x l l') (hl : l.Nodup) (hx : x ∉ l) : l'.Nodup := by
  obtain ⟨pre, post, hs, hl', _, _⟩ := h.exists_split
  rw [hs] at hl hx
  rw [hl', List.perm_middle.nodup_iff]
  exact List.nodup_cons.mpr ⟨hx, hl⟩

theorem sorted (h : Insertion key x l l') (hl : l.Pairwise (fun y z => key y ≤ key z)) :
    l'.Pairwise (fun y z => key y ≤ key z) := by
  obtain ⟨pre, post, hs, hl', hpre, hpost⟩ := h.exists_split
  rw [hs, List.pairwise_append] at hl
  obtain ⟨hsorted, hsorted', hcross⟩ := hl
  -- the last entry before `x` bounds all entries before `x`
  have hbound : ∀ y ∈ pre, key y ≤ key x := by
    intro y hy
    rcases List.eq_nil_or_concat pre with hnil | ⟨pre', z, hpre'⟩
    · rw [hnil] at hy
      cases hy
    · rw [hpre', List.concat_eq_append] at hy hpre hsorted
      have hz := hpre z (by rw [List.getLast?_append, List.getLast?_singleton]; rfl)
      rcases List.mem_append.mp hy with hy | hy
      · exact Nat.le_trans ((List.pairwise_append.mp hsorted).2.2 y hy z (List.mem_singleton_self z)) hz
      · rw [List.mem_singleton.mp hy]
        exact hz
  rw [hl', List.pairwise_append]
  refine ⟨hsorted, List.pairwise_cons.mpr ⟨fun y hy => Nat.le_of_lt (hpost y hy), hsorted'⟩, ?_⟩
  intro y hy z hz
  rcases List.mem_cons.mp hz with hz | hz
  · rw [hz]
    exact hbound y hy
  · exact hcross y hy z hz

end Insertion

end Segment
