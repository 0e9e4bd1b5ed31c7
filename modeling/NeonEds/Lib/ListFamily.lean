import NeonEds.Lib.Dll
import Mathlib.Data.Set.Insert

/-!
# A family of circular lists over one set of nodes

A `ListFamily` says what each node is: the base of a list, with its content, or a node that was taken
out.  A node that is neither, nor in a list, has pointers without a meaning.

* `Holds`        the links show the family: a ring for each base, no node in two rings, and a node
                 that was taken out leads to itself;
* `Holds.set`    a change inside one ring, perhaps with a node from outside, is a change of one list;
* `Holds.drop`, `Holds.takeOut`: a node is forgotten, or noted as taken out.
-/

universe u

structure ListFamily (α : Type u) where
  /-- the content of the list with this base -/
  list : α → Option (List α)
  /-- the nodes that were taken out of a list -/
  removed : Set α

namespace ListFamily
variable {α : Type u} {L L' : Links α} {S : ListFamily α} {s t n x : α} {xs ys : List α}

/-- in no list and not the base of one -/
def Free (S : ListFamily α) (x : α) : Prop := ∀ s xs, S.list s = some xs → x ∉ s :: xs

/-- in no list, at most the base of an empty one -/
def Unlinked (S : ListFamily α) (x : α) : Prop :=
  ∀ s xs, S.list s = some xs → x ∈ s :: xs → s = x ∧ xs = []

/-- a base, or in a list -/
def Placed (S : ListFamily α) (x : α) : Prop := ∃ s xs, S.list s = some xs ∧ x ∈ s :: xs

def takeOut (S : ListFamily α) (n : α) : ListFamily α := { S with removed := insert n S.removed }

theorem Free.unlinked (h : S.Free x) : S.Unlinked x := fun s xs hs hm => absurd hm (h s xs hs)

section
variable [DecidableEq α]

/-- `n` is no base and not taken out -/
def drop (S : ListFamily α) (n : α) : ListFamily α :=
  { list := Function.update S.list n none, removed := S.removed \ {n} }

def set (S : ListFamily α) (s : α) (xs : List α) : ListFamily α :=
  { S with list := Function.update S.list s (some xs) }

theorem drop_list (h : s ≠ n) : (S.drop n).list s = S.list s := Function.update_of_ne h ..

theorem drop_list_eq_some (h : (S.drop n).list s = some xs) : s ≠ n ∧ S.list s = some xs := by
  have hs : s ≠ n := by
    intro e
    have h' : Function.update S.list n none s = some xs := h
    rw [e, Function.update_self] at h'
    cases h'
  exact ⟨hs, (drop_list hs).symm.trans h⟩

@[simp] theorem set_list_self : (S.set s xs).list s = some xs := Function.update_self ..

theorem set_list (h : t ≠ s) : (S.set s xs).list t = S.list t := Function.update_of_ne h ..

@[simp] theorem set_removed : (S.set s xs).removed = S.removed := rfl

theorem Unlinked.free_drop (h : S.Unlinked n) : (S.drop n).Free n := by
  intro s xs hs hm
  obtain ⟨hsn, hs'⟩ := drop_list_eq_some hs
  exact hsn (h s xs hs' hm).1

theorem notMem_drop : n ∉ (S.drop n).removed := fun h => h.2 rfl

end

/-- **The links show the family.** -/
structure Holds (L : Links α) (S : ListFamily α) : Prop where
  ring : ∀ s xs, S.list s = some xs → Circular L s xs
  apart : ∀ s xs t ys x, S.list s = some xs → x ∈ s :: xs → S.list t = some ys → x ∈ t :: ys → s = t
  removed : ∀ x ∈ S.removed, L.next x = some x ∧ S.Free x

namespace Holds

theorem next_self_iff (h : S.Holds L) (hx : S.Placed x ∨ x ∈ S.removed) :
    L.next x = some x ↔ x ∈ S.removed ∨ S.list x = some [] := by
  constructor
  · intro hnext
    refine hx.symm.imp id ?_
    intro ⟨s, xs, hs, hm⟩
    have hr := h.ring s xs hs
    rcases List.mem_cons.mp hm with rfl | hm
    · rw [hs, hr.next_self_iff.mp hnext]
    · exact absurd hnext (hr.next_ne_self hm)
  · intro hx
    rcases hx with hx | hx
    · exact (h.removed x hx).1
    · exact (h.ring x [] hx).next_nil

theorem takeOut (h : S.Holds L) (hnext : L.next n = some n) (hfree : S.Free n) :
    (S.takeOut n).Holds L := by
  refine ⟨h.ring, h.apart, ?_⟩
  intro x hx
  rcases Set.mem_insert_iff.mp hx with rfl | hx
  · exact ⟨hnext, hfree⟩
  · exact h.removed x hx

section
variable [DecidableEq α]

theorem drop (h : S.Holds L) (n : α) : (S.drop n).Holds L := by
  refine ⟨fun s xs hs => h.ring s xs (drop_list_eq_some hs).2, ?_, ?_⟩
  · intro s xs t ys x hs hx ht hy
    exact h.apart s xs t ys x (drop_list_eq_some hs).2 hx (drop_list_eq_some ht).2 hy
  · intro x hx
    obtain ⟨hnext, hfree⟩ := h.removed x hx.1
    exact ⟨hnext, fun s xs hs => hfree s xs (drop_list_eq_some hs).2⟩

/-- **One ring changes.**  Its nodes are nodes of the old ring or free, and no node outside of both is
written. -/
theorem set (h : S.Holds L) (hring : Circular L' s xs)
    (hmem : ∀ x ∈ s :: xs, ∀ t ys, S.list t = some ys → x ∈ t :: ys → t = s)
    (hoff : ∀ x ∈ s :: xs, x ∉ S.removed)
    (hframe : ∀ x, x ∉ s :: xs → (∀ ys, S.list s = some ys → x ∉ s :: ys) → L'.EqAt L x) :
    (S.set s xs).Holds L' := by
  have hcase : ∀ t ys, (S.set s xs).list t = some ys →
      t = s ∧ ys = xs ∨ t ≠ s ∧ S.list t = some ys := by
    intro t ys ht
    by_cases e : t = s
    · rw [e, set_list_self] at ht
      exact Or.inl ⟨e, (Option.some.inj ht).symm⟩
    · exact Or.inr ⟨e, (set_list e).symm.trans ht⟩
  refine ⟨?_, ?_, ?_⟩
  · intro t ys ht
    rcases hcase t ys ht with ⟨rfl, rfl⟩ | ⟨hts, ht⟩
    · exact hring
    · apply (h.ring t ys ht).congr
      intro x hx
      exact hframe x (fun hm => hts (hmem x hm t ys ht hx))
        (fun zs hs hm => hts (h.apart t ys s zs x ht hx hs hm))
  · intro t ys u zs x ht hx hu hz
    rcases hcase t ys ht with ⟨et, ey⟩ | ⟨_, ht'⟩
    · rw [et, ey] at hx
      rcases hcase u zs hu with ⟨eu, _⟩ | ⟨_, hu'⟩
      · rw [et, eu]
      · rw [et, hmem x hx u zs hu' hz]
    · rcases hcase u zs hu with ⟨eu, ez⟩ | ⟨_, hu'⟩
      · rw [eu, ez] at hz
        rw [eu, hmem x hz t ys ht' hx]
      · exact h.apart t ys u zs x ht' hx hu' hz
  · intro x hx
    obtain ⟨hnext, hfree⟩ := h.removed x hx
    have hxs : x ∉ s :: xs := fun hm => hoff x hm hx
    refine ⟨(hframe x hxs (hfree s)).1.trans hnext, ?_⟩
    intro t ys ht
    rcases hcase t ys ht with ⟨rfl, rfl⟩ | ⟨_, ht⟩
    · exact hxs
    · exact hfree t ys ht

theorem set_insert {zs : List α} (h : S.Holds L) (hs : S.list s = some zs) (hn : S.Free n)
    (hoff : n ∉ S.removed) (hring : Circular L' s xs) (hxs : ∀ x ∈ s :: xs, x = n ∨ x ∈ s :: zs)
    (hframe : ∀ x, x ∉ n :: s :: zs → L'.EqAt L x) (hin : n ∈ xs) : (S.set s xs).Holds L' := by
  apply h.set hring
  · intro x hx t ys ht hy
    rcases hxs x hx with rfl | hx
    · exact absurd hy (hn t ys ht)
    · exact h.apart t ys s zs x ht hy hs hx
  · intro x hx hr
    rcases hxs x hx with rfl | hx
    · exact hoff hr
    · exact (h.removed x hr).2 s zs hs hx
  · intro x hx hx'
    apply hframe x
    rw [List.mem_cons, not_or]
    exact ⟨fun e => hx (e ▸ List.mem_cons_of_mem _ hin), hx' zs hs⟩

theorem set_subset {zs : List α} (h : S.Holds L) (hs : S.list s = some zs)
    (hring : Circular L' s xs) (hxs : ∀ x ∈ s :: xs, x ∈ s :: zs)
    (hframe : ∀ x, x ∉ s :: zs → L'.EqAt L x) : (S.set s xs).Holds L' := by
  apply h.set hring
  · exact fun x hx t ys ht hy => h.apart t ys s zs x ht hy hs (hxs x hx)
  · exact fun x hx hr => (h.removed x hr).2 s zs hs (hxs x hx)
  · exact fun x _ hx' => hframe x (hx' zs hs)

end

end Holds

end ListFamily
