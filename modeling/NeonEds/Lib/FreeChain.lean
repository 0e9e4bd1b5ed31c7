import NeonEds.Lib.ByteMem

/-!
# A chain of free blocks in a byte memory

A free block holds in its first `ptr` bytes the address of the next one, the last one holds zero.
`Chain byte ptr a l`: from `a` on the chain runs through the blocks `l`.

* `Chain.congr`   the chain stays where the links are not written;
* `Chain.push`    a block comes to the front;
* `Linked`        the blocks that are reached from `a`, which are those of the chain.
-/

namespace Exec

def Chain (byte : ℕ → BitVec 8) (ptr : ℕ) : ℕ → List ℕ → Prop
  | a, [] => a = 0
  | a, b :: l => a = b ∧ b ≠ 0 ∧ Chain byte ptr (loadBytes byte b ptr) l

/-- the blocks that are reached from `a` -/
inductive Linked (byte : ℕ → BitVec 8) (ptr a : ℕ) : ℕ → Prop where
  | head : a ≠ 0 → Linked byte ptr a a
  | next {b : ℕ} : Linked byte ptr a b → loadBytes byte b ptr ≠ 0 →
      Linked byte ptr a (loadBytes byte b ptr)

section
variable {byte byte' : ℕ → BitVec 8} {ptr a b : ℕ} {l : List ℕ}

namespace Chain

theorem congr (h : Chain byte ptr a l)
    (hsame : ∀ c ∈ l, ∀ x, c ≤ x → x < c + ptr → byte' x = byte x) : Chain byte' ptr a l := by
  induction l generalizing a with
  | nil => exact h
  | cons c l ih =>
    obtain ⟨ha, hc, hrest⟩ := h
    refine ⟨ha, hc, ?_⟩
    rw [loadBytes_congr (hsame c List.mem_cons_self)]
    exact ih hrest fun d hd => hsame d (List.mem_cons_of_mem c hd)

theorem push (h : Chain byte ptr a l) (hb : b ≠ 0) (ha : a < 256 ^ ptr)
    (hapart : ∀ c ∈ l, c + ptr ≤ b ∨ b + ptr ≤ c) :
    Chain (storeBytes byte b ptr a) ptr b (b :: l) := by
  refine ⟨rfl, hb, ?_⟩
  rw [loadBytes_storeBytes, Nat.mod_eq_of_lt ha]
  apply h.congr
  intro c hc x h1 h2
  have hcb := hapart c hc
  exact storeBytes_of_apart (by omega) a

theorem next (h : Chain byte ptr a l) (hb : b ∈ l) :
    loadBytes byte b ptr = 0 ∨ loadBytes byte b ptr ∈ l := by
  induction l generalizing a with
  | nil => cases hb
  | cons c l ih =>
    obtain ⟨_, _, hrest⟩ := h
    rcases List.mem_cons.mp hb with hbc | hbl
    · rw [hbc]
      cases l with
      | nil => exact Or.inl hrest
      | cons d l =>
        rw [hrest.1]
        exact Or.inr (List.mem_cons_of_mem c List.mem_cons_self)
    · exact (ih hrest hbl).imp_right (List.mem_cons_of_mem c)

theorem mem_of_linked (h : Chain byte ptr a l) (hl : Linked byte ptr a b) : b ∈ l := by
  induction hl with
  | head ha =>
    cases l with
    | nil => exact absurd h ha
    | cons c l =>
      rw [h.1]
      exact List.mem_cons_self
  | next _ hne ih => exact (h.next ih).resolve_left hne

end Chain

end

end Exec
