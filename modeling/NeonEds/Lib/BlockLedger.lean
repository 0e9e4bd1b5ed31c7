import NeonEds.Lib.Exec

/-!
# Blocks of memory: what is taken and what is given back

A `BlockLedger` knows the live blocks, their owners `M` and sizes, and all blocks that were ever taken
and given back.  A block is used or given back only while it is live, so a run without a fault uses no
block after it was given back and gives none back twice.

* `Balanced l l'`         between two ledgers the blocks that were taken were given back, each once;
* `Balanced.give`         the rule for a block around a balanced part;
* `isLive_take_of_ne`     a block stays live when another one is taken.
-/

namespace NeonEds
open Exec

structure BlockLedger (M : Type) where
  /-- owner and size of the live blocks -/
  live : ℕ → Option (M × ℕ)
  /-- the last one first -/
  taken : List (M × ℕ)
  /-- the last one first -/
  given : List (M × ℕ)

namespace BlockLedger
variable {M : Type}

/-- the owner `m` hands out a block of `n` bytes at `a` -/
def take (l : BlockLedger M) (m : M) (a n : ℕ) : BlockLedger M :=
  { l with live := Function.update l.live a (some (m, n)), taken := (m, a) :: l.taken }

/-- the block at `a` is given back to `m` -/
def give [DecidableEq M] (l : BlockLedger M) (m : M) (a : ℕ) : Exec (BlockLedger M) :=
  if (l.live a).map Prod.fst = some m then
    .ok { l with live := Function.update l.live a none, given := (m, a) :: l.given }
  else .error .freed

/-- the first `n` bytes of the block at `a` are used -/
def use (l : BlockLedger M) (a n : ℕ) : Exec PUnit :=
  match l.live a with
  | some (_, size) => if n ≤ size then .ok ⟨⟩ else .error .bounds
  | none => .error .freed

/-- a live block of `m` at `a` with at least `n` bytes -/
def IsLive (l : BlockLedger M) (m : M) (a n : ℕ) : Prop :=
  ∃ size, l.live a = some (m, size) ∧ n ≤ size

/-- what was taken between the two ledgers was given back, each block once -/
structure Balanced (l l' : BlockLedger M) : Prop where
  live : l'.live = l.live
  once : ∃ taken given, l'.taken = taken ++ l.taken ∧ l'.given = given ++ l.given ∧ given.Perm taken

section
variable {l l' : BlockLedger M} {m : M} {a b n k : ℕ}

theorem use_of_isLive (h : l.IsLive m a n) : l.use a n = .ok ⟨⟩ := by
  obtain ⟨size, hlive, hn⟩ := h
  unfold use
  rw [hlive]
  exact if_pos hn

theorem isLive_take (h : n ≤ k) : (l.take m a k).IsLive m a n := ⟨k, Function.update_self .., h⟩

theorem isLive_take_of_ne {m' : M} (h : l.IsLive m a n) (hne : a ≠ b) :
    (l.take m' b k).IsLive m a n := by
  obtain ⟨size, hlive, hn⟩ := h
  exact ⟨size, (Function.update_of_ne hne ..).trans hlive, hn⟩

theorem isLive_congr (h : l'.live = l.live) : l'.IsLive m a n ↔ l.IsLive m a n := by
  unfold IsLive
  rw [h]

theorem live_take_of_ne {m' : M} (hne : a ≠ b) : (l.take m' b k).live a = l.live a :=
  Function.update_of_ne hne ..

variable [DecidableEq M]

theorem give_of_isLive (h : l.IsLive m a n) : l.give m a
    = .ok { l with live := Function.update l.live a none, given := (m, a) :: l.given } := by
  obtain ⟨size, hlive, _⟩ := h
  refine if_pos ?_
  rw [hlive]
  rfl

/-- **A block around a balanced part**: it is given back after everything that was taken later. -/
theorem Balanced.give (hfresh : l.live a = none) (h : Balanced (l.take m a n) l') :
    ∃ l'', l'.give m a = .ok l'' ∧ Balanced l l'' := by
  obtain ⟨taken, given, htaken, hgiven, hperm⟩ := h.once
  have hself : l'.live a = some (m, n) := by
    rw [h.live]
    exact Function.update_self ..
  have hlive : l'.IsLive m a n := ⟨n, hself, Nat.le_refl n⟩
  refine ⟨_, give_of_isLive hlive, ?_, taken ++ [(m, a)], (m, a) :: given, ?_, ?_, ?_⟩
  · show Function.update l'.live a none = l.live
    rw [h.live, take, Function.update_idem, ← hfresh, Function.update_eq_self]
  · show l'.taken = _
    rw [htaken, take, List.append_assoc, List.singleton_append]
  · show (m, a) :: l'.given = _
    rw [hgiven, take, List.cons_append]
  · exact (List.Perm.cons _ hperm).trans (List.perm_append_singleton _ _).symm

omit [DecidableEq M] in
theorem Balanced.refl (l : BlockLedger M) : Balanced l l :=
  ⟨rfl, [], [], rfl, rfl, List.Perm.refl _⟩

end

end BlockLedger

end NeonEds
