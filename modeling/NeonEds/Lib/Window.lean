import Mathlib.Data.List.Range
import Mathlib.Data.Nat.ModEq
import Mathlib.Logic.Function.Basic

/-!
# A window on a circular buffer

`window size buf tail n`: the `n` elements of a buffer of `size` cells from the cell `tail` on, going
round at the end.  What a double-ended queue does to its buffer, as lists:

* `window_push_back`    a write behind the window makes it longer at its end;
* `window_push_front`   a write in front of the window makes it longer at its front;
* `window_pop`          the first element and the rest;
* `window_getLast`      the last element.
-/

variable {α : Type*} {size : ℕ} {buf : ℕ → α} {tail n : ℕ}

def window (size : ℕ) (buf : ℕ → α) (tail n : ℕ) : List α :=
  (List.range n).map fun i => buf ((tail + i) % size)

@[simp] theorem window_length : (window size buf tail n).length = n := by
  rw [window, List.length_map, List.length_range]

@[simp] theorem window_zero : window size buf tail 0 = [] := rfl

theorem window_index_ne {i j : ℕ} (hij : i < j) (hj : j < i + size) : i % size ≠ j % size := by
  intro h
  have hdvd : size ∣ j - i := (Nat.modEq_iff_dvd' (Nat.le_of_lt hij)).mp h
  have hle := Nat.le_of_dvd (by omega) hdvd
  omega

theorem window_push_back (h : n < size) (x : α) :
    window size (Function.update buf ((tail + n) % size) x) tail (n + 1)
      = window size buf tail n ++ [x] := by
  unfold window
  rw [List.range_succ, List.map_append, List.map_singleton, Function.update_self]
  congr 1
  apply List.map_congr_left
  intro i hi
  have hin := List.mem_range.mp hi
  rw [Function.update_of_ne (window_index_ne (by omega) (by omega))]

theorem window_push_front (h : n < size) (x : α) {t : ℕ} (ht : (t + 1) % size = tail % size) :
    window size (Function.update buf (t % size) x) t (n + 1) = x :: window size buf tail n := by
  unfold window
  rw [List.range_succ_eq_map, List.map_cons, List.map_map, Nat.add_zero, Function.update_self]
  congr 1
  apply List.map_congr_left
  intro i hi
  have hin := List.mem_range.mp hi
  have hne : t % size ≠ (t + (i + 1)) % size := window_index_ne (by omega) (by omega)
  have hidx : (t + (i + 1)) % size = (tail + i) % size := by
    rw [show t + (i + 1) = t + 1 + i by omega, Nat.add_mod, ht, ← Nat.add_mod]
  show Function.update buf (t % size) x ((t + (i + 1)) % size) = _
  rw [Function.update_of_ne hne.symm, hidx]

theorem window_pop {t : ℕ} (ht : t % size = (tail + 1) % size) :
    window size buf tail (n + 1) = buf (tail % size) :: window size buf t n := by
  unfold window
  rw [List.range_succ_eq_map, List.map_cons, List.map_map, Nat.add_zero]
  congr 1
  apply List.map_congr_left
  intro i _
  show buf ((tail + (i + 1)) % size) = _
  rw [show tail + (i + 1) = tail + 1 + i by omega, Nat.add_mod, ← ht, ← Nat.add_mod]

theorem window_getLast {t : ℕ} (ht : (t + 1) % size = (tail + (n + 1)) % size) :
    (window size buf tail (n + 1)).getLast? = some (buf (t % size)) := by
  unfold window
  have hmod : t ≡ tail + n [MOD size] := Nat.ModEq.add_right_cancel' 1 ht
  rw [List.range_succ, List.map_append, List.map_singleton, List.getLast?_concat, hmod]
