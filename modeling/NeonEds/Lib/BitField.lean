import Mathlib.Tactic.Ring
import NeonEds.Lib.BitWord

/-!
# A field of bits in a machine word

`mask w pos n` are the `n` bits from `pos` on.  `get` reads the field, `set` writes a number into it,
`copy` takes it from another word.

* `getLsbD_set`, `getLsbD_copy`   the bits outside the field stay as they are;
* `get_set`                       what was written is read;
* `copy_set`                      the field is restored from a word in which it was saved.
-/

namespace BitField
variable {w : ℕ}

def mask (w pos n : ℕ) : BitVec w := BitVec.ofNat w (2 ^ n - 1) <<< pos

def get (pos n : ℕ) (x : BitVec w) : ℕ := ((x &&& mask w pos n) >>> pos).toNat

def set (pos n : ℕ) (x : BitVec w) (v : ℕ) : BitVec w :=
  (x &&& ~~~mask w pos n) ||| (BitVec.ofNat w v <<< pos)

def copy (pos n : ℕ) (x y : BitVec w) : BitVec w := (x &&& ~~~mask w pos n) ||| (y &&& mask w pos n)

variable {pos n : ℕ}

theorem getLsbD_shift {v : ℕ} {j : ℕ} (hj : j < w) :
    (BitVec.ofNat w v <<< pos).getLsbD j = (decide (pos ≤ j) && v.testBit (j - pos)) := by
  rw [BitVec.getLsbD_shiftLeft, BitVec.getLsbD_ofNat, decide_eq_true hj, Bool.true_and]
  by_cases hp : pos ≤ j
  · rw [decide_eq_true hp, decide_eq_false (Nat.not_lt_of_le hp),
      decide_eq_true (show j - pos < w by omega)]
    rfl
  · rw [decide_eq_false hp, decide_eq_true (Nat.lt_of_not_le hp)]
    rfl

theorem getLsbD_mask {j : ℕ} (hj : j < w) :
    (mask w pos n).getLsbD j = decide (pos ≤ j ∧ j < pos + n) := by
  rw [mask, getLsbD_shift hj, Nat.testBit_two_pow_sub_one, ← Bool.decide_and]
  apply decide_eq_decide.mpr
  omega

theorem getLsbD_copy (x y : BitVec w) {j : ℕ} (hj : j < w) : (copy pos n x y).getLsbD j
    = if pos ≤ j ∧ j < pos + n then y.getLsbD j else x.getLsbD j := by
  rw [copy, BitVec.getLsbD_or, BitVec.getLsbD_and, BitVec.getLsbD_and, BitVec.getLsbD_not,
    getLsbD_mask hj, decide_eq_true hj]
  split
  · rename_i hin
    rw [decide_eq_true hin, Bool.not_true, Bool.and_false, Bool.and_false, Bool.false_or,
      Bool.and_true]
  · rename_i hout
    rw [decide_eq_false hout, Bool.not_false, Bool.and_true, Bool.and_true, Bool.and_false,
      Bool.or_false]

theorem getLsbD_set (x : BitVec w) {v : ℕ} (hv : v < 2 ^ n) {j : ℕ} (hj : j < w) :
    (set pos n x v).getLsbD j
      = if pos ≤ j ∧ j < pos + n then v.testBit (j - pos) else x.getLsbD j := by
  rw [set, BitVec.getLsbD_or, BitVec.getLsbD_and, BitVec.getLsbD_not, getLsbD_mask hj,
    getLsbD_shift hj, decide_eq_true hj]
  split
  · rename_i hin
    rw [decide_eq_true hin, decide_eq_true hin.1, Bool.not_true, Bool.and_false, Bool.and_false,
      Bool.false_or, Bool.true_and]
  · rename_i hout
    have hzero : (decide (pos ≤ j) && v.testBit (j - pos)) = false := by
      by_cases hp : pos ≤ j
      · rw [Nat.testBit_lt_two_pow, Bool.and_false]
        exact Nat.lt_of_lt_of_le hv (Nat.pow_le_pow_right (by decide) (by omega))
      · rw [decide_eq_false hp, Bool.false_and]
    rw [decide_eq_false hout, hzero, Bool.not_false, Bool.and_true, Bool.and_true, Bool.or_false]

theorem get_set (x : BitVec w) {v : ℕ} (hv : v < 2 ^ n) (hw : pos + n ≤ w) :
    get pos n (set pos n x v) = v := by
  apply Nat.eq_of_testBit_eq
  intro i
  have hbit : (get pos n (set pos n x v)).testBit i
      = ((set pos n x v &&& mask w pos n) >>> pos).getLsbD i := rfl
  rw [hbit, BitVec.getLsbD_ushiftRight, BitVec.getLsbD_and]
  by_cases hi : i < n
  · rw [getLsbD_set x hv (by omega), getLsbD_mask (by omega), if_pos ⟨by omega, by omega⟩,
      decide_eq_true ⟨by omega, by omega⟩, Bool.and_true, Nat.add_sub_cancel_left]
  · have hsmall : v.testBit i = false :=
      Nat.testBit_lt_two_pow (Nat.lt_of_lt_of_le hv (Nat.pow_le_pow_right (by decide) (by omega)))
    rw [hsmall]
    by_cases hj : pos + i < w
    · rw [getLsbD_mask hj, decide_eq_false (by omega), Bool.and_false]
    · rw [BitVec.getLsbD_of_ge _ _ (Nat.le_of_not_lt hj), Bool.false_and]

theorem set_set (x : BitVec w) {u v : ℕ} (hu : u < 2 ^ n) (hv : v < 2 ^ n) :
    set pos n (set pos n x u) v = set pos n x v := by
  apply BitVec.eq_of_getLsbD_eq
  intro j hj
  rw [getLsbD_set _ hv hj, getLsbD_set _ hv hj, getLsbD_set _ hu hj]
  split <;> rfl

theorem copy_self (x : BitVec w) : copy pos n x x = x := by
  apply BitVec.eq_of_getLsbD_eq
  intro j hj
  rw [getLsbD_copy _ _ hj, ite_self]

/-- **A field that was saved is restored.** -/
theorem copy_set (x : BitVec w) {v : ℕ} (hv : v < 2 ^ n) : copy pos n (set pos n x v) x = x := by
  apply BitVec.eq_of_getLsbD_eq
  intro j hj
  rw [getLsbD_copy _ _ hj, getLsbD_set _ hv hj]
  split <;> rfl

end BitField
