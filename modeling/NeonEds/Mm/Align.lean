import Mathlib.Data.Nat.Bitwise
import Mathlib.Tactic.Common

/-!
# Rounding up (include/base/bitop.h)

`NALIGN_UP` adds and masks; a mask of high ones is a division and a multiplication.
-/

namespace NeonEds

theorem and_mask_eq {x n k : ℕ} (hx : x < 2 ^ n) (hk : k ≤ n) :
    x &&& (2 ^ n - 1 - (2 ^ k - 1)) = x / 2 ^ k * 2 ^ k := by
  have hpow := Nat.pow_le_pow_right (n := 2) (by decide) hk
  have hpos := Nat.two_pow_pos k
  have hmask : 2 ^ n - 1 - (2 ^ k - 1) = 2 ^ n - ((2 ^ k - 1) + 1) := by omega
  rw [hmask, ← Nat.shiftRight_eq_div_pow, ← Nat.shiftLeft_eq]
  apply Nat.eq_of_testBit_eq
  intro i
  rw [Nat.testBit_and, Nat.testBit_two_pow_sub_succ (by omega), Nat.testBit_two_pow_sub_one,
    Nat.testBit_shiftLeft, Nat.testBit_shiftRight]
  by_cases hik : i < k
  · simp [hik]
  · by_cases hin : i < n
    · have hle : k ≤ i := Nat.le_of_not_lt hik
      simp [hik, hin, hle, Nat.add_sub_cancel' hle]
    · have hzero : x.testBit i = false :=
        Nat.testBit_lt_two_pow (lt_of_lt_of_le hx (Nat.pow_le_pow_right (by decide) (by omega)))
      simp [hik, Nat.add_sub_cancel' (Nat.le_of_not_lt hik), hzero]

/-- `n` rounded up to a multiple of `k` -/
def roundUp (n k : ℕ) : ℕ := (n + k - 1) / k * k

theorem roundUp_ok {n k : ℕ} (h1 : 1 ≤ n) (hk : 0 < k) :
    n ≤ roundUp n k ∧ k ∣ roundUp n k ∧ k ≤ roundUp n k := by
  have hdiv := Nat.div_add_mod (n + k - 1) k
  have hmod := Nat.mod_lt (n + k - 1) hk
  have hge : 1 ≤ (n + k - 1) / k := Nat.div_pos (by omega) hk
  have hmul : 1 * k ≤ (n + k - 1) / k * k := Nat.mul_le_mul_right _ hge
  rw [Nat.mul_comm] at hdiv
  unfold roundUp
  exact ⟨by omega, Nat.dvd_mul_left .., by omega⟩

end NeonEds
