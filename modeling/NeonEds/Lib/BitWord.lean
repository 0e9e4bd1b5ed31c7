import Mathlib.Logic.Function.Basic
import Mathlib.Tactic.Common

/-!
# Machine words as sets of bit numbers

* `setWidth_bit`, `setWidth_not_bit`        one bit in a word of another width;
* `getLsbD_or_bit`, `getLsbD_and_not_bit`   setting and clearing one bit;
* `eq_zero_iff_getLsbD`                     a word is zero iff no bit is set;
* `log2_eq_of_highest`                      the logarithm of a word is its highest bit.
-/

namespace BitWord
variable {w : ℕ}

theorem getLsbD_bit {i : ℕ} (hi : i < w) (j : ℕ) : (1#w <<< i).getLsbD j = decide (j = i) := by
  rw [BitVec.getLsbD_shiftLeft, BitVec.getLsbD_one]
  by_cases h : j = i
  · subst h
    simp [hi]
    omega
  · by_cases hj : j < i
    · simp [h, hj]
    · have : ¬ j - i = 0 := by omega
      simp [h, this]

theorem setWidth_bit {i v : ℕ} (hi : i < w) (hv : i < v) : (1#w <<< i).setWidth v = 1#v <<< i := by
  apply BitVec.eq_of_getLsbD_eq
  intro j hj
  rw [BitVec.getLsbD_setWidth, getLsbD_bit hi, getLsbD_bit hv, decide_eq_true hj, Bool.true_and]

theorem setWidth_not_bit {i v : ℕ} (hi : i < w) (hv : i < v) (hvw : v ≤ w) :
    (~~~(1#w <<< i)).setWidth v = ~~~(1#v <<< i) := by
  apply BitVec.eq_of_getLsbD_eq
  intro j hj
  rw [BitVec.getLsbD_setWidth, BitVec.getLsbD_not, BitVec.getLsbD_not, getLsbD_bit hi,
    getLsbD_bit hv, decide_eq_true hj, decide_eq_true (show j < w by omega), Bool.true_and,
    Bool.true_and]

theorem getLsbD_or_bit (x : BitVec w) {i : ℕ} (hi : i < w) :
    (x ||| 1#w <<< i).getLsbD = Function.update x.getLsbD i true := by
  funext j
  rw [BitVec.getLsbD_or, getLsbD_bit hi]
  by_cases hj : j = i
  · rw [hj, Function.update_self, decide_eq_true rfl, Bool.or_true]
  · rw [Function.update_of_ne hj, decide_eq_false hj, Bool.or_false]

theorem getLsbD_and_not_bit (x : BitVec w) {i : ℕ} (hi : i < w) :
    (x &&& ~~~(1#w <<< i)).getLsbD = Function.update x.getLsbD i false := by
  funext j
  rw [BitVec.getLsbD_and, BitVec.getLsbD_not, getLsbD_bit hi]
  by_cases hj : j = i
  · rw [hj, Function.update_self, decide_eq_true rfl, Bool.not_true, Bool.and_false, Bool.and_false]
  · rw [Function.update_of_ne hj, decide_eq_false hj, Bool.not_false, Bool.and_true]
    by_cases hw : j < w
    · rw [decide_eq_true hw, Bool.and_true]
    · rw [BitVec.getLsbD_of_ge x j (by omega), Bool.false_and]

theorem eq_zero_iff_getLsbD (x : BitVec w) : x = 0#w ↔ ∀ i, x.getLsbD i = false := by
  constructor
  · rintro rfl i
    exact BitVec.getLsbD_zero
  · intro h
    apply BitVec.eq_of_getLsbD_eq
    intro i _
    rw [h i, BitVec.getLsbD_zero]

theorem toNat_pos {x : BitVec w} {i : ℕ} (h : x.getLsbD i = true) : 0 < x.toNat := by
  apply Nat.pos_of_ne_zero
  intro h0
  rw [BitVec.getLsbD, h0, Nat.zero_testBit] at h
  cases h

/-- **The logarithm of a word is its highest bit.** -/
theorem log2_eq_of_highest {x : BitVec w} {p : ℕ} (hp : x.getLsbD p = true)
    (hmax : ∀ q, x.getLsbD q = true → q ≤ p) : x.toNat.log2 = p := by
  have hne : x.toNat ≠ 0 := Nat.ne_of_gt (toNat_pos hp)
  have hle : x.toNat.log2 ≤ p := hmax _ (Nat.testBit_log2 hne)
  have hge : p ≤ x.toNat.log2 := (Nat.le_log2 hne).mpr (Nat.ge_two_pow_of_testBit hp)
  omega

end BitWord
