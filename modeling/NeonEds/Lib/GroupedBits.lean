import NeonEds.Lib.BitWord

/-!
# Sets of numbers in grouped words

A set of numbers in words of `m` bits, `k` numbers a word, and a word `group` that tells which words
are not zero.

* `GroupedBits.insert`, `GroupedBits.erase`   setting and clearing one bit, and the bit of its group;
* `GroupedBits.highest`                       the greatest number is read off two logarithms.
-/

/-- number `p` is bit `p % k` of word `p / k`, for the first `n` words -/
structure GroupedBits {m w : ℕ} (k n : ℕ) (word : ℕ → BitVec m) (group : BitVec w) (S : ℕ → Bool) :
    Prop where
  word : ∀ p, p / k < n → (word (p / k)).getLsbD (p % k) = S p
  group : ∀ g, group.getLsbD g = true ↔ ∃ p, p / k = g ∧ S p = true

namespace GroupedBits
variable {m w k n : ℕ} {word : ℕ → BitVec m} {group : BitVec w} {S : ℕ → Bool} {p : ℕ}

theorem bit_update (h : GroupedBits k n word group S) (hpn : p / k < n) (b : Bool) {q : ℕ}
    (hq : q / k = p / k) :
    Function.update (word (p / k)).getLsbD (p % k) b (q % k) = Function.update S p b q := by
  by_cases hqp : q = p
  · rw [hqp, Function.update_self, Function.update_self]
  · have hmod : q % k ≠ p % k := by
      intro hm
      apply hqp
      rw [← Nat.div_add_mod q k, hq, hm, Nat.div_add_mod]
    rw [Function.update_of_ne hqp, Function.update_of_ne hmod, ← hq]
    exact h.word q (hq ▸ hpn)

theorem word_update (h : GroupedBits k n word group S) (hpn : p / k < n) {b : Bool} {x : BitVec m}
    (hx : x.getLsbD = Function.update (word (p / k)).getLsbD (p % k) b) :
    ∀ q, q / k < n →
      (Function.update word (p / k) x (q / k)).getLsbD (q % k) = Function.update S p b q := by
  intro q hq
  by_cases hgq : q / k = p / k
  · rw [hgq, Function.update_self, hx]
    exact h.bit_update hpn b hgq
  · have hqp : q ≠ p := fun e => hgq (e ▸ rfl)
    rw [Function.update_of_ne hgq, Function.update_of_ne hqp]
    exact h.word q hq

/-- **A number comes into the set.** -/
theorem insert (h : GroupedBits k n word group S) (hpn : p / k < n) (hgw : p / k < w) {x : BitVec m}
    (hx : x.getLsbD = Function.update (word (p / k)).getLsbD (p % k) true) :
    GroupedBits k n (Function.update word (p / k) x) (group ||| 1#w <<< (p / k))
      (Function.update S p true) := by
  refine ⟨h.word_update hpn hx, fun g => ?_⟩
  rw [BitWord.getLsbD_or_bit _ hgw]
  by_cases hgp : g = p / k
  · rw [hgp, Function.update_self]
    exact iff_of_true rfl ⟨p, rfl, Function.update_self ..⟩
  · rw [Function.update_of_ne hgp, h.group]
    refine exists_congr fun q => and_congr_right fun hq => ?_
    rw [Function.update_of_ne (show q ≠ p from fun e => hgp (by rw [← hq, e]))]

theorem word_eq_zero_iff (h : GroupedBits k n word group S) (hk : 0 < k) (hm : m ≤ k)
    (hpn : p / k < n) {b : Bool} {x : BitVec m}
    (hx : x.getLsbD = Function.update (word (p / k)).getLsbD (p % k) b) :
    x = 0#m ↔ ¬ ∃ q, q / k = p / k ∧ Function.update S p b q = true := by
  have hbit : ∀ q, q / k = p / k → x.getLsbD (q % k) = Function.update S p b q := by
    intro q hq
    rw [hx]
    exact h.bit_update hpn b hq
  rw [BitWord.eq_zero_iff_getLsbD]
  constructor
  · intro hz ⟨q, hq, hS⟩
    rw [← hbit q hq, hz] at hS
    cases hS
  · intro hno i
    by_cases hi : i < k
    · have h1 : (k * (p / k) + i) / k = p / k := by
        rw [Nat.mul_add_div hk, Nat.div_eq_of_lt hi, Nat.add_zero]
      have h2 : (k * (p / k) + i) % k = i := by rw [Nat.mul_add_mod, Nat.mod_eq_of_lt hi]
      have hS := hbit _ h1
      rw [h2] at hS
      rw [hS, ← Bool.not_eq_true]
      exact fun hS => hno ⟨_, h1, hS⟩
    · exact BitVec.getLsbD_of_ge _ _ (by omega)

/-- **A number leaves the set**, and its group if it was the last one there. -/
theorem erase (h : GroupedBits k n word group S) (hk : 0 < k) (hm : m ≤ k) (hpn : p / k < n)
    (hgw : p / k < w) {x : BitVec m}
    (hx : x.getLsbD = Function.update (word (p / k)).getLsbD (p % k) false) :
    GroupedBits k n (Function.update word (p / k) x)
      (if x = 0#m then group &&& ~~~(1#w <<< (p / k)) else group) (Function.update S p false) := by
  have hzero := h.word_eq_zero_iff hk hm hpn hx
  refine ⟨h.word_update hpn hx, fun g => ?_⟩
  by_cases hgp : g = p / k
  · subst hgp
    by_cases hz : x = 0#m
    · rw [if_pos hz, BitWord.getLsbD_and_not_bit _ hgw, Function.update_self]
      exact iff_of_false Bool.false_ne_true (hzero.mp hz)
    · obtain ⟨q, hq, hS⟩ := not_not.mp (fun hn => hz (hzero.mpr hn))
      have hqp : q ≠ p := by
        rintro rfl
        rw [Function.update_self] at hS
        cases hS
      have hSq := hS
      rw [Function.update_of_ne hqp] at hSq
      rw [if_neg hz]
      exact iff_of_true ((h.group _).mpr ⟨q, hq, hSq⟩) ⟨q, hq, hS⟩
  · have hkeep : (if x = 0#m then group &&& ~~~(1#w <<< (p / k)) else group).getLsbD g
        = group.getLsbD g := by
      split
      · rw [BitWord.getLsbD_and_not_bit _ hgw, Function.update_of_ne hgp]
      · rfl
    rw [hkeep, h.group]
    refine exists_congr fun q => and_congr_right fun hq => ?_
    rw [Function.update_of_ne (show q ≠ p from fun e => hgp (by rw [← hq, e]))]

/-- **The greatest number**: its group is the highest bit of `group`, its place the highest bit of the
word. -/
theorem highest (h : GroupedBits k n word group S) (hk : 0 < k) (hm : m ≤ k) (hpn : p / k < n)
    (hS : S p = true) (hmax : ∀ q, S q = true → q ≤ p) :
    (group.getLsbD (p / k) = true ∧ ∀ g, group.getLsbD g = true → g ≤ p / k) ∧
    (word (p / k)).getLsbD (p % k) = true ∧
    ∀ i, (word (p / k)).getLsbD i = true → i ≤ p % k := by
  refine ⟨⟨(h.group _).mpr ⟨p, rfl, hS⟩, fun g hg => ?_⟩, (h.word p hpn).trans hS, fun i hi => ?_⟩
  · obtain ⟨q, hq, hSq⟩ := (h.group g).mp hg
    rw [← hq]
    exact Nat.div_le_div_right (hmax q hSq)
  · have him : i < k := by
      by_contra hge
      rw [BitVec.getLsbD_of_ge _ _ (by omega)] at hi
      cases hi
    have h1 : (k * (p / k) + i) / k = p / k := by
      rw [Nat.mul_add_div hk, Nat.div_eq_of_lt him, Nat.add_zero]
    have h2 : (k * (p / k) + i) % k = i := by rw [Nat.mul_add_mod, Nat.mod_eq_of_lt him]
    have hq := h.word (k * (p / k) + i) (by rw [h1]; exact hpn)
    rw [h1, h2, hi] at hq
    have hle := hmax _ hq.symm
    have hdm := Nat.div_add_mod p k
    omega

end GroupedBits
