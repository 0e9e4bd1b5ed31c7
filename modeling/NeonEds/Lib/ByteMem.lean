import Mathlib.Data.BitVec
import Mathlib.Logic.Function.Basic
import NeonEds.Lib.Exec

/-!
# Byte memory

`loadBytes m a n` is the number in the `n` bytes from `a` on, the least significant byte first,
`storeBytes m a n v` writes it.  A `Storage` is the memory of an object at the addresses from `lo` up to
`hi`; an access outside is the fault `bounds`.

* `loadBytes_storeBytes`           what was written is read;
* `loadBytes_storeBytes_of_apart`  a write does not touch the other bytes;
* `loadInt_storeInt`               the same for signed numbers that fit in.
-/

namespace Exec

section
variable {m m' : ℕ → BitVec 8} {a b n k : ℕ}

def loadBytes (m : ℕ → BitVec 8) (a : ℕ) : ℕ → ℕ
  | 0 => 0
  | n + 1 => (m a).toNat + 256 * loadBytes m (a + 1) n

def storeBytes (m : ℕ → BitVec 8) (a : ℕ) : ℕ → ℕ → ℕ → BitVec 8
  | 0, _ => m
  | n + 1, v => Function.update (storeBytes m (a + 1) n (v / 256)) a (BitVec.ofNat 8 v)

theorem loadBytes_congr (h : ∀ x, a ≤ x → x < a + n → m' x = m x) :
    loadBytes m' a n = loadBytes m a n := by
  induction n generalizing a with
  | zero => rfl
  | succ n ih =>
    rw [loadBytes, loadBytes, h a (le_refl a) (by omega)]
    rw [ih (fun x h1 h2 => h x (by omega) (by omega))]

theorem storeBytes_of_apart {x : ℕ} (h : x < a ∨ a + n ≤ x) (v : ℕ) :
    storeBytes m a n v x = m x := by
  induction n generalizing a v with
  | zero => rfl
  | succ n ih =>
    rw [storeBytes, Function.update_of_ne (by omega)]
    exact ih (by omega) (v / 256)

theorem loadBytes_storeBytes (m : ℕ → BitVec 8) (a n v : ℕ) :
    loadBytes (storeBytes m a n v) a n = v % 256 ^ n := by
  induction n generalizing a v with
  | zero => rw [pow_zero, Nat.mod_one, loadBytes]
  | succ n ih =>
    have htail : loadBytes (storeBytes m a (n + 1) v) (a + 1) n
        = loadBytes (storeBytes m (a + 1) n (v / 256)) (a + 1) n := by
      apply loadBytes_congr
      intro x h1 _
      exact Function.update_of_ne (by omega) ..
    have hmod : v % (256 * 256 ^ n) = v % 256 + 256 * (v / 256 % 256 ^ n) := Nat.mod_mul
    rw [loadBytes, htail, ih, storeBytes, Function.update_self, BitVec.toNat_ofNat]
    show v % 256 + 256 * (v / 256 % 256 ^ n) = v % 256 ^ (n + 1)
    rw [pow_succ', hmod]

theorem loadBytes_storeBytes_of_apart (h : b + k ≤ a ∨ a + n ≤ b) (v : ℕ) :
    loadBytes (storeBytes m a n v) b k = loadBytes m b k := by
  apply loadBytes_congr
  intro x h1 h2
  exact storeBytes_of_apart (by omega) v

theorem byte_eq_of_loadBytes_eq (h : loadBytes m' a n = loadBytes m a n) {x : ℕ} (h1 : a ≤ x)
    (h2 : x < a + n) : m' x = m x := by
  induction n generalizing a with
  | zero => omega
  | succ n ih =>
    rw [loadBytes, loadBytes] at h
    have hlt := (m a).isLt
    have hlt' := (m' a).isLt
    by_cases hx : x = a
    · rw [hx]
      apply BitVec.eq_of_toNat_eq
      omega
    · exact ih (a := a + 1) (by omega) (by omega) (by omega)

theorem loadBytes_zero (a n : ℕ) : loadBytes (fun _ => 0#8) a n = 0 := by
  induction n generalizing a with
  | zero => rfl
  | succ n ih =>
    rw [loadBytes, ih]
    rfl

theorem storeBytes_zero (a n : ℕ) : storeBytes (fun _ => 0#8) a n 0 = fun _ => 0#8 := by
  induction n generalizing a with
  | zero => rfl
  | succ n ih =>
    rw [storeBytes, Nat.zero_div, ih]
    exact Function.update_eq_self a _

/-! ## signed numbers -/

@[irreducible] def loadInt (m : ℕ → BitVec 8) (a n : ℕ) : ℤ := (loadBytes m a n : ℤ).bmod (256 ^ n)

def storeInt (m : ℕ → BitVec 8) (a n : ℕ) (z : ℤ) : ℕ → BitVec 8 :=
  storeBytes m a n (z % 256 ^ n).toNat

theorem loadInt_congr (h : ∀ x, a ≤ x → x < a + n → m' x = m x) : loadInt m' a n = loadInt m a n := by
  unfold loadInt
  rw [loadBytes_congr h]

theorem loadInt_storeBytes_of_apart (h : b + k ≤ a ∨ a + n ≤ b) (v : ℕ) :
    loadInt (storeBytes m a n v) b k = loadInt m b k := by
  unfold loadInt
  rw [loadBytes_storeBytes_of_apart h]

theorem loadInt_storeInt (m : ℕ → BitVec 8) (a n : ℕ) {z : ℤ} (h : z.bmod (256 ^ n) = z) :
    loadInt (storeInt m a n z) a n = z := by
  have hpos : (0 : ℤ) < 256 ^ n := Int.pow_pos (by decide)
  have hnn := Int.emod_nonneg z (ne_of_gt hpos)
  unfold loadInt storeInt
  rw [loadBytes_storeBytes, Int.natCast_mod, Int.toNat_of_nonneg hnn]
  push_cast
  rw [Int.emod_emod, ← h]
  have hcast : ((256 : ℤ) ^ n) = ((256 ^ n : ℕ) : ℤ) := by push_cast; rfl
  rw [hcast, Int.emod_bmod, Int.bmod_bmod]

end

/-! ## the storage of an object -/

structure Storage where
  lo : ℕ
  hi : ℕ
  byte : ℕ → BitVec 8

namespace Storage

def load (st : Storage) (a n : ℕ) : Exec ℕ :=
  if st.lo ≤ a ∧ a + n ≤ st.hi then .ok (loadBytes st.byte a n) else .error .bounds

def store (st : Storage) (a n v : ℕ) : Exec Storage :=
  if st.lo ≤ a ∧ a + n ≤ st.hi then .ok { st with byte := storeBytes st.byte a n v }
  else .error .bounds

theorem load_eq_ok {st : Storage} {a n v : ℕ} (h : st.load a n = .ok v) :
    (st.lo ≤ a ∧ a + n ≤ st.hi) ∧ v = loadBytes st.byte a n := by
  unfold load at h
  split at h
  · exact ⟨‹_›, (Except.ok.inj h).symm⟩
  · cases h

theorem store_eq_ok {st st' : Storage} {a n v : ℕ} (h : st.store a n v = .ok st') :
    (st.lo ≤ a ∧ a + n ≤ st.hi) ∧ st' = { st with byte := storeBytes st.byte a n v } := by
  unfold store at h
  split at h
  · exact ⟨‹_›, (Except.ok.inj h).symm⟩
  · cases h

def loadInt (st : Storage) (a n : ℕ) : Exec ℤ :=
  if st.lo ≤ a ∧ a + n ≤ st.hi then .ok (Exec.loadInt st.byte a n) else .error .bounds

def storeInt (st : Storage) (a n : ℕ) (z : ℤ) : Exec Storage :=
  if st.lo ≤ a ∧ a + n ≤ st.hi then .ok { st with byte := Exec.storeInt st.byte a n z }
  else .error .bounds

end Storage

end Exec
