import Mathlib.Algebra.Order.Floor.Div
import Mathlib.GroupTheory.GroupAction.Ring
import Mathlib.Tactic.Common

/-!
# From time to ticks (include/timer/timer.h)

The macros multiply in `uint32_t`, add the rounding term in `unsigned long`, which has `ulong` bits,
and divide.  `NoWrap` says that neither the product nor the sum goes round.

* `ntimerTicks_iff`     a conversion that rounds up is exact iff nothing goes round;
* `exactTicks_iff`      the three macros;
* `ntimer_convert_iff`  when they are exact, where they are monotone, and when they agree.
-/

namespace NeonEds

/-- `NTIMER_SEC` -/
def ntimerSec (freq time : ℕ) : ℕ := time % 2 ^ 32 * (freq % 2 ^ 32) % 2 ^ 32

/-- the conversion from a time given in `unit`s a second -/
def ntimerTicks (ulong unit freq time : ℕ) : ℕ :=
  (time % 2 ^ 32 * (freq % 2 ^ 32) % 2 ^ 32 + (unit - 1)) % 2 ^ ulong / unit % 2 ^ 32

/-- `NTIMER_MS` -/
def ntimerMs (ulong freq time : ℕ) : ℕ := ntimerTicks ulong 1000 freq time

/-- `NTIMER_US` -/
def ntimerUs (ulong freq time : ℕ) : ℕ := ntimerTicks ulong 1000000 freq time

/-- the product fits in `uint32_t`, with the rounding term in `unsigned long` -/
def NoWrap (ulong unit freq time : ℕ) : Prop :=
  time * freq < 2 ^ 32 ∧ time * freq + (unit - 1) < 2 ^ ulong

/-- what the macros are for, at one time: the exact number of ticks, rounded up, where it fits -/
structure ExactTicks (ulong freq time : ℕ) : Prop where
  sec : time * freq < 2 ^ 32 → ntimerSec freq time = time * freq
  ms : (time * freq) ⌈/⌉ 1000 < 2 ^ 32 → ntimerMs ulong freq time = (time * freq) ⌈/⌉ 1000
  us : (time * freq) ⌈/⌉ 1000000 < 2 ^ 32 → ntimerUs ulong freq time = (time * freq) ⌈/⌉ 1000000

variable {ulong unit freq time : ℕ}

theorem ticks_product (freq time : ℕ) :
    time % 2 ^ 32 * (freq % 2 ^ 32) % 2 ^ 32 = time * freq % 2 ^ 32 := (Nat.mul_mod ..).symm

theorem ntimerSec_eq (h : time * freq < 2 ^ 32) : ntimerSec freq time = time * freq := by
  rw [ntimerSec, ticks_product, Nat.mod_eq_of_lt h]

theorem ntimerTicks_of_noWrap (hw : NoWrap ulong unit freq time) (hunit : 1 ≤ unit)
    (hfit : (time * freq) ⌈/⌉ unit < 2 ^ 32) :
    ntimerTicks ulong unit freq time = (time * freq) ⌈/⌉ unit := by
  rw [Nat.ceilDiv_eq_add_pred_div] at hfit ⊢
  rw [ntimerTicks, ticks_product, Nat.mod_eq_of_lt hw.1, Nat.mod_eq_of_lt hw.2,
    ← Nat.add_sub_assoc hunit, Nat.mod_eq_of_lt hfit]

/-- a product that goes round is too small by at least one tick -/
theorem ntimerTicks_lt_of_wrap (hunit : 1 ≤ unit) (hle : unit ≤ 2 ^ 32) (h : 2 ^ 32 ≤ time * freq) :
    ntimerTicks ulong unit freq time < (time * freq) ⌈/⌉ unit := by
  have hmod := Nat.mod_add_div (time * freq) (2 ^ 32)
  have hq : 1 ≤ time * freq / 2 ^ 32 := (Nat.one_le_div_iff (by omega)).mpr h
  have hbig : unit + (time * freq % 2 ^ 32 + (unit - 1)) ≤ time * freq + unit - 1 := by omega
  rw [ntimerTicks, ticks_product, Nat.ceilDiv_eq_add_pred_div]
  calc (time * freq % 2 ^ 32 + (unit - 1)) % 2 ^ ulong / unit % 2 ^ 32
      ≤ (time * freq % 2 ^ 32 + (unit - 1)) / unit :=
        (Nat.mod_le ..).trans (Nat.div_le_div_right (Nat.mod_le ..))
    _ < (time * freq % 2 ^ 32 + (unit - 1)) / unit + 1 := Nat.lt_succ_self _
    _ = (unit + (time * freq % 2 ^ 32 + (unit - 1))) / unit := (Nat.add_div_left _ hunit).symm
    _ ≤ (time * freq + unit - 1) / unit := Nat.div_le_div_right hbig

/-- a sum that goes round leaves no tick at all -/
theorem ntimerTicks_zero_of_wrap (hulong : 32 ≤ ulong) (hunit : 1 ≤ unit) (hle : unit ≤ 2 ^ 32)
    (h : time * freq < 2 ^ 32) (hsum : 2 ^ ulong ≤ time * freq + (unit - 1)) :
    ntimerTicks ulong unit freq time = 0 ∧ 0 < (time * freq) ⌈/⌉ unit := by
  have hpow : 2 ^ 32 ≤ 2 ^ ulong := Nat.pow_le_pow_right (by decide) hulong
  have hrest : time * freq + (unit - 1) - 2 ^ ulong < unit := by omega
  constructor
  · rw [ntimerTicks, ticks_product, Nat.mod_eq_of_lt h, Nat.mod_eq_sub_mod hsum,
      Nat.mod_eq_of_lt (hrest.trans_le (hle.trans hpow)), Nat.div_eq_of_lt hrest, Nat.zero_mod]
  · rw [Nat.ceilDiv_eq_add_pred_div]
    exact Nat.div_pos (by omega) hunit

/-- **A conversion that rounds up is exact iff nothing goes round.** -/
theorem ntimerTicks_iff (hulong : 32 ≤ ulong) (hunit : 1 ≤ unit) (hle : unit ≤ 2 ^ 32)
    (hfit : (time * freq) ⌈/⌉ unit < 2 ^ 32) :
    ntimerTicks ulong unit freq time = (time * freq) ⌈/⌉ unit ↔ NoWrap ulong unit freq time := by
  constructor
  · intro heq
    have hprod : time * freq < 2 ^ 32 := by
      by_contra hge
      have hlt : ntimerTicks ulong unit freq time < _ := ntimerTicks_lt_of_wrap hunit hle (Nat.le_of_not_lt hge)
      omega
    refine ⟨hprod, ?_⟩
    by_contra hge
    obtain ⟨hzero, hpos⟩ := ntimerTicks_zero_of_wrap hulong hunit hle hprod (Nat.le_of_not_lt hge)
    omega
  · exact fun hw => ntimerTicks_of_noWrap hw hunit hfit

theorem exactTicks_iff (hulong : 32 ≤ ulong) : ExactTicks ulong freq time ↔
    ((time * freq) ⌈/⌉ 1000 < 2 ^ 32 → NoWrap ulong 1000 freq time) ∧
    ((time * freq) ⌈/⌉ 1000000 < 2 ^ 32 → NoWrap ulong 1000000 freq time) := by
  constructor
  · intro h
    exact ⟨fun hfit => (ntimerTicks_iff hulong (by decide) (by decide) hfit).mp (h.ms hfit),
      fun hfit => (ntimerTicks_iff hulong (by decide) (by decide) hfit).mp (h.us hfit)⟩
  · intro ⟨hms, hus⟩
    exact ⟨ntimerSec_eq,
      fun hfit => (ntimerTicks_iff hulong (by decide) (by decide) hfit).mpr (hms hfit),
      fun hfit => (ntimerTicks_iff hulong (by decide) (by decide) hfit).mpr (hus hfit)⟩

theorem NoWrap.ticks_eq (hw : NoWrap ulong unit freq time) (hunit : 1 ≤ unit) :
    ntimerTicks ulong unit freq time = (time * freq) ⌈/⌉ unit := by
  apply ntimerTicks_of_noWrap hw hunit
  rw [Nat.ceilDiv_eq_add_pred_div, Nat.add_sub_assoc hunit]
  have hprod := hw.1
  exact (Nat.div_lt_iff_lt_mul hunit).mpr (by omega)

theorem NoWrap.mono {t t' : ℕ} (h : NoWrap ulong unit freq t') (htt : t ≤ t') :
    NoWrap ulong unit freq t := by
  have hle : t * freq ≤ t' * freq := Nat.mul_le_mul_right freq htt
  exact ⟨hle.trans_lt h.1, (Nat.add_le_add_right hle _).trans_lt h.2⟩

theorem ntimerTicks_mono {t t' : ℕ} (hunit : 1 ≤ unit) (h : NoWrap ulong unit freq t') (htt : t ≤ t') :
    ntimerTicks ulong unit freq t ≤ ntimerTicks ulong unit freq t' := by
  rw [h.ticks_eq hunit, (h.mono htt).ticks_eq hunit]
  have hle : t * freq ≤ t' * freq := Nat.mul_le_mul_right freq htt
  exact Nat.div_le_div_right (by omega)

/-- whole seconds, given in a smaller unit -/
theorem ntimerTicks_seconds_iff {s : ℕ} (hulong : 32 ≤ ulong) (hunit : 1 ≤ unit) (hle : unit ≤ 2 ^ 32)
    (hs : s * freq < 2 ^ 32) : ntimerSec freq s = ntimerTicks ulong unit freq (unit * s) ↔
      NoWrap ulong unit freq (unit * s) := by
  have hceil : (unit * s * freq) ⌈/⌉ unit = s * freq := by
    rw [Nat.ceilDiv_eq_add_pred_div, Nat.mul_assoc, Nat.add_sub_assoc hunit, Nat.mul_add_div hunit,
      Nat.div_eq_of_lt (Nat.sub_lt hunit Nat.one_pos), Nat.add_zero]
  have hiff : ntimerTicks ulong unit freq (unit * s) = (unit * s * freq) ⌈/⌉ unit ↔
      NoWrap ulong unit freq (unit * s) := ntimerTicks_iff hulong hunit hle (hceil.symm ▸ hs)
  rw [hceil] at hiff
  rw [ntimerSec_eq hs, ← hiff]
  exact eq_comm

/-- **The conversions**: exact at a time iff nothing goes round there; monotone up to any such time;
and whole seconds have the same number of ticks in a smaller unit iff nothing goes round. -/
theorem ntimer_convert_iff (ulong freq : ℕ) (hulong : 32 ≤ ulong) :
    (∀ time, ExactTicks ulong freq time ↔
      ((time * freq) ⌈/⌉ 1000 < 2 ^ 32 → NoWrap ulong 1000 freq time) ∧
      ((time * freq) ⌈/⌉ 1000000 < 2 ^ 32 → NoWrap ulong 1000000 freq time)) ∧
    (∀ t t', t ≤ t' → (t' * freq < 2 ^ 32 → ntimerSec freq t ≤ ntimerSec freq t') ∧
      (NoWrap ulong 1000 freq t' → ntimerMs ulong freq t ≤ ntimerMs ulong freq t') ∧
      (NoWrap ulong 1000000 freq t' → ntimerUs ulong freq t ≤ ntimerUs ulong freq t')) ∧
    (∀ s, s * freq < 2 ^ 32 →
      (ntimerSec freq s = ntimerMs ulong freq (1000 * s) ↔ NoWrap ulong 1000 freq (1000 * s)) ∧
      (ntimerSec freq s = ntimerUs ulong freq (1000000 * s) ↔
        NoWrap ulong 1000000 freq (1000000 * s))) := by
  refine ⟨fun time => exactTicks_iff hulong, fun t t' htt => ⟨fun hs => ?_, ?_, ?_⟩, fun s hs => ⟨?_, ?_⟩⟩
  · have hle : t * freq ≤ t' * freq := Nat.mul_le_mul_right freq htt
    rw [ntimerSec_eq hs, ntimerSec_eq (hle.trans_lt hs)]
    exact hle
  · exact fun hw => ntimerTicks_mono (by decide) hw htt
  · exact fun hw => ntimerTicks_mono (by decide) hw htt
  · exact ntimerTicks_seconds_iff hulong (by decide) (by decide) hs
  · exact ntimerTicks_seconds_iff hulong (by decide) (by decide) hs

/-- 20 ms at 100 Hz are two ticks -/
theorem ntimer_convert_hundred : ExactTicks 32 100 20 :=
  ((ntimer_convert_iff 32 100 (by decide)).1 20).mpr
    ⟨fun _ => ⟨by decide, by decide⟩, fun _ => ⟨by decide, by decide⟩⟩

/-- 5000 s in milliseconds at 1 kHz: the product is more than `2 ^ 32` -/
theorem ntimer_convert_wraps : (5000000 * 1000) ⌈/⌉ 1000 = 5000000 ∧
    ntimerMs 32 1000 5000000 = 705033 ∧ ntimerMs 64 1000 5000000 = 705033 ∧
    ¬ ExactTicks 32 1000 5000000 ∧ ¬ ExactTicks 64 1000 5000000 := by
  have hexact : (5000000 * 1000) ⌈/⌉ 1000 = 5000000 := by decide
  have h32 : ntimerMs 32 1000 5000000 = 705033 := by decide
  have h64 : ntimerMs 64 1000 5000000 = 705033 := by decide
  refine ⟨hexact, h32, h64, fun h => ?_, fun h => ?_⟩
  · have := h.ms (by rw [hexact]; decide)
    omega
  · have := h.ms (by rw [hexact]; decide)
    omega

end NeonEds
