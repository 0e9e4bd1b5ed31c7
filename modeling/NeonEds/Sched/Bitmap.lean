import Mathlib.Logic.Function.Basic
import NeonEds.Lib.GroupedBits
import NeonEds.Lib.Exec

/-!
# The priority bitmap (source/sched.c)

One bit for each bucket that holds a thread.  With more buckets than a machine word has bits the
words are grouped: bit `g` of `group` is set iff word `g` is not zero.

`bitmapSetBy`, `bitmapClearBy` and `bitmapGetHighestBy` are the functions over those of a port, `bitmapSet`
and so on are those over a port whose `ncore_exp2` shifts a one of the width of its registers.
`Marks cfg bm S`: the bitmap `bm` holds the set of buckets `S`.

* `bitmapInit_marks`, `bitmapSet_marks`, `bitmapClear_marks`   what the functions do to the set;
* `bitmapGetHighest_eq`                                        the greatest element of the set.
-/

namespace NeonEds
open Exec

/-- the configuration (`base/config.h`) and what the scheduler takes from the port -/
structure SchedConfig where
  /-- `CONFIG_PRIORITY_LEVELS` -/
  levels : ℕ
  /-- `CONFIG_PRIORITY_BUCKETS` -/
  buckets : ℕ
  /-- `CONFIG_DEBUG == 1` -/
  debug : Bool
  /-- `CONFIG_API_VALIDATION == 1` -/
  apiValidation : Bool
  /-- `NCPU_DATA_WIDTH`, the width of `ncore_reg` -/
  dataWidth : ℕ
  /-- the width of `uint_fast8_t` -/
  fast8 : ℕ
  /-- the width of `uint_fast32_t` -/
  fast32 : ℕ
  ncoreLog2 : ℕ → ℕ

/-- `NREQUIRE` and `NASSERT` do something -/
def SchedConfig.asserts (cfg : SchedConfig) : Bool := cfg.debug && cfg.apiValidation

def nlog2_8 (x : ℕ) : ℕ :=
  if x < 2 then 0 else if x < 4 then 1 else if x < 8 then 2 else if x < 16 then 3
  else if x < 32 then 4 else if x < 64 then 5 else if x < 128 then 6 else 7

def ndivisionRoundup (numerator denominator : ℕ) : ℕ :=
  (numerator + denominator - 1) / denominator

/-- the dimension of `bit` -/
def SchedConfig.words (cfg : SchedConfig) : ℕ := ndivisionRoundup cfg.buckets cfg.dataWidth

/-- `struct prio_bitmap` for registers of `w` bits -/
structure PrioBitmap (w : ℕ) where
  group : BitVec w
  bit : ℕ → BitVec 32

/-- a shift by the width of the register or more is undefined -/
def ncoreExp2 (w value : ℕ) : Exec (BitVec w) :=
  if value < w then .ok (1#w <<< value) else .error .bounds

/-- the number of a bucket in its group: the mask is `~0u >> (sizeof(priority) * 8u - ...)` -/
def SchedConfig.bitIndex (cfg : SchedConfig) (priority : ℕ) : ℕ :=
  priority &&& (((2 ^ 32 - 1) % 2 ^ cfg.fast8) >>> (cfg.fast8 - nlog2_8 cfg.dataWidth))

def SchedConfig.bitGroup (cfg : SchedConfig) (priority : ℕ) : ℕ :=
  priority >>> nlog2_8 cfg.dataWidth

section
variable {w : ℕ}

/-- `while (group-- != 0u) { bit[group] = 0u; }` -/
def clearWords : ℕ → (ℕ → BitVec 32) → ℕ → BitVec 32
  | 0, bit => bit
  | group + 1, bit => clearWords group (Function.update bit group 0#32)

def bitmapInit (cfg : SchedConfig) (bm : PrioBitmap w) : PrioBitmap w :=
  if cfg.buckets > cfg.dataWidth then
    { group := 0#w, bit := clearWords (cfg.words % 2 ^ cfg.fast8) bm.bit }
  else { bm with bit := Function.update bm.bit 0 0#32 }

section
variable (exp2 : ℕ → Exec (BitVec w)) (log2 : BitVec w → Exec ℕ)

/-- `bitmap_set` over `ncore_exp2` of a port -/
def bitmapSetBy (cfg : SchedConfig) (bm : PrioBitmap w) (priority : ℕ) : Exec (PrioBitmap w) :=
  if cfg.buckets > cfg.dataWidth then do
    let index := cfg.bitIndex priority
    let group := cfg.bitGroup priority
    let groupBit ← exp2 group
    let indexBit ← exp2 index
    if group < cfg.words then
      return { group := bm.group ||| groupBit
               bit := Function.update bm.bit group (bm.bit group ||| indexBit.setWidth 32) }
    else .error .bounds
  else do
    let bit ← exp2 priority
    return { bm with bit := Function.update bm.bit 0 (bm.bit 0 ||| bit.setWidth 32) }

def bitmapClearBy (cfg : SchedConfig) (bm : PrioBitmap w) (priority : ℕ) : Exec (PrioBitmap w) :=
  if cfg.buckets > cfg.dataWidth then do
    let index := cfg.bitIndex priority
    let group := cfg.bitGroup priority
    let indexBit ← exp2 index
    let groupBit ← exp2 group
    if group < cfg.words then
      let word := bm.bit group &&& (~~~indexBit).setWidth 32
      return { group := if word = 0#32 then bm.group &&& ~~~groupBit else bm.group
               bit := Function.update bm.bit group word }
    else .error .bounds
  else do
    let bit ← exp2 priority
    return { bm with bit := Function.update bm.bit 0 (bm.bit 0 &&& (~~~bit).setWidth 32) }

/-- `bitmap_get_highest` over `ncore_log2` of a port -/
def bitmapGetHighestBy (cfg : SchedConfig) (bm : PrioBitmap w) : Exec ℕ :=
  if cfg.buckets > cfg.dataWidth then do
    let group ← log2 bm.group
    if group < cfg.words then
      let index ← log2 ((bm.bit group).setWidth w)
      return (group <<< nlog2_8 cfg.dataWidth) ||| index
    else .error .bounds
  else log2 ((bm.bit 0).setWidth w)

end

def bitmapSet (cfg : SchedConfig) (bm : PrioBitmap w) (priority : ℕ) : Exec (PrioBitmap w) :=
  bitmapSetBy (ncoreExp2 w) cfg bm priority

def bitmapClear (cfg : SchedConfig) (bm : PrioBitmap w) (priority : ℕ) : Exec (PrioBitmap w) :=
  bitmapClearBy (ncoreExp2 w) cfg bm priority

def bitmapGetHighest (cfg : SchedConfig) (bm : PrioBitmap w) : Exec ℕ :=
  bitmapGetHighestBy (fun x => .ok (cfg.ncoreLog2 x.toNat)) cfg bm

end

/-! ## a port with 32-bit registers -/

/-- what is assumed of the port: registers of 32 bits and a logarithm that is right for words that
are not zero -/
structure Port32 (cfg : SchedConfig) : Prop where
  dataWidth : cfg.dataWidth = 32
  fast8_ge : 8 ≤ cfg.fast8
  fast8_le : cfg.fast8 ≤ 32
  log2 : ∀ x, 0 < x → x < 2 ^ 32 → cfg.ncoreLog2 x = x.log2

/-- the bitmap holds the set of buckets `S`; a bucket is the image of an 8-bit priority -/
structure Marks (cfg : SchedConfig) (bm : PrioBitmap 32) (S : ℕ → Bool) : Prop where
  lt : ∀ p, S p = true → p < cfg.buckets ∧ p < 2 ^ 8
  flat : cfg.buckets ≤ 32 → ∀ p, (bm.bit 0).getLsbD p = S p
  word : 32 < cfg.buckets → ∀ p, p / 32 < cfg.words → (bm.bit (p / 32)).getLsbD (p % 32) = S p
  group : 32 < cfg.buckets → ∀ g, bm.group.getLsbD g = true ↔ ∃ p, p / 32 = g ∧ S p = true

section
variable {cfg : SchedConfig} (hp : Port32 cfg)
include hp

theorem bitIndex_eq (p : ℕ) : cfg.bitIndex p = p % 32 := by
  have hmask : ∀ f < 33, 8 ≤ f → ((2 ^ 32 - 1) % 2 ^ f) >>> (f - 5) = 2 ^ 5 - 1 := by decide
  have h5 : nlog2_8 cfg.dataWidth = 5 := by rw [hp.dataWidth]; rfl
  have hle := hp.fast8_le
  unfold SchedConfig.bitIndex
  rw [h5, hmask cfg.fast8 (by omega) hp.fast8_ge, Nat.and_two_pow_sub_one_eq_mod]

theorem bitGroup_eq (p : ℕ) : cfg.bitGroup p = p / 32 := by
  have h5 : nlog2_8 cfg.dataWidth = 5 := by rw [hp.dataWidth]; rfl
  unfold SchedConfig.bitGroup
  rw [h5, Nat.shiftRight_eq_div_pow]

theorem words_eq : cfg.words = (cfg.buckets + 31) / 32 := by
  unfold SchedConfig.words ndivisionRoundup
  rw [hp.dataWidth]
  rfl

theorem group_lt_words {p : ℕ} (h : p < cfg.buckets) : p / 32 < cfg.words := by
  rw [words_eq hp]
  omega

omit hp in
theorem clearWords_eq (n : ℕ) (bit : ℕ → BitVec 32) {g : ℕ} (hg : g < n) :
    clearWords n bit g = 0#32 := by
  have hkeep : ∀ (n : ℕ) (bit : ℕ → BitVec 32) (g : ℕ), n ≤ g → clearWords n bit g = bit g := by
    intro n
    induction n with
    | zero => exact fun _ _ _ => rfl
    | succ n ih =>
      intro bit g hg
      rw [clearWords, ih _ _ (by omega), Function.update_of_ne (by omega)]
  induction n generalizing bit with
  | zero => exact absurd hg (Nat.not_lt_zero g)
  | succ n ih =>
    rw [clearWords]
    by_cases h : g < n
    · exact ih _ h
    · have hgn : g = n := by omega
      rw [hgn, hkeep n _ n (Nat.le_refl n), Function.update_self]

theorem bitmapInit_marks (hB : cfg.buckets < 2 ^ cfg.fast8) (bm : PrioBitmap 32) :
    Marks cfg (bitmapInit cfg bm) (fun _ => false) := by
  unfold bitmapInit
  rw [hp.dataWidth]
  by_cases hg : cfg.buckets > 32
  · rw [if_pos hg]
    have hw : cfg.words ≤ cfg.buckets := by
      rw [words_eq hp]
      omega
    rw [Nat.mod_eq_of_lt (show cfg.words < 2 ^ cfg.fast8 from Nat.lt_of_le_of_lt hw hB)]
    refine ⟨fun p h => absurd h Bool.false_ne_true, fun h => absurd h (by omega), fun _ p hlt => ?_, fun _ g => ?_⟩
    · show (clearWords cfg.words bm.bit (p / 32)).getLsbD _ = false
      rw [clearWords_eq _ _ hlt, BitVec.getLsbD_zero]
    · show (0#32).getLsbD g = true ↔ _
      rw [BitVec.getLsbD_zero]
      exact ⟨fun h => absurd h Bool.false_ne_true, fun ⟨_, _, h⟩ => absurd h Bool.false_ne_true⟩
  · rw [if_neg hg]
    refine ⟨fun p h => absurd h Bool.false_ne_true, fun _ p => ?_, fun h => absurd h (by omega),
      fun h => absurd h (by omega)⟩
    show (Function.update bm.bit 0 0#32 0).getLsbD p = false
    rw [Function.update_self, BitVec.getLsbD_zero]

/-! ### a bucket comes into the set or leaves it -/

namespace Marks
variable {bm : PrioBitmap 32} {S : ℕ → Bool} {p : ℕ}

omit hp in
theorem lt_update (h : Marks cfg bm S) (hpB : p < cfg.buckets) (hp8 : p < 2 ^ 8) (b : Bool) :
    ∀ q, Function.update S p b q = true → q < cfg.buckets ∧ q < 2 ^ 8 := by
  intro q hq
  by_cases hqp : q = p
  · rw [hqp]
    exact ⟨hpB, hp8⟩
  · rw [Function.update_of_ne hqp] at hq
    exact h.lt q hq

omit hp in
theorem grouped (h : Marks cfg bm S) (hg : 32 < cfg.buckets) :
    GroupedBits 32 cfg.words bm.bit bm.group S := ⟨h.word hg, h.group hg⟩

omit hp in
theorem flat_update (h : Marks cfg bm S) (hle : cfg.buckets ≤ 32) {b : Bool} {x : BitVec 32}
    (hx : x.getLsbD = Function.update (bm.bit 0).getLsbD p b) :
    ∀ q, (Function.update bm.bit 0 x 0).getLsbD q = Function.update S p b q := by
  intro q
  rw [Function.update_self, hx, funext (h.flat hle)]

end Marks

theorem bitmapSet_marks {bm : PrioBitmap 32} {S : ℕ → Bool} (h : Marks cfg bm S) {p : ℕ}
    (hpB : p < cfg.buckets) (hp8 : p < 2 ^ 8) :
    ∃ bm', bitmapSet cfg bm p = .ok bm' ∧ Marks cfg bm' (Function.update S p true) := by
  have hlt := h.lt_update hpB hp8 true
  unfold bitmapSet bitmapSetBy
  rw [hp.dataWidth, bitIndex_eq hp, bitGroup_eq hp]
  by_cases hg : cfg.buckets > 32
  · have hgw : p / 32 < 32 := by omega
    have hiw : p % 32 < 32 := by omega
    rw [if_pos hg]
    simp only [ncoreExp2, if_pos hgw, if_pos hiw, ok_bind, if_pos (group_lt_words hp hpB),
      BitVec.setWidth_eq, pure_eq]
    have hword := BitWord.getLsbD_or_bit (bm.bit (p / 32)) hiw
    have hnew := (h.grouped hg).insert (group_lt_words hp hpB) hgw hword
    exact ⟨_, rfl, hlt, fun hle => absurd hle (by omega), fun _ => hnew.word, fun _ => hnew.group⟩
  · have hpw : p < 32 := by omega
    rw [if_neg hg]
    simp only [ncoreExp2, if_pos hpw, ok_bind, BitVec.setWidth_eq, pure_eq]
    have hword := BitWord.getLsbD_or_bit (bm.bit 0) hpw
    exact ⟨_, rfl, hlt, fun hle => h.flat_update hle hword, fun h => absurd h (by omega),
      fun h => absurd h (by omega)⟩

theorem bitmapClear_marks {bm : PrioBitmap 32} {S : ℕ → Bool} (h : Marks cfg bm S) {p : ℕ}
    (hpB : p < cfg.buckets) (hp8 : p < 2 ^ 8) :
    ∃ bm', bitmapClear cfg bm p = .ok bm' ∧ Marks cfg bm' (Function.update S p false) := by
  have hlt := h.lt_update hpB hp8 false
  unfold bitmapClear bitmapClearBy
  rw [hp.dataWidth, bitIndex_eq hp, bitGroup_eq hp]
  by_cases hg : cfg.buckets > 32
  · have hgw : p / 32 < 32 := by omega
    have hiw : p % 32 < 32 := by omega
    rw [if_pos hg]
    simp only [ncoreExp2, if_pos hgw, if_pos hiw, ok_bind, if_pos (group_lt_words hp hpB),
      BitVec.setWidth_eq, pure_eq]
    have hword := BitWord.getLsbD_and_not_bit (bm.bit (p / 32)) hiw
    have hnew := (h.grouped hg).erase (by decide) (Nat.le_refl 32) (group_lt_words hp hpB) hgw hword
    exact ⟨_, rfl, hlt, fun hle => absurd hle (by omega), fun _ => hnew.word, fun _ => hnew.group⟩
  · have hpw : p < 32 := by omega
    rw [if_neg hg]
    simp only [ncoreExp2, if_pos hpw, ok_bind, BitVec.setWidth_eq, pure_eq]
    have hword := BitWord.getLsbD_and_not_bit (bm.bit 0) hpw
    exact ⟨_, rfl, hlt, fun hle => h.flat_update hle hword, fun h => absurd h (by omega),
      fun h => absurd h (by omega)⟩

/-- **The highest bit is the greatest bucket in the set.** -/
theorem bitmapGetHighest_eq {bm : PrioBitmap 32} {S : ℕ → Bool} (h : Marks cfg bm S) {p : ℕ}
    (hS : S p = true) (hmax : ∀ q, S q = true → q ≤ p) : bitmapGetHighest cfg bm = .ok p := by
  obtain ⟨hpB, hp8⟩ := h.lt p hS
  have hlog : ∀ (x : BitVec 32) (i : ℕ), x.getLsbD i = true →
      (∀ j, x.getLsbD j = true → j ≤ i) → cfg.ncoreLog2 x.toNat = i := by
    intro x i hi hj
    rw [hp.log2 _ (BitWord.toNat_pos hi) x.isLt]
    exact BitWord.log2_eq_of_highest hi hj
  unfold bitmapGetHighest bitmapGetHighestBy
  rw [hp.dataWidth]
  by_cases hg : cfg.buckets > 32
  · rw [if_pos hg]
    have hw := group_lt_words hp hpB
    obtain ⟨⟨hgp, hgmax⟩, hip, himax⟩ := (h.grouped hg).highest (by decide) (Nat.le_refl 32) hw hS hmax
    have hgroup : cfg.ncoreLog2 bm.group.toNat = p / 32 := hlog _ _ hgp hgmax
    have hword : cfg.ncoreLog2 (bm.bit (p / 32)).toNat = p % 32 := hlog _ _ hip himax
    have h5 : nlog2_8 32 = 5 := rfl
    simp only [hgroup, ok_bind, if_pos hw, BitVec.setWidth_eq, hword, h5, pure_eq]
    rw [Nat.shiftLeft_eq, Nat.mul_comm, ← Nat.two_pow_add_eq_or_of_lt (by omega)]
    congr 1
    omega
  · rw [if_neg hg]
    have hflat := h.flat (by omega)
    rw [BitVec.setWidth_eq]
    exact congrArg Except.ok
      (hlog (bm.bit 0) p ((hflat p).trans hS) fun q hq => hmax q ((hflat q).symm.trans hq))

end

end NeonEds
