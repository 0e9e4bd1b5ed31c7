import NeonEds.Lib.BitField
import NeonEds.Port.CoreLock

/-!
# Critical sections of the PIC32 port (port/pic32-none-gcc/arch/p_core.h)

With a lock level below 255 `ncore_lock_enter` writes the code of the level into the field IPL of the
register `Status`, else it executes `di`; the lock object keeps what `Status` was before.
`ncore_lock_exit` writes the field back, or executes `ei` when the word in the lock object is not zero,
whatever its bit IE is.

* `iplMasked_iff`      with the field: a section blocks what was blocked before iff this was not more than
                       the lock level blocks;
* `ieMasked_iff`       with `di` and `ei`: the end of a section enables interrupts in the section around it;
* `pic32Locks_iff`     both, for every properly nested run.
-/

namespace NeonEds
namespace Pic32
open Stm32f4xx BitField

/-- the field IPL of `Status`, three bits whose place is given by the header of the device -/
structure IplField where
  position : ℕ
  position_pos : 0 < position
  position_le : position + 3 ≤ 32

/-- what the port keeps of the core, with the lock objects `ι` -/
structure CoreState (ι : Type) where
  /-- `Status` of coprocessor 0 -/
  status : BitVec 32
  level : ι → BitVec 32

/-- `NCORE_LOCK_TO_CODE` -/
def ncoreLockToCode (maxLevel : ℕ) : ℕ := maxLevel >>> 5

section
variable {ι : Type} [DecidableEq ι] (F : IplField)

def ncoreLockEnter (maxLevel : ℕ) (st : CoreState ι) (lock : ι) : CoreState ι :=
  if maxLevel ≠ 255 then
    { status := set F.position 3 st.status (ncoreLockToCode maxLevel)
      level := Function.update st.level lock st.status }
  else
    { status := st.status &&& ~~~(1#32 <<< 0)
      level := Function.update st.level lock st.status }

def ncoreLockExit (maxLevel : ℕ) (st : CoreState ι) (lock : ι) : CoreState ι :=
  if maxLevel ≠ 255 then { st with status := copy F.position 3 st.status (st.level lock) }
  else if st.level lock ≠ 0#32 then { st with status := st.status ||| 1#32 <<< 0 }
  else st

def runPicOp (maxLevel : ℕ) (st : CoreState ι) : LockOp ι → CoreState ι
  | .enter lock => ncoreLockEnter F maxLevel st lock
  | .exit lock => ncoreLockExit F maxLevel st lock

/-- the bit IE -/
def ie (status : BitVec 32) : Bool := status.getLsbD 0

/-- no interrupt of the priority `p` is taken -/
def Blocked (status : BitVec 32) (p : ℕ) : Prop :=
  ie status = true → p ≤ get F.position 3 status

/-- inside a section the priorities of the lock level are blocked, and what was blocked before, with the
level 255 all of them; outside `Status` is the original one -/
def Masked (maxLevel : ℕ) (status : BitVec 32) (st : CoreState ι) : List ι → Prop
  | [] => st.status = status
  | _ :: _ =>
    if maxLevel ≠ 255 then
      ∀ p, p ≤ ncoreLockToCode maxLevel ∨ Blocked F status p → Blocked F st.status p
    else ie st.status = false

/-- at every point of the run -/
def RunMasked (maxLevel : ℕ) (status : BitVec 32) : CoreState ι → List ι → List (LockOp ι) → Prop
  | _, _, [] => True
  | st, stack, op :: ops => Masked F maxLevel status (runPicOp F maxLevel st op) (op.stack stack) ∧
      RunMasked maxLevel status (runPicOp F maxLevel st op) (op.stack stack) ops

/-- no section is left -/
def NoExit : List (LockOp ι) → Prop
  | [] => True
  | .enter _ :: ops => NoExit ops
  | .exit _ :: _ => False

/-- the register and the lock objects are those of the open sections -/
def StatusKept (outer inner : BitVec 32) (st : CoreState ι) (stack : List ι) : Prop :=
  SavedWords outer inner st.status st.level stack

end

section
variable {ι : Type} [DecidableEq ι] {F : IplField} {maxLevel : ℕ} {outer inner : BitVec 32}
  {st : CoreState ι} {stack : List ι} {lock : ι}

/-! ## the field IPL -/

theorem ncoreLockToCode_lt (h : maxLevel < 255) : ncoreLockToCode maxLevel < 2 ^ 3 := by
  rw [ncoreLockToCode, Nat.shiftRight_eq_div_pow]
  omega

theorem statusKept_run (hlevel : maxLevel < 255) (h : StatusKept outer
      (set F.position 3 outer (ncoreLockToCode maxLevel)) st stack) {op : LockOp ι}
    {ops : List (LockOp ι)} (hn : Nested stack (op :: ops)) :
    StatusKept outer (set F.position 3 outer (ncoreLockToCode maxLevel)) (runPicOp F maxLevel st op)
      (op.stack stack) ∧ Nested (op.stack stack) ops := by
  have hcode := ncoreLockToCode_lt hlevel
  have hne : maxLevel ≠ 255 := Nat.ne_of_lt hlevel
  cases op with
  | enter lock =>
    refine ⟨?_, hn.2⟩
    show StatusKept outer _ (ncoreLockEnter F maxLevel st lock) (lock :: stack)
    have hinner : set F.position 3 st.status (ncoreLockToCode maxLevel)
        = set F.position 3 outer (ncoreLockToCode maxLevel) := by
      rw [h.current]
      split
      · rfl
      · exact set_set outer hcode hcode
    rw [ncoreLockEnter, if_pos hne, hinner]
    exact h.enter hn.1
  | exit lock' =>
    cases stack with
    | nil => exact hn.elim
    | cons lock stack =>
      obtain ⟨rfl, hn⟩ := hn
      obtain ⟨hstatus, hkept⟩ := h.exit
      refine ⟨?_, hn⟩
      show StatusKept outer _ (ncoreLockExit F maxLevel st lock) stack
      rw [ncoreLockExit, if_pos hne]
      refine ⟨?_, hkept.saved⟩
      show copy F.position 3 st.status (st.level lock) = _
      rw [hstatus, hkept.current]
      split
      · exact copy_set outer hcode
      · exact copy_self _

omit [DecidableEq ι] in
theorem masked_set_iff (hlevel : maxLevel < 255) (st : CoreState ι)
    (hst : st.status = set F.position 3 outer (ncoreLockToCode maxLevel)) (lock : ι) (stack : List ι) :
    Masked F maxLevel outer st (lock :: stack) ↔
      (ie outer = true → get F.position 3 outer ≤ ncoreLockToCode maxLevel) := by
  have hcode := ncoreLockToCode_lt hlevel
  have hpos := F.position_pos
  have hie : ie (set F.position 3 outer (ncoreLockToCode maxLevel)) = ie outer := by
    rw [ie, getLsbD_set outer hcode (by decide), if_neg (by omega)]
    rfl
  have hget := get_set outer hcode F.position_le
  rw [Masked, if_pos (Nat.ne_of_lt hlevel)]
  constructor
  · intro h hon
    have hall := h (get F.position 3 outer) (Or.inr fun _ => Nat.le_refl _)
    rw [Blocked, hst, hie, hget] at hall
    exact hall hon
  · intro h p hp hon
    rw [hst, hie] at hon
    rw [hst, hget]
    rcases hp with hp | hp
    · exact hp
    · exact Nat.le_trans (hp hon) (h hon)

theorem iplRun_iff (hlevel : maxLevel < 255) {ops : List (LockOp ι)} :
    ∀ {st : CoreState ι} {stack : List ι},
      StatusKept outer (set F.position 3 outer (ncoreLockToCode maxLevel)) st stack →
      Nested stack ops →
      ((ie outer = true → get F.position 3 outer ≤ ncoreLockToCode maxLevel) →
        RunMasked F maxLevel outer st stack ops) := by
  induction ops with
  | nil => exact fun _ _ _ => trivial
  | cons op ops ih =>
    intro st stack h hn hle
    obtain ⟨h', hn'⟩ := statusKept_run hlevel h hn
    refine ⟨?_, ih h' hn' hle⟩
    have hcur := h'.current
    cases hs : op.stack stack with
    | nil =>
      rw [hs] at hcur
      exact hcur
    | cons lock stack' =>
      rw [hs, if_neg (List.cons_ne_nil _ _)] at hcur
      exact (masked_set_iff hlevel _ hcur lock stack').mpr hle

/-- **With the field IPL.** -/
theorem iplMasked_iff (hlevel : maxLevel < 255) (st : CoreState ι) {ops : List (LockOp ι)}
    (hn : Nested [] ops) : RunMasked F maxLevel st.status st [] ops ↔
      ops = [] ∨ (ie st.status = true → get F.position 3 st.status ≤ ncoreLockToCode maxLevel) := by
  have h₀ : StatusKept st.status (set F.position 3 st.status (ncoreLockToCode maxLevel)) st [] :=
    .nil st.status st.level
  constructor
  · intro h
    cases ops with
    | nil => exact Or.inl rfl
    | cons op ops =>
      cases op with
      | exit lock => exact hn.elim
      | enter lock =>
        obtain ⟨h', _⟩ := statusKept_run hlevel h₀ hn
        exact Or.inr ((masked_set_iff hlevel _ (h'.current.trans (if_neg (List.cons_ne_nil _ _)))
          lock []).mp h.1)
  · rintro (rfl | hle)
    · trivial
    · exact iplRun_iff hlevel h₀ hn hle

/-! ## `di` and `ei` -/

theorem ie_disable (x : BitVec 32) : ie (x &&& ~~~(1#32 <<< 0)) = false := by
  rw [ie, BitWord.getLsbD_and_not_bit x (by decide), Function.update_self]

theorem ie_enable (x : BitVec 32) : ie (x ||| 1#32 <<< 0) = true := by
  rw [ie, BitWord.getLsbD_or_bit x (by decide), Function.update_self]

theorem disable_disable (x : BitVec 32) :
    x &&& ~~~(1#32 <<< 0) &&& ~~~(1#32 <<< 0) = x &&& ~~~(1#32 <<< 0) := by
  rw [BitVec.and_assoc, BitVec.and_self]

theorem enable_disable (x : BitVec 32) :
    (x &&& ~~~(1#32 <<< 0)) ||| 1#32 <<< 0 = x ↔ ie x = true := by
  constructor
  · intro h
    rw [← h]
    exact ie_enable _
  · intro h
    apply BitVec.eq_of_getLsbD_eq
    intro j hj
    rw [BitWord.getLsbD_or_bit _ (by decide), BitWord.getLsbD_and_not_bit x (by decide)]
    by_cases h0 : j = 0
    · rw [h0, Function.update_self]
      exact h.symm
    · rw [Function.update_of_ne h0, Function.update_of_ne h0]

theorem eq_zero_or_ie (h : outer &&& ~~~(1#32 <<< 0) = 0#32) : outer = 0#32 ∨ ie outer = true := by
  rw [or_iff_not_imp_right, Bool.not_eq_true]
  intro hie
  apply BitVec.eq_of_getLsbD_eq
  intro j hj
  have hbit : (outer &&& ~~~(1#32 <<< 0)).getLsbD j = false := by rw [h, BitVec.getLsbD_zero]
  rw [BitWord.getLsbD_and_not_bit outer (by decide)] at hbit
  rw [BitVec.getLsbD_zero]
  by_cases h0 : j = 0
  · rw [h0]
    exact hie
  · rwa [Function.update_of_ne h0] at hbit

theorem statusKept_di (h : StatusKept outer (outer &&& ~~~(1#32 <<< 0)) st stack) (hl : lock ∉ stack) :
    StatusKept outer (outer &&& ~~~(1#32 <<< 0)) (ncoreLockEnter F 255 st lock) (lock :: stack) := by
  rw [ncoreLockEnter, if_neg (not_not.mpr rfl)]
  have hcur := h.current
  have hinner : st.status &&& ~~~(1#32 <<< 0) = outer &&& ~~~(1#32 <<< 0) := by
    rw [hcur]
    split
    · rfl
    · exact disable_disable outer
  rw [hinner]
  exact h.enter hl

omit [DecidableEq ι] in
theorem outerExit (h : StatusKept outer (outer &&& ~~~(1#32 <<< 0)) st [lock]) :
    ((ncoreLockExit F 255 st lock).status = outer ↔
      outer &&& ~~~(1#32 <<< 0) = 0#32 ∨ ie outer = true) ∧
    (ncoreLockExit F 255 st lock).level = st.level := by
  obtain ⟨hstatus, hkept⟩ := h.exit
  have hlock := hkept.current
  rw [if_pos rfl] at hlock
  rw [ncoreLockExit, if_neg (not_not.mpr rfl), hlock]
  by_cases h0 : outer = 0#32
  · rw [if_neg (not_not.mpr h0)]
    refine ⟨?_, rfl⟩
    rw [hstatus, h0]
    exact iff_of_true rfl (Or.inl rfl)
  · rw [if_pos h0]
    refine ⟨?_, rfl⟩
    show st.status ||| 1#32 <<< 0 = outer ↔ _
    rw [hstatus, enable_disable]
    exact ⟨Or.inr, fun hor => hor.elim (fun hz => (eq_zero_or_ie hz).resolve_left h0) id⟩

omit [DecidableEq ι] in
/-- the end of a section in another one enables interrupts, unless `Status` has no other bit -/
theorem innerExit {a : ι} (h : StatusKept outer (outer &&& ~~~(1#32 <<< 0)) st (lock :: a :: stack)) :
    (ie (ncoreLockExit F 255 st lock).status = false ↔ outer &&& ~~~(1#32 <<< 0) = 0#32) ∧
    (outer &&& ~~~(1#32 <<< 0) = 0#32 → ncoreLockExit F 255 st lock = st) := by
  obtain ⟨hstatus, hkept⟩ := h.exit
  have hlock := hkept.current
  rw [if_neg (List.cons_ne_nil _ _)] at hlock
  rw [ncoreLockExit, if_neg (not_not.mpr rfl), hlock]
  by_cases h0 : outer &&& ~~~(1#32 <<< 0) = 0#32
  · rw [if_neg (not_not.mpr h0), hstatus]
    exact ⟨iff_of_true (ie_disable outer) h0, fun _ => rfl⟩
  · rw [if_pos h0]
    refine ⟨iff_of_false (fun hf => ?_) h0, fun hc => absurd hc h0⟩
    have hon := ie_enable st.status
    rw [show ie (st.status ||| 1#32 <<< 0) = false from hf] at hon
    cases hon

theorem ieRun_iff {ops : List (LockOp ι)} : ∀ {st : CoreState ι} {stack : List ι},
    StatusKept outer (outer &&& ~~~(1#32 <<< 0)) st stack → Nested stack ops →
    (RunMasked F 255 outer st stack ops ↔ outer &&& ~~~(1#32 <<< 0) = 0#32 ∨
      NoInnerExit stack.length ops ∧ (ie outer = true ∨ NoExit ops)) := by
  induction ops with
  | nil => exact fun _ _ => iff_of_true trivial (Or.inr ⟨trivial, Or.inr trivial⟩)
  | cons op ops ih =>
    intro st stack h hn
    cases op with
    | enter lock =>
      have h' := statusKept_di (F := F) h hn.1
      have hmasked : Masked F 255 outer (ncoreLockEnter F 255 st lock) (lock :: stack) := by
        rw [Masked, if_neg (not_not.mpr rfl), h'.current, if_neg (List.cons_ne_nil _ _)]
        exact ie_disable outer
      exact (and_iff_right hmasked).trans (ih h' hn.2)
    | exit lock' =>
      cases stack with
      | nil => exact hn.elim
      | cons lock stack =>
        obtain ⟨rfl, hn⟩ := hn
        cases stack with
        | nil =>
          obtain ⟨hout, hlevel⟩ := outerExit (F := F) h
          have hnext : ie outer = true ∨ outer &&& ~~~(1#32 <<< 0) = 0#32 →
              (RunMasked F 255 outer (ncoreLockExit F 255 st lock) [] ops ↔
                outer &&& ~~~(1#32 <<< 0) = 0#32 ∨
                  NoInnerExit 0 ops ∧ (ie outer = true ∨ NoExit ops)) :=
            fun hor => ih ⟨hout.mpr hor.symm, trivial⟩ hn
          constructor
          · intro ⟨hm, hrun⟩
            have hor := hout.mp hm
            rcases hor with hz | hon
            · exact Or.inl hz
            · exact ((hnext (Or.inl hon)).mp hrun).imp_right
                fun hno => ⟨⟨Nat.le_refl 1, hno.1⟩, Or.inl hon⟩
          · rintro (hz | ⟨⟨_, hno⟩, hon | hne⟩)
            · exact ⟨hout.mpr (Or.inl hz), (hnext (Or.inr hz)).mpr (Or.inl hz)⟩
            · exact ⟨hout.mpr (Or.inr hon), (hnext (Or.inl hon)).mpr (Or.inr ⟨hno, Or.inl hon⟩)⟩
            · exact hne.elim
        | cons a stack =>
          obtain ⟨hie, hsame⟩ := innerExit (F := F) h
          constructor
          · intro ⟨hm, _⟩
            rw [LockOp.stack, List.tail_cons, Masked, if_neg (not_not.mpr rfl)] at hm
            exact Or.inl (hie.mp hm)
          · rintro (hz | ⟨⟨hdepth, _⟩, _⟩)
            · have hst : runPicOp F 255 st (.exit lock) = st := hsame hz
              have hinner := h.exit.1
              refine ⟨?_, ?_⟩
              · rw [LockOp.stack, List.tail_cons, Masked, if_neg (not_not.mpr rfl)]
                exact hie.mpr hz
              · rw [hst]
                exact (ih ⟨hinner.trans (if_neg (List.cons_ne_nil _ _)).symm, h.exit.2.saved⟩ hn).mpr
                  (Or.inl hz)
            · rw [List.length_cons, List.length_cons] at hdepth
              omega

/-- **Critical sections of the PIC32 port.**  With the field IPL they are sound, nested or not, iff they
are not entered at a priority above the lock level.  With `di` and `ei` they are sound iff `Status` has no
other bit than IE, or no section is left inside another one and interrupts were enabled at first, or no
section is left at all. -/
theorem pic32Locks_iff (F : IplField) (maxLevel : ℕ) (hlevel : maxLevel ≤ 255) (st : CoreState ι)
    (ops : List (LockOp ι)) (hn : Nested [] ops) : RunMasked F maxLevel st.status st [] ops ↔
      if maxLevel ≠ 255 then
        ops = [] ∨ (ie st.status = true → get F.position 3 st.status ≤ ncoreLockToCode maxLevel)
      else st.status &&& ~~~(1#32 <<< 0) = 0#32 ∨
        NoInnerExit 0 ops ∧ (ie st.status = true ∨ NoExit ops) := by
  by_cases h255 : maxLevel = 255
  · rw [if_neg (not_not.mpr h255), h255]
    exact ieRun_iff ⟨rfl, trivial⟩ hn
  · rw [if_pos h255]
    exact iplMasked_iff (by omega) st hn

end

/-- two sections, one in the other, with the interrupt mask of the timer set: in the outer section
interrupts are enabled after the inner one -/
theorem pic32Locks_inner : Nested [] [.enter 0, .enter 1, .exit (1 : ℕ)] ∧
    ¬ RunMasked ⟨10, by decide, by decide⟩ 255 0x8001#32 ⟨0x8001#32, fun _ => 0#32⟩ []
      [.enter 0, .enter 1, .exit (1 : ℕ)] := by
  have hn : Nested [] [.enter 0, .enter 1, .exit (1 : ℕ)] := by simp [Nested]
  refine ⟨hn, fun h => ?_⟩
  have hiff := (pic32Locks_iff ⟨10, by decide, by decide⟩ 255 (Nat.le_refl 255)
    ⟨0x8001#32, fun _ => 0#32⟩ _ hn).mp h
  rw [if_neg (not_not.mpr rfl)] at hiff
  rcases hiff with hz | ⟨hno, _⟩
  · exact absurd hz (by decide)
  · exact absurd hno (by simp [NoInnerExit])

end Pic32
end NeonEds
