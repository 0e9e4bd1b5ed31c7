import NeonEds.Lib.SavedWords

/-!
# Critical sections of the stm32f4xx port (port/stm32f4xx-none-gcc/arch/p_core.h)

`ncore_lock_enter` saves the interrupt mask in its lock object and sets one global flag;
`ncore_lock_exit` writes the mask back and clears the flag.  `ncore_is_lock_valid` reads the flag.

A run is a list of `LockOp`s; the stack holds the lock objects of the sections that are open.

* `maskSaved_enter`, `maskSaved_exit`: the masks nest as they should;
* `locksValid_iff`         the flag agrees with them iff no section is left inside another one;
* `neventRefUp_valid`      the check that comes after a nested section fails;
* `ncoreLocks_valid_iff`   all this for every run, and for the calls that `nepa_send_event` makes.
-/

namespace NeonEds
namespace Stm32f4xx

/-- what the port keeps of the core, with the lock objects `ι` -/
structure CoreState (ι : Type) where
  /-- `basepri`, or `primask` when `CONFIG_CORE_LOCK_MAX_LEVEL` is 255 -/
  mask : ℕ
  gCoreIsLocked : Bool
  /-- the register at `0xe000ed04` -/
  icsr : ℕ
  level : ι → ℕ

/-- the mask that a section writes: `NCORE_LOCK_TO_CODE(..) << NCORE_LOCK_LEVEL_BITS`, or 1 -/
def newMask (maxLevel : ℕ) : ℕ := if maxLevel ≠ 255 then ((255 - maxLevel) >>> 4) <<< 4 else 1

section
variable {ι : Type} [DecidableEq ι]

def ncoreLockEnter (maxLevel : ℕ) (st : CoreState ι) (lock : ι) : CoreState ι :=
  { st with
    level := Function.update st.level lock st.mask
    mask := newMask maxLevel
    gCoreIsLocked := true }

def ncoreLockExit (st : CoreState ι) (lock : ι) : CoreState ι :=
  { st with gCoreIsLocked := false, mask := st.level lock }

def ncoreIsLockValid (st : CoreState ι) : Bool :=
  let isIsr := decide (st.icsr &&& 0x1ff ≠ 0)
  (!st.gCoreIsLocked) != (!isIsr)

def ncoreAtomicInc (maxLevel : ℕ) (st : CoreState ι) (lock : ι) (ref : BitVec 32) :
    CoreState ι × BitVec 32 :=
  let st := ncoreLockEnter maxLevel st lock
  let ref := ref + 1
  (ncoreLockExit st lock, ref)

def ncoreAtomicDec (maxLevel : ℕ) (st : CoreState ι) (lock : ι) (ref : BitVec 32) :
    CoreState ι × BitVec 32 :=
  let st := ncoreLockEnter maxLevel st lock
  let ref := ref - 1
  (ncoreLockExit st lock, ref)

/-- `attrib` is 0 for a static event -/
def neventRefUp (maxLevel : ℕ) (st : CoreState ι) (lock : ι) (attrib : ℕ) (ref : BitVec 32) :
    CoreState ι × BitVec 32 :=
  if attrib ≠ 0 then ncoreAtomicInc maxLevel st lock ref else (st, ref)

def neventRefDown (maxLevel : ℕ) (st : CoreState ι) (lock : ι) (attrib : ℕ) (ref : BitVec 32) :
    CoreState ι × BitVec 32 :=
  if attrib ≠ 0 then ncoreAtomicDec maxLevel st lock ref else (st, ref)

/-- what `nepa_send_event` does to the core: `below` is `nevent_ref(event) < NEVENT_REF_LIMIT` and
`full` is `nqueue_is_full(epa->queue)`; its other calls take no lock -/
def sendEventCore (maxLevel : ℕ) (st : CoreState ι) (sysLock lock : ι) (attrib : ℕ) (ref : BitVec 32)
    (below full : Bool) : CoreState ι :=
  let st := ncoreLockEnter maxLevel st sysLock
  let st :=
    if below then
      let (st, ref) := neventRefUp maxLevel st lock attrib ref
      if full then (neventRefDown maxLevel st lock attrib ref).1 else st
    else st
  ncoreLockExit st sysLock

/-! ## runs -/

inductive LockOp (ι : Type) where
  | enter (lock : ι)
  | exit (lock : ι)

def runLockOp (maxLevel : ℕ) (st : CoreState ι) : LockOp ι → CoreState ι
  | .enter lock => ncoreLockEnter maxLevel st lock
  | .exit lock => ncoreLockExit st lock

def runLockOps (maxLevel : ℕ) (st : CoreState ι) (ops : List (LockOp ι)) : CoreState ι :=
  ops.foldl (runLockOp maxLevel) st

/-- the open sections after a call, the innermost first -/
def LockOp.stack (stack : List ι) : LockOp ι → List ι
  | .enter lock => lock :: stack
  | .exit _ => stack.tail

/-- properly nested: a section is left with the lock object with which it was entered, and an object
in use is not used again -/
def Nested : List ι → List (LockOp ι) → Prop
  | _, [] => True
  | stack, .enter lock :: ops => lock ∉ stack ∧ Nested (lock :: stack) ops
  | lock :: stack, .exit lock' :: ops => lock = lock' ∧ Nested stack ops
  | [], .exit _ :: _ => False

/-- no section is left while another one is open; `depth` are open at first -/
def NoInnerExit : ℕ → List (LockOp ι) → Prop
  | _, [] => True
  | depth, .enter _ :: ops => NoInnerExit (depth + 1) ops
  | depth, .exit _ :: ops => depth ≤ 1 ∧ NoInnerExit (depth - 1) ops

/-- the mask of the lock level is set, and it masks something -/
def CoreState.Masked (maxLevel : ℕ) (st : CoreState ι) : Prop :=
  st.mask = newMask maxLevel ∧ 0 < newMask maxLevel

/-- inside a section the lock is valid and interrupts are masked; outside it is not valid and the mask
is the original one -/
def LockSound (maxLevel mask : ℕ) (st : CoreState ι) : List ι → Prop
  | [] => st.mask = mask ∧ ncoreIsLockValid st = false
  | _ :: _ => st.Masked maxLevel ∧ ncoreIsLockValid st = true

/-- **The lock is sound at every point of the run.** -/
def LocksValid (maxLevel mask : ℕ) : CoreState ι → List ι → List (LockOp ι) → Prop
  | _, _, [] => True
  | st, stack, op :: ops => LockSound maxLevel mask (runLockOp maxLevel st op) (op.stack stack) ∧
      LocksValid maxLevel mask (runLockOp maxLevel st op) (op.stack stack) ops

/-! ## the masks -/

/-- in thread context, with the mask that belongs to the open sections -/
structure MaskSaved (maxLevel mask : ℕ) (st : CoreState ι) (stack : List ι) : Prop extends
    SavedWords mask (newMask maxLevel) st.mask st.level stack where
  thread : st.icsr &&& 0x1ff = 0

variable {maxLevel mask : ℕ} {st : CoreState ι} {stack : List ι} {lock : ι}

/-- **A section saves the mask that is set.** -/
theorem maskSaved_enter (h : MaskSaved maxLevel mask st stack) (hl : lock ∉ stack) :
    MaskSaved maxLevel mask (ncoreLockEnter maxLevel st lock) (lock :: stack) :=
  ⟨h.toSavedWords.enter hl, h.thread⟩

section
omit [DecidableEq ι]

/-- **The end of a section writes back what it saved.** -/
theorem maskSaved_exit (h : MaskSaved maxLevel mask st (lock :: stack)) :
    MaskSaved maxLevel mask (ncoreLockExit st lock) stack :=
  ⟨h.toSavedWords.exit.2, h.thread⟩

theorem MaskSaved.valid (h : MaskSaved maxLevel mask st stack) :
    ncoreIsLockValid st = st.gCoreIsLocked := by
  unfold ncoreIsLockValid
  rw [h.thread]
  cases st.gCoreIsLocked <;> rfl

/-- with these masks it is the flag that decides -/
theorem lockSound_iff (h : MaskSaved maxLevel mask st stack) (hpos : 0 < newMask maxLevel) :
    LockSound maxLevel mask st stack ↔ st.gCoreIsLocked = !stack.isEmpty := by
  have hcur := h.current
  cases stack with
  | nil => exact ⟨fun hs => h.valid.symm.trans hs.2, fun hf => ⟨hcur, h.valid.trans hf⟩⟩
  | cons a stack =>
    exact ⟨fun hs => h.valid.symm.trans hs.2, fun hf => ⟨⟨hcur, hpos⟩, h.valid.trans hf⟩⟩

end

/-! ## the flag -/

/-- **The flag agrees with the masks iff no section is left inside another one.** -/
theorem locksValid_iff (hpos : 0 < newMask maxLevel) {ops : List (LockOp ι)} :
    ∀ {st : CoreState ι} {stack : List ι}, MaskSaved maxLevel mask st stack → Nested stack ops →
      (LocksValid maxLevel mask st stack ops ↔ NoInnerExit stack.length ops) := by
  induction ops with
  | nil => exact fun _ _ => Iff.rfl
  | cons op ops ih =>
    intro st stack h hn
    cases op with
    | enter lock =>
      have h' := maskSaved_enter h hn.1
      have hsound := (lockSound_iff h' hpos).mpr rfl
      exact (and_iff_right hsound).trans (ih h' hn.2)
    | exit lock' =>
      cases stack with
      | nil => exact hn.elim
      | cons lock stack =>
        obtain ⟨rfl, hn⟩ := hn
        have h' := maskSaved_exit h
        have hdepth : LockSound maxLevel mask (ncoreLockExit st lock) stack ↔
            (lock :: stack).length ≤ 1 := by
          rw [lockSound_iff h' hpos, List.length_cons]
          cases stack with
          | nil => exact iff_of_true rfl (Nat.le_refl 1)
          | cons a stack => exact iff_of_false (fun hf => nomatch hf) (by simp)
        exact and_congr hdepth (ih h' hn)

/-- the level of a lock masks interrupts, unless its code is 0 -/
theorem newMask_pos_iff (h : maxLevel ≤ 255) :
    0 < newMask maxLevel ↔ maxLevel < 240 ∨ maxLevel = 255 := by
  unfold newMask
  by_cases h255 : maxLevel = 255
  · rw [if_neg (not_not.mpr h255)]
    exact iff_of_true Nat.one_pos (Or.inr h255)
  · rw [if_pos h255, Nat.shiftLeft_eq, Nat.shiftRight_eq_div_pow]
    omega

theorem locksValid_start_iff (h : maxLevel ≤ 255) (hthread : st.icsr &&& 0x1ff = 0)
    {ops : List (LockOp ι)} (hn : Nested [] ops) : LocksValid maxLevel st.mask st [] ops ↔
      NoInnerExit 0 ops ∧ (ops = [] ∨ maxLevel < 240 ∨ maxLevel = 255) := by
  have hsaved : MaskSaved maxLevel st.mask st [] := ⟨.nil st.mask st.level, hthread⟩
  by_cases hpos : 0 < newMask maxLevel
  · rw [locksValid_iff hpos hsaved hn]
    exact (and_iff_left (Or.inr ((newMask_pos_iff h).mp hpos))).symm
  · cases ops with
    | nil => exact iff_of_true trivial ⟨trivial, Or.inl rfl⟩
    | cons op ops =>
      cases op with
      | exit lock => exact hn.elim
      | enter lock =>
        refine iff_of_false (fun hv => hpos hv.1.1.2) (fun ⟨_, hc⟩ => hpos ?_)
        exact (newMask_pos_iff h).mpr (hc.resolve_left (List.cons_ne_nil _ _))

/-! ## the calls of `nepa_send_event` -/

section
omit [DecidableEq ι]

def refLocks (lock : ι) (attrib : ℕ) : List (LockOp ι) :=
  if attrib ≠ 0 then [.enter lock, .exit lock] else []

/-- the lock calls of `nepa_send_event`, in order -/
def sendEventLocks (sysLock lock : ι) (attrib : ℕ) (below full : Bool) : List (LockOp ι) :=
  .enter sysLock :: ((if below then refLocks lock attrib ++ (if full then refLocks lock attrib else [])
    else []) ++ [.exit sysLock])

end

theorem neventRefUp_core (ref : BitVec 32) (attrib : ℕ) : (neventRefUp maxLevel st lock attrib ref).1 =
    runLockOps maxLevel st (refLocks lock attrib) := by
  unfold neventRefUp refLocks
  split <;> rfl

theorem neventRefDown_core (ref : BitVec 32) (attrib : ℕ) :
    (neventRefDown maxLevel st lock attrib ref).1 = runLockOps maxLevel st (refLocks lock attrib) := by
  unfold neventRefDown refLocks
  split <;> rfl

theorem sendEventCore_eq (sysLock : ι) (attrib : ℕ) (ref : BitVec 32) (below full : Bool) :
    sendEventCore maxLevel st sysLock lock attrib ref below full =
      runLockOps maxLevel st (sendEventLocks sysLock lock attrib below full) := by
  obtain ⟨st₁, hst₁⟩ : ∃ st₁, st₁ = ncoreLockEnter maxLevel st sysLock := ⟨_, rfl⟩
  unfold sendEventCore sendEventLocks
  rw [runLockOps, List.foldl_cons, List.foldl_append]
  show _ = ncoreLockExit (runLockOps maxLevel (ncoreLockEnter maxLevel st sysLock) _) sysLock
  rw [← hst₁]
  cases below with
  | false => rfl
  | true =>
    cases full with
    | false =>
      show ncoreLockExit (neventRefUp maxLevel st₁ lock attrib ref).1 sysLock =
        ncoreLockExit (runLockOps maxLevel st₁ (refLocks lock attrib ++ [])) sysLock
      rw [neventRefUp_core, List.append_nil]
    | true =>
      show ncoreLockExit (neventRefDown maxLevel (neventRefUp maxLevel st₁ lock attrib ref).1 lock attrib
          (neventRefUp maxLevel st₁ lock attrib ref).2).1 sysLock =
        ncoreLockExit (runLockOps maxLevel st₁ (refLocks lock attrib ++ refLocks lock attrib)) sysLock
      rw [neventRefDown_core, neventRefUp_core, runLockOps, runLockOps, runLockOps, List.foldl_append]

section
omit [DecidableEq ι]

theorem sendEventLocks_nested {sysLock : ι} (hne : sysLock ≠ lock) (attrib : ℕ) (below full : Bool) :
    Nested [] (sendEventLocks sysLock lock attrib below full) := by
  unfold sendEventLocks refLocks
  cases below <;> cases full <;> by_cases h : attrib = 0 <;> simp [Nested, h, hne.symm]

theorem sendEventLocks_noInnerExit (sysLock : ι) (attrib : ℕ) (below full : Bool) :
    NoInnerExit 0 (sendEventLocks sysLock lock attrib below full) ↔ attrib = 0 ∨ below = false := by
  unfold sendEventLocks refLocks
  cases below <;> cases full <;> by_cases h : attrib = 0 <;> simp [NoInnerExit, h]

end

theorem neventRefUp_valid (hthread : st.icsr &&& 0x1ff = 0) (hvalid : ncoreIsLockValid st = true)
    (attrib : ℕ) (ref : BitVec 32) :
    ncoreIsLockValid (neventRefUp maxLevel st lock attrib ref).1 = true ↔ attrib = 0 := by
  unfold neventRefUp
  by_cases h : attrib = 0
  · rw [if_neg (not_not.mpr h)]
    exact iff_of_true hvalid h
  · rw [if_pos h]
    have hexit : ncoreIsLockValid (ncoreAtomicInc maxLevel st lock ref).1 = false := by
      unfold ncoreIsLockValid
      show ((!false) != !(decide (st.icsr &&& 0x1ff ≠ 0))) = false
      rw [hthread]
      rfl
    rw [hexit]
    exact iff_of_false Bool.false_ne_true h

/-- **Critical sections of this port**: a properly nested run in thread context keeps the lock sound at
every point iff no section is left inside another one and the lock level masks anything; the calls of
`nepa_send_event` do so iff the event is static or is not taken. -/
theorem ncoreLocks_valid_iff (maxLevel : ℕ) (h : maxLevel ≤ 255) (st : CoreState ι)
    (hthread : st.icsr &&& 0x1ff = 0) :
    (∀ ops, Nested [] ops → (LocksValid maxLevel st.mask st [] ops ↔
      NoInnerExit 0 ops ∧ (ops = [] ∨ maxLevel < 240 ∨ maxLevel = 255))) ∧
    (∀ sysLock lock attrib ref below full, sysLock ≠ lock →
      sendEventCore maxLevel st sysLock lock attrib ref below full =
        runLockOps maxLevel st (sendEventLocks sysLock lock attrib below full) ∧
      (LocksValid maxLevel st.mask st [] (sendEventLocks sysLock lock attrib below full) ↔
        (attrib = 0 ∨ below = false) ∧ (maxLevel < 240 ∨ maxLevel = 255))) := by
  refine ⟨fun ops hn => locksValid_start_iff h hthread hn, ?_⟩
  intro sysLock lock attrib ref below full hne
  refine ⟨sendEventCore_eq sysLock attrib ref below full, ?_⟩
  rw [locksValid_start_iff h hthread (sendEventLocks_nested hne attrib below full),
    sendEventLocks_noInnerExit]
  have hcons : sendEventLocks sysLock lock attrib below full ≠ [] := List.cons_ne_nil _ _
  simp only [hcons, false_or]

end

theorem ncoreLocks_valid_twice : LocksValid 255 0 ⟨0, false, 0, fun _ => 0⟩ []
    [.enter 0, .exit 0, .enter 1, .exit (1 : ℕ)] :=
  ((ncoreLocks_valid_iff 255 (by decide) ⟨0, false, 0, fun _ => 0⟩ rfl).1 _
    (by simp [Nested])).mpr ⟨by simp [NoInnerExit], Or.inr (Or.inr rfl)⟩

/-- a section inside another one, as in `nepa_send_event` with a dynamic event -/
theorem ncoreLocks_valid_inner : Nested [] (sendEventLocks 0 (1 : ℕ) 1 true false) ∧
    ¬ LocksValid 255 0 ⟨0, false, 0, fun _ => 0⟩ [] (sendEventLocks 0 (1 : ℕ) 1 true false) := by
  refine ⟨sendEventLocks_nested Nat.zero_ne_one 1 true false, fun h => ?_⟩
  have hinner : ncoreIsLockValid (runLockOps 255 ⟨0, false, 0, fun _ => 0⟩
      [.enter 0, .enter 1, .exit (1 : ℕ)]) = true := h.2.2.1.2
  cases hinner

end Stm32f4xx
end NeonEds
