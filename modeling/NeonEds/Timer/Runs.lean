import Mathlib.Data.List.Perm.Subperm
import NeonEds.Timer.Isr

/-!
# Runs of the timer module

A run is a list of calls, `TimerOp`, from the state in which all timers are initialised.  The calls
that the ISR makes through its callbacks are part of the run.

* `LegalRun`          the callers keep to the documentation: only timers that do not run are started,
                      with a tick from `1` to `UINT32_MAX - 1`, and the callbacks are of one class;
* `Countdowns.next`   what a call does to the countdowns, `Countdowns.Out` what it returns;
* `Sim.runOp_sim`     a call other than the ISR refines `next` and `Out`;
* `IsrSound.exists_sim` the state that a sound ISR call leaves.
-/

set_option linter.unusedSectionVars false

namespace NeonEds
open Exec DeltaList

variable {T F : Type} [DecidableEq T]

inductive TimerOp (T F : Type) where
  | start (t : T) (tick : ℕ) (fn : F) (flags : ℕ)
  | cancel (t : T)
  | isRunning (t : T)
  | remaining (t : T)
  | isr (cb : ℕ → T → List (TimerCall T F))

/-- what a call returns; for the ISR the callbacks that it makes -/
inductive TimerOut (T F : Type) where
  | done
  | running (b : Bool)
  | ticks (n : ℕ)
  | fired (log : List (T × F))

def runOp (v : Bool) (fuel : ℕ) (st : TimerCtx T F) :
    TimerOp T F → Exec (TimerOut T F × TimerCtx T F)
  | .start t tick fn flags => do
    let st ← ntimerStartI v fuel st t tick fn flags
    return (.done, st)
  | .cancel t => do
    let st ← ntimerCancelI v st t
    return (.done, st)
  | .isRunning t => .ok (.running (ntimerIsRunningI st t), st)
  | .remaining t => do
    let (n, st) ← ntimerRemaining fuel st t
    return (.ticks n, st)
  | .isr cb => do
    let (st, log) ← ncoreTimerIsr v fuel cb st
    return (.fired log, st)

def runOps (v : Bool) (fuel : ℕ) :
    TimerCtx T F → List (TimerOp T F) → Exec (List (TimerOut T F) × TimerCtx T F)
  | st, [] => .ok ([], st)
  | st, op :: ops => do
    let (out, st) ← runOp v fuel st op
    let (outs, st) ← runOps v fuel st ops
    return (out :: outs, st)

/-- what the documentation asks of the caller; the callbacks are in the class `P` -/
def LegalOp (P : (ℕ → T → List (TimerCall T F)) → Prop) (st : TimerCtx T F) :
    TimerOp T F → Prop
  | .start t tick _ _ => ntimerIsRunningI st t = false ∧ 1 ≤ tick ∧ tick < uint32Max
  | .isr cb => P cb
  | _ => True

def LegalRun (P : (ℕ → T → List (TimerCall T F)) → Prop) (v : Bool) (fuel : ℕ) :
    TimerCtx T F → List (TimerOp T F) → Prop
  | _, [] => True
  | st, op :: ops => LegalOp P st op ∧
      ∀ out st', runOp v fuel st op = .ok (out, st') → LegalRun P v fuel st' ops

namespace Countdowns

/-- the countdowns after a call whose callbacks leave the timers alone -/
def next (M : Countdowns T F) : TimerOp T F → Countdowns T F
  | .start t tick fn flags => M.start t tick fn flags
  | .cancel t => M.cancel t
  | .isr _ => M.isr
  | _ => M

def left (M : Countdowns T F) (t : T) : ℕ := ((M t).map Countdown.left).getD 0

/-- what a call returns: the ISR makes the callback of each timer with one tick left, once -/
def Out (M : Countdowns T F) : TimerOp T F → TimerOut T F → Prop
  | .isRunning t, out => out = .running (M t).isSome
  | .remaining t, out => out = .ticks (M.left t)
  | .isr _, out => ∃ log, out = .fired log ∧ (log.map Prod.fst).Nodup ∧
      ∀ t f, (t, f) ∈ log ↔ ∃ c, M t = some c ∧ c.left = 1 ∧ c.fn = f
  | _, out => out = .done

def Outs : Countdowns T F → List (TimerOp T F) → List (TimerOut T F) → Prop
  | _, [], [] => True
  | M, op :: ops, out :: outs => M.Out op out ∧ Outs (M.next op) ops outs
  | _, _, _ => False

def after (M : Countdowns T F) (ops : List (TimerOp T F)) : Countdowns T F := ops.foldl next M

theorem settled_stopped : (stopped : Countdowns T F).Settled := fun _ _ h => by cases h

theorem Settled.start {M : Countdowns T F} (h : M.Settled) (t : T) (tick : ℕ) (fn : F) (flags : ℕ) :
    (M.start t tick fn flags).Settled := by
  intro x c hc
  by_cases hx : x = t
  · rw [hx, Countdowns.start, Function.update_self] at hc
    injection hc with hc
    rw [← hc]
    exact Nat.succ_pos _
  · rw [Countdowns.start, Function.update_of_ne hx] at hc
    exact h x c hc

theorem Settled.cancel {M : Countdowns T F} (h : M.Settled) (t : T) : (M.cancel t).Settled := by
  intro x c hc
  by_cases hx : x = t
  · rw [hx, Countdowns.cancel, Function.update_self] at hc
    cases hc
  · rw [Countdowns.cancel, Function.update_of_ne hx] at hc
    exact h x c hc

end Countdowns

section
variable {st st' : TimerCtx T F} {D D' : List (T × ℕ)} {M M' : Countdowns T F}

theorem Sim.isRunning_eq (h : Sim st D M) (t : T) : ntimerIsRunningI st t = (M t).isSome := by
  rw [Bool.eq_iff_iff, h.isRunning_iff, h.mem_keys]

theorem Counted.length_le (h : Counted st D M) (h' : Counted st' D' M')
    (hsub : ∀ t, (M' t).isSome → (M t).isSome) : D'.length ≤ D.length := by
  have hle : (keys D').length ≤ (keys D).length := by
    refine (h'.nodup.subperm fun t ht => ?_).length_le
    rw [h.mem_keys]
    exact hsub t ((h'.mem_keys t).mp ht)
  simpa [keys] using hle

/-- **A call other than the ISR** does to the list what it does to the countdowns. -/
theorem Sim.runOp_sim (v : Bool) {fuel : ℕ} (h : Sim st D M) (hM : M.Settled)
    {P : (ℕ → T → List (TimerCall T F)) → Prop} {op : TimerOp T F} (hl : LegalOp P st op)
    (hop : ∀ cb, op ≠ .isr cb) (hf : D.length ≤ fuel) :
    ∃ out st' D', runOp v fuel st op = .ok (out, st') ∧ Sim st' D' (M.next op) ∧
      D'.length ≤ D.length + 1 ∧ (M.next op).Settled ∧ M.Out op out := by
  cases op with
  | start t tick fn flags =>
    obtain ⟨ht, h1, h2⟩ := hl
    have hMt : M t = none := by
      rw [h.isRunning_eq] at ht
      exact Option.not_isSome_iff_eq_none.mp (by rw [ht]; exact Bool.false_ne_true)
    obtain ⟨st', hrun, hsim⟩ := h.ntimerStartI_sim v fn flags hMt h1 h2 hf
    refine ⟨.done, st', _, ?_, hsim, (length_insert ..).le, hM.start t tick fn flags, rfl⟩
    show (ntimerStartI v fuel st t tick fn flags >>= _) = _
    rw [hrun]
    rfl
  | cancel t =>
    obtain ⟨st', hrun, hsim, _⟩ := h.ntimerCancelI_sim v t
    refine ⟨.done, st', _, ?_, hsim, (length_erase_le ..).trans (Nat.le_succ _), hM.cancel t, rfl⟩
    show (ntimerCancelI v st t >>= _) = _
    rw [hrun]
    rfl
  | isRunning t =>
    exact ⟨_, st, D, rfl, h, Nat.le_succ _, hM, congrArg TimerOut.running (h.isRunning_eq t)⟩
  | remaining t =>
    refine ⟨.ticks (M.left t), st, D, ?_, h, Nat.le_succ _, hM, rfl⟩
    show (ntimerRemaining fuel st t >>= _) = _
    rw [h.ntimerRemaining_eq t hf]
    rfl
  | isr cb => exact absurd rfl (hop cb)

/-- **The state that a sound ISR call leaves.** -/
theorem IsrSound.exists_sim {v : Bool} {fuel : ℕ} {cb : ℕ → T → List (TimerCall T F)}
    (h : Sim st D M) (hM : M.Settled) (hs : IsrSound v fuel cb st M) :
    ∃ st' log D', ncoreTimerIsr v fuel cb st = .ok (st', log) ∧
      M.tick.OnlyDue cb 0 log ∧ Sim st' D' (M.tick.replay cb 0 (log.map Prod.fst)) ∧
      (M.tick.replay cb 0 (log.map Prod.fst)).Settled := by
  obtain ⟨hsteps, st', log, hrun, hset⟩ := hs
  obtain ⟨st₀, _, hiter⟩ := h.isrStart_sim hM
  have hw := hrun
  rw [(hiter v fuel cb).2] at hw
  obtain ⟨s, hs, hok⟩ := bind_eq_ok.mp hw
  injection hok with hok
  injection hok with h1 h2
  obtain ⟨s', hs', hdue, D', hsim⟩ := hsteps fuel
  rw [(hiter v fuel cb).1, (whileLoop_eq_ok.mp hs).1] at hs'
  injection hs' with hs'
  subst hs' h1 h2
  exact ⟨s.st, s.fired, D', hrun, hdue, hsim, hset⟩

end

end NeonEds
