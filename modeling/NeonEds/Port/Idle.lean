import NeonEds.Ep.Drain

/-!
# The loop goes to sleep

When the loop of `nthread_schedule` chooses the idle thread, `sched_idle_dispatch_i` leaves the critical
section and calls `ncore_idle`.  On the ports that agents run on `ncore_os_ready` is empty, and `ncore_idle`
executes `cpu_sleep` (`CpuSleep`) or, in a debug build, nothing.  `IdleSys` is the system of `Ep/System`
with the place of the loop and what the processor remembers of the interrupts.

* `IdleInv.step`               with `wfe`, what was made ready since the choice has set the event register;
* `IdleReach.noLostWakeup`     so the loop does not wait while something is due above the level 0;
* `IdleReach.oversleeps`       with `wait`, an interrupt between the choice and `wait` is not noticed;
* `neverOversleeps_iff`        the loop never waits while something is due iff it never waits at all, or it
                               waits with `wfe` and no agent has the priority 0 of the idle thread.
-/

set_option linter.unusedSectionVars false

namespace NeonEds
open Exec Mailbox

/-- `cpu_sleep` of `ncore_idle`, where `!defined(NDEBUG) && (CONFIG_DEBUG == 0)` -/
inductive CpuSleep where
  /-- `ncore_idle` is empty -/
  | off
  /-- stm32f4xx: waits until the event register is set and clears it; every interrupt sets it -/
  | wfe
  /-- pic32: waits for the next interrupt -/
  | wait
  deriving DecidableEq

/-- what is remembered of the interrupts when `cpu_sleep` begins -/
def CpuSleep.begins : CpuSleep → Bool → Bool
  | .wait, _ => false
  | _, interrupted => interrupted

/-- `cpu_sleep` comes back -/
def CpuSleep.ends : CpuSleep → Bool → Bool
  | .off, _ => true
  | _, interrupted => interrupted

/-- where the loop is -/
inductive IdlePlace where
  | busy
  /-- in `sched_idle_dispatch_i`, before `cpu_sleep` -/
  | leaving
  | sleeping
  deriving DecidableEq

section
variable {T D E M : Type} [DecidableEq T] [DecidableEq D] [DecidableEq E]

structure IdleSys (T D E M : Type) extends EpaCtx (SchedCtx 32 T EpaFn) T D E M where
  place : IdlePlace
  /-- an interrupt has come: since the last `wfe`, or since `wait` began -/
  interrupted : Bool

inductive IdleStep (T D E M : Type) where
  /-- a step of the loop, or of what it has called -/
  | loop (step : EpaStep T D E M)
  /-- an interrupt, with the step that its handler takes -/
  | isr (step : Option (EpaStep T D E M))
  /-- `cpu_sleep` begins -/
  | sleep
  /-- `ncore_idle` returns -/
  | wake

/-- the choice of the idle thread is the one without a note -/
def placeAfter (place : IdlePlace) : EpaStep T D E M → Option (Note T E) → IdlePlace
  | .schedule, none => .leaving
  | _, _ => place

def runIdleStep (cfg : SchedConfig) (fuel : ℕ) (saturates : Bool) (cpu : CpuSleep)
    (sys : IdleSys T D E M) : IdleStep T D E M → Exec (Option (Note T E) × IdleSys T D E M)
  | .loop step => do
    let (note, ctx) ← runEpaStep cfg fuel saturates sys.toEpaCtx step
    return (note, { sys with toEpaCtx := ctx, place := placeAfter sys.place step note })
  | .isr none => .ok (none, { sys with interrupted := true })
  | .isr (some step) => do
    let (note, ctx) ← runEpaStep cfg fuel saturates sys.toEpaCtx step
    return (note, { sys with toEpaCtx := ctx, interrupted := true })
  | .sleep => .ok (none, { sys with place := .sleeping, interrupted := cpu.begins sys.interrupted })
  | .wake => .ok (none, { sys with place := .busy, interrupted := false })

/-- what the handler of an interrupt does -/
def EpaStep.FromIsr : EpaStep T D E M → Prop
  | .send _ _ => True
  | .sendAhead _ _ => True
  | .memory _ _ => True
  | _ => False

def LegalIdleStep (cpu : CpuSleep) (sys : IdleSys T D E M) (registered : T → Bool) :
    IdleStep T D E M → Prop
  | .loop step => sys.place = .busy ∧ LegalEpaStep sys.toEpaCtx registered step
  | .isr none => True
  | .isr (some step) => step.FromIsr
  | .sleep => sys.place = .leaving
  | .wake => sys.place = .sleeping ∧ cpu.ends sys.interrupted = true

def idleRegistered (registered : T → Bool) : IdleStep T D E M → T → Bool
  | .loop step => registeredAfter registered step
  | _ => registered

/-- the states that a system reaches from `sys₀`, with the agents that are registered -/
inductive IdleReach (cfg : SchedConfig) (fuel : ℕ) (saturates : Bool) (cpu : CpuSleep)
    (sys₀ : IdleSys T D E M) : IdleSys T D E M → (T → Bool) → Prop where
  | start : IdleReach cfg fuel saturates cpu sys₀ sys₀ (fun _ => false)
  | step {sys sys' : IdleSys T D E M} {registered : T → Bool} {step : IdleStep T D E M}
      {note : Option (Note T E)} (h : IdleReach cfg fuel saturates cpu sys₀ sys registered)
      (hl : LegalIdleStep cpu sys registered step)
      (hrun : runIdleStep cfg fuel saturates cpu sys step = .ok (note, sys')) :
      IdleReach cfg fuel saturates cpu sys₀ sys' (idleRegistered registered step)

/-- the loop waits in `ncore_idle` -/
def Asleep (cpu : CpuSleep) (sys : IdleSys T D E M) : Prop :=
  sys.place = .sleeping ∧ cpu.ends sys.interrupted = false

/-- the run queue is initialised, nothing is sent or registered yet, and the loop has not begun -/
structure IdleStart (cfg : SchedConfig) (sys : IdleSys T D E M) : Prop where
  start : EpaStart cfg sys.toEpaCtx
  place : sys.place = .busy
  interrupted : sys.interrupted = false

/-- the loop waits only when no agent that is registered has an event in its queue or is to be started -/
def NeverOversleeps (cfg : SchedConfig) (fuel : ℕ) (saturates : Bool) (cpu : CpuSleep)
    (sys₀ : IdleSys T D E M) : Prop :=
  ∀ sys registered, IdleReach cfg fuel saturates cpu sys₀ sys registered → Asleep cpu sys →
    ∀ t, registered t = true →
      nqueueItems (sys.queue t) = [] ∧ ¬ InitOpen sys.toEpaCtx registered t

variable {cfg : SchedConfig} {fuel : ℕ} {saturates : Bool} {cpu : CpuSleep}
  {sys sys' sys₀ : IdleSys T D E M} {registered : T → Bool}

/-! ### what was made ready since the choice -/

/-- what holds between the steps -/
structure IdleInv (cfg : SchedConfig) (cpu : CpuSleep) (sys : IdleSys T D E M)
    (registered : T → Bool) : Prop where
  inv : ∃ m, EpaInv cfg sys.toEpaCtx registered m
  due : cpu = .wfe → sys.place ≠ .busy → sys.interrupted = false →
    ∀ t, 0 < sys.sched.ref (.app t) → sys.sched.prio (.app t) = 0

theorem EpaStep.FromIsr.legal {step : EpaStep T D E M} (h : step.FromIsr) (ctx : EpaSys T D E M)
    (registered : T → Bool) :
    LegalEpaStep ctx registered step ∧ registeredAfter registered step = registered := by
  cases step with
  | send t e => exact ⟨trivial, rfl⟩
  | sendAhead t e => exact ⟨trivial, rfl⟩
  | memory m deferred => exact ⟨trivial, rfl⟩
  | _ => exact absurd h id

theorem IdleInv.step (h : IdleInv cfg cpu sys registered) (hcfg : OneBucketPerLevel cfg)
    {step : IdleStep T D E M} (hl : LegalIdleStep cpu sys registered step) {note : Option (Note T E)}
    (hrun : runIdleStep cfg fuel saturates cpu sys step = .ok (note, sys')) :
    IdleInv cfg cpu sys' (idleRegistered registered step) := by
  obtain ⟨m, hm⟩ := h.inv
  cases step with
  | loop step =>
    obtain ⟨hbusy, hlegal⟩ := hl
    obtain ⟨⟨note', ctx⟩, hstep, hrun⟩ := bind_eq_ok.mp hrun
    obtain ⟨_, rfl⟩ := Prod.mk.inj (Except.ok.inj hrun)
    obtain ⟨_, _, m', hrun', hnote, hm', _⟩ := hm.step hcfg fuel saturates hlegal
    obtain ⟨rfl, rfl⟩ := Prod.mk.inj (Except.ok.inj (hstep.symm.trans hrun'))
    refine ⟨⟨m', hm'⟩, fun _ hplace _ => ?_⟩
    -- the loop leaves its place for the idle thread alone, when nothing is due above the level 0
    cases step with
    | schedule =>
      cases note' with
      | none =>
        have hq := hm.quietSchedule hcfg hlegal.1 hstep hnote hm'
        intro t ht
        show ctx.sched.prio (.app t) = 0
        rw [hq.prio]
        exact ((hq.idle rfl rfl).2 t (Nat.lt_of_lt_of_le ht (hq.ref_le t))).1
      | some n => exact absurd hbusy hplace
    | _ => exact absurd hbusy hplace
  | isr step =>
    cases step with
    | none =>
      obtain ⟨_, rfl⟩ := Prod.mk.inj (Except.ok.inj hrun)
      exact ⟨⟨m, hm⟩, fun _ _ hirq => absurd hirq Bool.noConfusion⟩
    | some step =>
      obtain ⟨⟨note', ctx⟩, hstep, hrun⟩ := bind_eq_ok.mp hrun
      obtain ⟨_, rfl⟩ := Prod.mk.inj (Except.ok.inj hrun)
      obtain ⟨hlegal, hreg⟩ := EpaStep.FromIsr.legal hl sys.toEpaCtx registered
      obtain ⟨_, _, m', hrun', _, hm', _⟩ := hm.step hcfg fuel saturates hlegal
      obtain ⟨rfl, rfl⟩ := Prod.mk.inj (Except.ok.inj (hstep.symm.trans hrun'))
      rw [hreg] at hm'
      exact ⟨⟨m', hm'⟩, fun _ _ hirq => absurd hirq Bool.noConfusion⟩
  | sleep =>
    obtain ⟨_, rfl⟩ := Prod.mk.inj (Except.ok.inj hrun)
    refine ⟨⟨m, hm⟩, ?_⟩
    rintro rfl _ hirq
    exact h.due rfl (by rw [show sys.place = .leaving from hl]; simp) hirq
  | wake =>
    obtain ⟨_, rfl⟩ := Prod.mk.inj (Except.ok.inj hrun)
    exact ⟨⟨m, hm⟩, fun _ hplace _ => absurd rfl hplace⟩

/-! ### no step changes a priority -/

theorem EpaInv.step_prio {ctx ctx' : EpaSys T D E M} {m : Mailbox T E}
    (h : EpaInv cfg ctx registered m) (hcfg : OneBucketPerLevel cfg) {step : EpaStep T D E M}
    (hl : LegalEpaStep ctx registered step) {note : Option (Note T E)}
    (hrun : runEpaStep cfg fuel saturates ctx step = .ok (note, ctx')) :
    ctx'.sched.prio = ctx.sched.prio := by
  obtain ⟨note', ctx₁, m', hrun', hm, h', _⟩ := h.step hcfg fuel saturates hl
  obtain ⟨rfl, rfl⟩ := Prod.mk.inj (Except.ok.inj (hrun.symm.trans hrun'))
  obtain ⟨q, hq⟩ := h.ready
  have hins : ∀ {sched sched' : SchedCtx 32 T EpaFn} {t : T}, Ready cfg sched (fun _ => true) q →
      sched.ref = ctx.sched.ref → nthreadInsertI cfg fuel sched (.app t) = .ok sched' →
      sched'.prio = sched.prio := by
    intro sched sched' t hq' href hins
    obtain ⟨sched₁, _, hins', _, _, hprio, _⟩ :=
      nthreadInsertI_ready hcfg fuel hq' (t := .app t) rfl (by rw [href]; exact h.ref_lt hcfg t)
    rw [Except.ok.inj (hins.symm.trans hins')]
    exact hprio
  cases step with
  | register t =>
    obtain ⟨ctx₁, hreg, hrun⟩ := bind_eq_ok.mp hrun
    obtain ⟨_, rfl⟩ := Prod.mk.inj (Except.ok.inj hrun)
    obtain ⟨sched, hi, hreg⟩ := bind_eq_ok.mp hreg
    rw [← Except.ok.inj hreg]
    have hprio := hins (setDispatch_ready fuel hq t .init) (setDispatch_ref ..) hi
    exact hprio
  | send t e =>
    obtain ⟨⟨error, ctx₁⟩, hs, hrun⟩ := bind_eq_ok.mp hrun
    obtain ⟨_, rfl⟩ := Prod.mk.inj (Except.ok.inj hrun)
    rcases (nepaSendEventI_sched hs).2 with hi | hsame
    · exact hins hq rfl hi
    · rw [hsame]
  | sendAhead t e =>
    obtain ⟨⟨error, ctx₁⟩, hs, hrun⟩ := bind_eq_ok.mp hrun
    obtain ⟨_, rfl⟩ := Prod.mk.inj (Except.ok.inj hrun)
    rcases (nepaSendEventAheadI_sched hs).2 with hi | hsame
    · exact hins hq rfl hi
    · rw [hsame]
  | schedule => exact (h.quietStep hcfg (by trivial) hl hrun hm h').prio
  | returns => exact (h.quietStep hcfg (by trivial) hl hrun hm h').prio
  | finish => exact (h.quietStep hcfg (by trivial) hl hrun hm h').prio
  | memory mem deferred => exact (h.quietStep hcfg (by trivial) hl hrun hm h').prio

theorem IdleReach.inv (h : IdleReach cfg fuel saturates cpu sys₀ sys registered)
    (hcfg : OneBucketPerLevel cfg) (hstart : IdleStart cfg sys₀) :
    IdleInv cfg cpu sys registered ∧ sys.sched.prio = sys₀.sched.prio := by
  induction h with
  | start =>
    exact ⟨⟨⟨_, hstart.start.inv⟩, fun _ hplace _ => absurd hstart.place hplace⟩, rfl⟩
  | @step sys sys' registered step note h hl hrun ih =>
    obtain ⟨hinv, hprio⟩ := ih
    refine ⟨hinv.step hcfg hl hrun, Eq.trans ?_ hprio⟩
    obtain ⟨m, hm⟩ := hinv.inv
    cases step with
    | loop step =>
      obtain ⟨⟨note', ctx⟩, hstep, hrun⟩ := bind_eq_ok.mp hrun
      rw [← (Prod.mk.inj (Except.ok.inj hrun)).2]
      exact hm.step_prio hcfg hl.2 hstep
    | isr step =>
      cases step with
      | none => rw [← (Prod.mk.inj (Except.ok.inj hrun)).2]
      | some step =>
        obtain ⟨⟨note', ctx⟩, hstep, hrun⟩ := bind_eq_ok.mp hrun
        rw [← (Prod.mk.inj (Except.ok.inj hrun)).2]
        exact hm.step_prio hcfg (EpaStep.FromIsr.legal hl sys.toEpaCtx registered).1 hstep
    | sleep => rw [← (Prod.mk.inj (Except.ok.inj hrun)).2]
    | wake => rw [← (Prod.mk.inj (Except.ok.inj hrun)).2]

/-- **No wake-up is lost above the level 0**: with `wfe` the loop does not wait while such an agent has
something to handle. -/
theorem IdleReach.noLostWakeup (h : IdleReach cfg fuel saturates .wfe sys₀ sys registered)
    (hcfg : OneBucketPerLevel cfg) (hstart : IdleStart cfg sys₀) (hsleep : Asleep .wfe sys) {t : T}
    (ht : 0 < sys₀.sched.prio (.app t)) : sys.sched.ref (.app t) = 0 := by
  obtain ⟨hinv, hprio⟩ := h.inv hcfg hstart
  by_contra href
  have h0 := hinv.due rfl (by rw [hsleep.1]; simp) hsleep.2 t (Nat.pos_of_ne_zero href)
  rw [hprio] at h0
  omega

/-! ### the level 0 -/

/-- the threads `l` are ready, all of them at the level 0 -/
def LevelZero (cfg : SchedConfig) (sched : SchedCtx 32 T EpaFn) (l : List (ThreadId T)) : Prop :=
  ∃ q, Ready cfg sched (fun _ => true) q ∧ q 0 = l ∧ ∀ p, q p ≠ [] → p = 0

namespace LevelZero
variable {sched : SchedCtx 32 T EpaFn} {l : List (ThreadId T)} {t : T}

theorem setDispatch (h : LevelZero cfg sched l) (fuel : ℕ) (t : T) (f : EpaFn) :
    LevelZero cfg ((edsScheduler cfg fuel).setDispatch sched t f) l := by
  obtain ⟨q, hq, h0, hz⟩ := h
  exact ⟨q, setDispatch_ready fuel hq t f, h0, hz⟩

theorem schedule {u : ThreadId T} (h : LevelZero cfg sched (u :: l)) (hcfg : OneBucketPerLevel cfg)
    (fuel : ℕ) : ∃ sched', schedScheduleI cfg fuel sched = .ok (.thread u, sched') ∧
      LevelZero cfg sched' (l ++ [u]) ∧ sched'.ref = sched.ref ∧ sched'.fn = sched.fn ∧
      sched'.prio = sched.prio := by
  obtain ⟨q, hq, h0, hz⟩ := h
  obtain ⟨sched', hrun, hr, href, hprio, _⟩ :=
    schedScheduleI_ready hcfg fuel hq h0 fun p hp => Nat.le_of_eq (hz p hp)
  refine ⟨sched', hrun, ⟨_, hr, Function.update_self .., fun p hp => ?_⟩, href,
    schedScheduleI_fn hrun, hprio⟩
  by_contra hne
  rw [Function.update_of_ne hne] at hp
  exact hne (hz p hp)

theorem insert (h : LevelZero cfg sched l) (hcfg : OneBucketPerLevel cfg) (fuel : ℕ)
    (h0 : sched.ref (.app t) = 0) (hp : sched.prio (.app t) = 0) :
    ∃ sched', nthreadInsertI cfg fuel sched (.app t) = .ok sched' ∧
      LevelZero cfg sched' (l ++ [.app t]) ∧ sched'.ref (.app t) = 1 ∧ sched'.fn = sched.fn ∧
      sched'.prio = sched.prio := by
  obtain ⟨q, hq, hl, hz⟩ := h
  obtain ⟨sched', hrun, hr, href, hprio⟩ := nthreadInsertI_of_zero hcfg fuel hq (t := .app t) rfl h0
  refine ⟨sched', hrun, ⟨_, hr, ?_, fun p hne => ?_⟩, ?_, nthreadInsertI_fn hrun, hprio⟩
  · rw [hp, Function.update_self, hl]
  · by_contra hp0
    rw [hp, Function.update_of_ne hp0] at hne
    exact hp0 (hz p hne)
  · rw [href, Function.update_self]

end LevelZero

theorem QueueOk.not_full {α : Type} {qu : Nqueue α} (h : QueueOk qu) (hn : nqueueItems qu = []) :
    nqueueIsFull qu = false := by
  have hlen := h.length
  have hsize := h.size_bounds
  rw [hn, List.length_nil] at hlen
  exact decide_eq_false fun hc => by omega

theorem levelZero_of_ref {sched : SchedCtx 32 T EpaFn} {q : ℕ → List (ThreadId T)}
    (hq : Ready cfg sched (fun _ => true) q) (href : ∀ t, sched.ref (.app t) = 0) :
    LevelZero cfg sched [.idle] := by
  have hall : ∀ p u, u ∈ q p → u = .idle ∧ p = 0 := by
    intro p u hu
    obtain ⟨_, hprio, hpos⟩ := (hq.mem p u).mp hu
    cases u with
    | idle => exact ⟨rfl, hprio.symm.trans hq.idle.2.1⟩
    | app t =>
      rw [href] at hpos
      exact absurd hpos (Nat.lt_irrefl 0)
  refine ⟨q, hq, ?_, fun p hne => ?_⟩
  · have hidle := (hq.mem 0 .idle).mpr hq.idle
    have hnd := hq.nodup 0
    cases h0 : q 0 with
    | nil =>
      rw [h0] at hidle
      exact absurd hidle List.not_mem_nil
    | cons u rest =>
      rw [h0, List.nodup_cons] at hnd
      have hu := (hall 0 u (by rw [h0]; exact List.mem_cons_self)).1
      rw [hu] at hnd ⊢
      cases rest with
      | nil => rfl
      | cons v rest =>
        have hv := (hall 0 v (by rw [h0]; exact List.mem_cons_of_mem _ List.mem_cons_self)).1
        rw [hv] at hnd
        exact absurd List.mem_cons_self hnd.1
  · obtain ⟨u, hu⟩ := List.exists_mem_of_ne_nil _ hne
    exact (hall p u hu).2

/-! ### an agent of priority 0 -/

theorem runEpaStep_register {ctx : EpaSys T D E M} {t : T} {s : SchedCtx 32 T EpaFn}
    (h : nthreadInsertI cfg fuel ((edsScheduler cfg fuel).setDispatch ctx.sched t .init) (.app t)
      = .ok s) :
    runEpaStep cfg fuel saturates ctx (.register t) = .ok (none, { ctx with sched := s }) := by
  rw [runEpaStep, nepaRegister]
  show (nthreadInsertI cfg fuel _ (.app t) >>= _) >>= _ = _
  rw [h]
  rfl

theorem runEpaStep_send {ctx : EpaSys T D E M} {t : T} {e : E} {s : SchedCtx 32 T EpaFn}
    (hlim : neventRef (ctx.event e) < neventRefLimit) (hfull : nqueueIsFull (ctx.queue t) = false)
    (h : nthreadInsertI cfg fuel ctx.sched (.app t) = .ok s) :
    runEpaStep cfg fuel saturates ctx (.send t e) = .ok (some (.put t e),
      { (ctx.withMem (ctx.refUp saturates e)).setQueue t (nqueuePutFifo (ctx.queue t) e) with
        sched := s }) := by
  have hsend : nepaSendEventI (edsScheduler cfg fuel) saturates ctx t e
      = (nthreadInsertI cfg fuel ctx.sched (.app t) >>= fun sched => .ok (.none,
        { (ctx.withMem (ctx.refUp saturates e)).setQueue t (nqueuePutFifo (ctx.queue t) e) with
          sched := sched })) := by
    rw [nepaSendEventI, if_pos hlim]
    exact if_pos hfull
  rw [runEpaStep, hsend, h]
  rfl

theorem runEpaStep_idle {ctx : EpaSys T D E M} {s : SchedCtx 32 T EpaFn}
    (h : schedScheduleI cfg fuel ctx.sched = .ok (.thread .idle, s)) (hfn : s.fn .idle = some .idle) :
    runEpaStep cfg fuel saturates ctx .schedule = .ok (none, { ctx with sched := s }) := by
  rw [runEpaStep, h, ok_bind]
  simp only [vfDispatchI, hfn]

theorem runEpaStep_start {ctx : EpaSys T D E M} {t : T} {s : SchedCtx 32 T EpaFn}
    (h : schedScheduleI cfg fuel ctx.sched = .ok (.thread (.app t), s))
    (hfn : s.fn (.app t) = some .init) : runEpaStep cfg fuel saturates ctx .schedule
      = .ok (some (.start t), { ctx with sched := s, ctl := .initialising t }) := by
  rw [runEpaStep, h, ok_bind]
  simp only [vfDispatchI, hfn]

theorem runEpaStep_initEnd {ctx : EpaSys T D E M} {t : T} {s : SchedCtx 32 T EpaFn}
    (hctl : ctx.ctl = .initialising t) (h : nthreadRemoveI cfg ctx.sched (.app t) = .ok s) :
    runEpaStep cfg fuel saturates ctx .finish = .ok (none, { ctx with
      sched := (edsScheduler cfg fuel).setDispatch s t .dispatch
      ctl := .loop }) := by
  simp only [runEpaStep, hctl]
  rw [epaInitEnd]
  show (nthreadRemoveI cfg ctx.sched (.app t) >>= _) >>= _ = _
  rw [h]
  rfl

theorem IdleReach.next {step : IdleStep T D E M} {note : Option (Note T E)}
    (h : IdleReach cfg fuel saturates cpu sys₀ sys registered)
    (hrun : runIdleStep cfg fuel saturates cpu sys step = .ok (note, sys'))
    (hl : LegalIdleStep cpu sys registered step) :
    IdleReach cfg fuel saturates cpu sys₀ sys' (idleRegistered registered step) :=
  h.step hl hrun

theorem IdleReach.loop {ctx ctx' : EpaSys T D E M} {irq : Bool} {step : EpaStep T D E M}
    {note : Option (Note T E)} (h : IdleReach cfg fuel saturates cpu sys₀ ⟨ctx, .busy, irq⟩ registered)
    (hrun : runEpaStep cfg fuel saturates ctx step = .ok (note, ctx'))
    (hl : LegalEpaStep ctx registered step) :
    IdleReach cfg fuel saturates cpu sys₀ ⟨ctx', placeAfter .busy step note, irq⟩
      (registeredAfter registered step) := by
  have hrun' : runIdleStep cfg fuel saturates cpu ⟨ctx, .busy, irq⟩ (.loop step)
      = .ok (note, ⟨ctx', placeAfter .busy step note, irq⟩) := by
    show (runEpaStep cfg fuel saturates ctx step >>= _) = _
    rw [hrun]
    rfl
  exact h.next hrun' ⟨rfl, hl⟩

theorem IdleReach.isr {ctx ctx' : EpaSys T D E M} {place : IdlePlace} {irq : Bool}
    {step : EpaStep T D E M} {note : Option (Note T E)}
    (h : IdleReach cfg fuel saturates cpu sys₀ ⟨ctx, place, irq⟩ registered)
    (hrun : runEpaStep cfg fuel saturates ctx step = .ok (note, ctx')) (hl : step.FromIsr) :
    IdleReach cfg fuel saturates cpu sys₀ ⟨ctx', place, true⟩ registered := by
  have hrun' : runIdleStep cfg fuel saturates cpu ⟨ctx, place, irq⟩ (.isr (some step))
      = .ok (note, ⟨ctx', place, true⟩) := by
    show (runEpaStep cfg fuel saturates ctx step >>= _) = _
    rw [hrun]
    rfl
  exact h.next hrun' hl

/-- a registered agent of priority 0 waits for the idle thread to have its turn -/
theorem IdleReach.oversleeps_zero (hcfg : OneBucketPerLevel cfg) (hstart : IdleStart cfg sys₀)
    (hcpu : cpu ≠ .off) {t : T} (ht : sys₀.sched.prio (.app t) = 0) :
    ∃ sys registered, IdleReach cfg fuel saturates cpu sys₀ sys registered ∧ Asleep cpu sys ∧
      InitOpen sys.toEpaCtx registered t := by
  obtain ⟨ctx₀, place, irq⟩ := sys₀
  obtain ⟨hstart, rfl, rfl⟩ := hstart
  obtain ⟨q, hq⟩ := hstart.ready
  have hz₀ := levelZero_of_ref hq hstart.ref
  have href₀ : ((edsScheduler cfg fuel).setDispatch ctx₀.sched t .init).ref (.app t) = 0 :=
    (congrFun (setDispatch_ref cfg fuel _ t .init) _).trans (hstart.ref t)
  obtain ⟨s₁, h₁, hz₁, _, hfn₁, _⟩ := (hz₀.setDispatch fuel t .init).insert hcfg fuel href₀ ht
  obtain ⟨s₂, h₂, _, _, hfn₂, _⟩ := hz₁.schedule hcfg fuel
  have hfn : s₂.fn = Function.update ctx₀.sched.fn (.app t) (some .init) := by
    rw [hfn₂, hfn₁, setDispatch_fn]
  have hidle : s₂.fn .idle = some .idle := by
    rw [hfn, Function.update_of_ne (by simp)]
    exact hstart.idle
  have r₀ : IdleReach cfg fuel saturates cpu ⟨ctx₀, .busy, false⟩ ⟨ctx₀, .busy, false⟩
      (fun _ => false) := .start
  have r₁ := r₀.loop (runEpaStep_register h₁) rfl
  have hempty : ∀ u, nqueueIsEmpty (ctx₀.queue u) = false →
      Function.update (fun _ => false) t true u = true := by
    intro u hu
    rw [(hstart.queue u).1.isEmpty_iff.mpr (hstart.queue u).2] at hu
    cases hu
  have r₂ := r₁.loop (runEpaStep_idle h₂ hidle) ⟨hstart.ctl, hempty⟩
  have hsleep : runIdleStep cfg fuel saturates cpu ⟨{ ctx₀ with sched := s₂ }, .leaving, false⟩ .sleep
      = .ok (none, ⟨{ ctx₀ with sched := s₂ }, .sleeping, cpu.begins false⟩) := rfl
  refine ⟨_, _, r₂.next hsleep rfl, ⟨rfl, ?_⟩, ?_, ?_⟩
  · cases cpu with
    | off => exact absurd rfl hcpu
    | wfe => rfl
    | wait => rfl
  · show Function.update (fun _ => false) t true t = true
    rw [Function.update_self]
  · show s₂.fn (.app t) = _
    rw [hfn, Function.update_self]

/-! ### an interrupt between the choice and `wait` -/

/-- the run queue of an agent that is registered, started, and sent an event while the idle thread has its
turn -/
structure IdleTurns (cfg : SchedConfig) (fuel : ℕ) (t : T) (s₀ s₁ s₂ s₃ s₄ s₅ : SchedCtx 32 T EpaFn) :
    Prop where
  register : nthreadInsertI cfg fuel ((edsScheduler cfg fuel).setDispatch s₀ t .init) (.app t) = .ok s₁
  start : schedScheduleI cfg fuel s₁ = .ok (.thread (.app t), s₂)
  start_fn : s₂.fn (.app t) = some .init
  initEnd : nthreadRemoveI cfg s₂ (.app t) = .ok s₃
  idle : schedScheduleI cfg fuel ((edsScheduler cfg fuel).setDispatch s₃ t .dispatch)
    = .ok (.thread .idle, s₄)
  idle_fn : s₄.fn .idle = some .idle
  send : nthreadInsertI cfg fuel s₄ (.app t) = .ok s₅

/-- an agent above the level 0 that is the only one is served before the idle thread -/
theorem LevelZero.idleTurns (hcfg : OneBucketPerLevel cfg) (fuel : ℕ) {s₀ : SchedCtx 32 T EpaFn}
    (h : LevelZero cfg s₀ [.idle]) (href : ∀ u, s₀.ref (.app u) = 0) {t : T}
    (hp : 0 < s₀.prio (.app t)) (hidle : s₀.fn .idle = some .idle) :
    ∃ s₁ s₂ s₃ s₄ s₅, IdleTurns cfg fuel t s₀ s₁ s₂ s₃ s₄ s₅ := by
  obtain ⟨q, hq, _, hz⟩ := h.setDispatch fuel t .init
  have href₀ := congrFun (setDispatch_ref cfg fuel s₀ t .init)
  obtain ⟨s₁, h₁, hq₁, href₁, hprio₁⟩ :=
    nthreadInsertI_of_zero hcfg fuel hq (t := .app t) rfl ((href₀ _).trans (href t))
  have hnil : q (s₀.prio (.app t)) = [] := by
    by_contra hne
    exact hp.ne' (hz _ hne)
  -- its bucket is the last one in use
  have hfront : Function.update q (s₀.prio (.app t)) (q (s₀.prio (.app t)) ++ [.app t])
      (s₀.prio (.app t)) = .app t :: [] := by
    rw [Function.update_self, hnil]
    rfl
  obtain ⟨s₂, h₂, hq₂, href₂, hprio₂, _⟩ := schedScheduleI_ready hcfg fuel hq₁ hfront (by
    intro p hne
    by_contra hlt
    rw [show ((edsScheduler cfg fuel).setDispatch s₀ t .init).prio (.app t) = s₀.prio (.app t) from rfl,
      Function.update_of_ne (by omega)] at hne
    have := hz p hne
    omega)
  have hone : s₂.ref (.app t) = 1 := by
    rw [href₂, href₁, Function.update_self]
  have hfit : s₂.ref (.app t) < 2 ^ cfg.fast32 := by
    rw [hone]
    exact one_lt_fast32 hcfg
  obtain ⟨s₃, q₃, h₃, hq₃, href₃, _⟩ := nthreadRemoveI_ready hcfg hq₂ (t := t) rfl (by omega) hfit
  have hnone : ∀ u, s₃.ref (.app u) = 0 := by
    intro u
    rw [href₃]
    by_cases hu : u = t
    · rw [hu, Function.update_self, hone]
    · have hne : ThreadId.app u ≠ .app t := fun hc => hu (ThreadId.app.inj hc)
      rw [Function.update_of_ne hne, href₂, href₁, Function.update_of_ne hne, href₀]
      exact href u
  obtain ⟨s₄, h₄, hz₄, href₄, hfn₄, _⟩ :=
    ((levelZero_of_ref hq₃ hnone).setDispatch fuel t .dispatch).schedule hcfg fuel
  obtain ⟨q₄, hq₄, _, _⟩ := hz₄
  have hzero : s₄.ref (.app t) = 0 := by
    rw [href₄]
    exact (congrFun (setDispatch_ref cfg fuel s₃ t .dispatch) _).trans (hnone t)
  obtain ⟨s₅, h₅, _⟩ := nthreadInsertI_of_zero hcfg fuel hq₄ (t := .app t) rfl hzero
  have hfn₂ : s₂.fn = Function.update s₀.fn (.app t) (some .init) := by
    rw [schedScheduleI_fn h₂, nthreadInsertI_fn h₁, setDispatch_fn]
  refine ⟨s₁, s₂, s₃, s₄, s₅, h₁, h₂, ?_, h₃, h₄, ?_, h₅⟩
  · rw [hfn₂, Function.update_self]
  · rw [hfn₄, setDispatch_fn, Function.update_of_ne (by simp), nthreadRemoveI_fn h₃, hfn₂,
      Function.update_of_ne (by simp), hidle]

/-- an event memory in which every event can be referenced once more -/
def freshMem : EventMem E M where
  event := fun _ => { mem := none, id := 0, attrib := 0#32, ref := 0#32 }
  frees := []

theorem freshMem_ref (e : E) : neventRef ((freshMem : EventMem E M).event e) < neventRefLimit := by
  show (0#32 ||| 0#32 ^^^ neventAttrDynamic).toInt < neventRefLimit
  decide

/-- **The interrupt is forgotten when `wait` begins**, and the agent that it has sent an event to waits. -/
theorem IdleReach.oversleeps [Nonempty E] (hcfg : OneBucketPerLevel cfg) (hstart : IdleStart cfg sys₀)
    {t : T} (ht : 0 < sys₀.sched.prio (.app t)) :
    ∃ sys registered, IdleReach cfg fuel saturates .wait sys₀ sys registered ∧ Asleep .wait sys ∧
      registered t = true ∧ nqueueItems (sys.queue t) ≠ [] := by
  obtain ⟨e⟩ := ‹Nonempty E›
  obtain ⟨⟨m₀, s₀, q₀, d₀, ctl₀⟩, place, irq⟩ := sys₀
  obtain ⟨hstart, rfl, rfl⟩ := hstart
  obtain rfl : ctl₀ = .loop := hstart.ctl
  have hq₀ : ∀ u, QueueOk (q₀ u) ∧ nqueueItems (q₀ u) = [] := hstart.queue
  have hfull : nqueueIsFull (q₀ t) = false := (hq₀ t).1.not_full (hq₀ t).2
  have hempty : ∀ u, nqueueIsEmpty (q₀ u) = false → Function.update (fun _ => false) t true u = true := by
    intro u hu
    rw [(hq₀ u).1.isEmpty_iff.mpr (hq₀ u).2] at hu
    cases hu
  obtain ⟨q, hq⟩ := hstart.ready
  obtain ⟨s₁, s₂, s₃, s₄, s₅, hturns⟩ :=
    (levelZero_of_ref hq hstart.ref).idleTurns hcfg fuel hstart.ref ht hstart.idle
  have r₀ : IdleReach cfg fuel saturates .wait ⟨⟨m₀, s₀, q₀, d₀, .loop⟩, .busy, false⟩
      ⟨⟨m₀, s₀, q₀, d₀, .loop⟩, .busy, false⟩ (fun _ => false) := .start
  have hmem : runEpaStep cfg fuel saturates ⟨m₀, s₀, q₀, d₀, .loop⟩ (.memory freshMem d₀)
      = .ok (none, ⟨freshMem, s₀, q₀, d₀, .loop⟩) := rfl
  have r₁ := (r₀.loop hmem trivial).loop (runEpaStep_register hturns.register) rfl
  have r₂ := r₁.loop (runEpaStep_start hturns.start hturns.start_fn) ⟨rfl, hempty⟩
  have r₃ := r₂.loop (runEpaStep_initEnd rfl hturns.initEnd) (.inl ⟨t, rfl⟩)
  have r₄ := r₃.loop (runEpaStep_idle hturns.idle hturns.idle_fn) ⟨rfl, hempty⟩
  -- the loop has left the critical section
  obtain ⟨mem', hsend⟩ : ∃ mem', runEpaStep cfg fuel saturates ⟨freshMem, s₄, q₀, d₀, .loop⟩ (.send t e)
      = .ok (some (.put t e),
        ⟨mem', s₅, Function.update q₀ t (nqueuePutFifo (q₀ t) e), d₀, .loop⟩) :=
    ⟨_, runEpaStep_send (freshMem_ref e) hfull hturns.send⟩
  have r₅ := r₄.isr hsend trivial
  have hsleep : runIdleStep cfg fuel saturates .wait
      ⟨⟨mem', s₅, Function.update q₀ t (nqueuePutFifo (q₀ t) e), d₀, .loop⟩, .leaving, true⟩ .sleep
        = .ok (none,
          ⟨⟨mem', s₅, Function.update q₀ t (nqueuePutFifo (q₀ t) e), d₀, .loop⟩, .sleeping, false⟩) := rfl
  refine ⟨_, _, r₅.next hsleep rfl, ⟨rfl, rfl⟩, ?_, ?_⟩
  · show Function.update (fun _ => false) t true t = true
    rw [Function.update_self]
  · show nqueueItems (Function.update q₀ t (nqueuePutFifo (q₀ t) e) t) ≠ []
    rw [Function.update_self, (nqueuePutFifo_ok (hq₀ t).1 hfull e).2.1]
    simp

/-- **When the loop never waits while something is due**: where it never waits, and where it waits with
`wfe` and no agent has the priority of the idle thread. -/
theorem neverOversleeps_iff [Nonempty T] [Nonempty E] (hcfg : OneBucketPerLevel cfg) (cpu : CpuSleep)
    (hstart : IdleStart cfg sys₀) : NeverOversleeps cfg fuel saturates cpu sys₀ ↔
      cpu = .off ∨ cpu = .wfe ∧ ∀ t, 0 < sys₀.sched.prio (.app t) := by
  have hzero : NeverOversleeps cfg fuel saturates cpu sys₀ → cpu ≠ .off →
      ∀ t, 0 < sys₀.sched.prio (.app t) := by
    intro h hcpu t
    by_contra hp
    obtain ⟨sys, registered, hreach, hsleep, hopen⟩ :=
      IdleReach.oversleeps_zero hcfg hstart hcpu (Nat.eq_zero_of_not_pos hp)
    exact (h sys registered hreach hsleep t hopen.1).2 hopen
  cases cpu with
  | off =>
    refine iff_of_true ?_ (Or.inl rfl)
    intro sys registered _ hsleep
    cases hsleep.2
  | wait =>
    refine iff_of_false (fun h => ?_) (by simp)
    obtain ⟨t⟩ := ‹Nonempty T›
    obtain ⟨sys, registered, hreach, hsleep, hreg, hne⟩ :=
      IdleReach.oversleeps hcfg hstart (hzero h (by simp) t)
    exact hne (h sys registered hreach hsleep t hreg).1
  | wfe =>
    constructor
    · exact fun h => Or.inr ⟨rfl, hzero h (by simp)⟩
    · rintro (hoff | ⟨_, hp⟩) sys registered hreach hsleep t hreg
      · cases hoff
      obtain ⟨⟨⟨m, hm⟩, _⟩, _⟩ := hreach.inv hcfg hstart
      have href := hreach.noLostWakeup hcfg hstart hsleep (hp t)
      have hcount := hm.count t
      rw [href] at hcount
      refine ⟨List.length_eq_zero_iff.mp (by omega), fun hopen => ?_⟩
      rw [if_pos hopen] at hcount
      omega

end

/-! ## the agent of `oneAgent` on an stm32f4xx port -/

def oneAgentIdle : IdleSys Unit Unit Unit Unit where
  toEpaCtx := oneAgent
  place := .busy
  interrupted := false

theorem oneAgentIdle_start : IdleStart cfg32 oneAgentIdle where
  start := oneAgent_start
  place := rfl
  interrupted := rfl

theorem neverOversleeps_oneAgent : NeverOversleeps cfg32 0 false .wfe oneAgentIdle ∧
    ¬ NeverOversleeps cfg32 0 false .wait oneAgentIdle := by
  constructor
  · exact (neverOversleeps_iff cfg32_oneBucketPerLevel .wfe oneAgentIdle_start).mpr
      (Or.inr ⟨rfl, fun _ => show 0 < oneThread.prio (.app ()) by decide⟩)
  · rw [neverOversleeps_iff cfg32_oneBucketPerLevel .wait oneAgentIdle_start]
    simp

end NeonEds
