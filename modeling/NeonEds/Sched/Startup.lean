import NeonEds.Sched.Runs

/-!
# Scheduler start-up with API validation

The memory at power-on is zero but for the threads that `NTHREAD_INITIALIZER` and
`NEPA_BUNDLE_STRUCT_INIT` set up (`powerOn`).  `StartSafe`: no `NREQUIRE` of `sched.c` fires, the
buckets are lists whenever a thread joins the run queue, and a thread that is ready stays so.

`nthread_insert_i` requires that its argument is not a thread, and `nthread_init` calls it with the
idle thread: `startSafe_iff`.
-/

set_option linter.unusedSectionVars false

namespace NeonEds
open Exec

variable {T V : Type} [DecidableEq T]

/-- the node of a static thread is linked to itself -/
def staticLink (static : T → Option (ℕ × Option V)) : SchedNode T → Option (SchedNode T)
  | .thread (.app t) => (static t).map (fun _ => .thread (.app t))
  | _ => none

def staticBias (static : T → Option (ℕ × Option V)) : SchedNode T → ℕ
  | .thread (.app t) => ((static t).map (fun s => s.1 % 2 ^ 8)).getD 0
  | _ => 0

def staticThread (cfg : SchedConfig) (static : T → Option (ℕ × Option V)) : ThreadId T → Nthread V
  | .app t => ⟨(static t).isSome && cfg.apiValidation, 0, (static t).bind Prod.snd⟩
  | .idle => ⟨false, 0, none⟩

/-- `static` gives the static threads with the priority and the dispatch function of their
initialiser -/
def powerOn (cfg : SchedConfig) (static : T → Option (ℕ × Option V)) : SchedCtx 32 T V where
  node := ⟨⟨staticLink static, staticLink static⟩, staticBias static⟩
  bitmap := ⟨0#32, fun _ => 0#32⟩
  current := none
  isInitialized := false
  thread := staticThread cfg static

/-- the dispatch functions that the calls below set -/
structure Dispatchers (V : Type) where
  /-- `sched_idle_dispatch_i` -/
  idle : V
  /-- `sched_task_dispatch_i` -/
  task : V
  /-- `epa_init_i` -/
  epaInit : V

inductive StartCall (T V : Type) where
  | nthreadInit (t : T) (priority : ℕ) (vfDispatch : V)
  | ntaskInit (t : T) (priority : ℕ)
  | ntaskReady (t : T)
  | nepaRegister (t : T)

section
variable (cfg : SchedConfig) (fuel : ℕ) (d : Dispatchers V)

def ntaskInit (ctx : SchedCtx 32 T V) (t : T) (priority : ℕ) : Exec (SchedCtx 32 T V) :=
  nthreadInit cfg fuel d.idle ctx (.app t) priority d.task

def ntaskReady (ctx : SchedCtx 32 T V) (t : T) : Exec (SchedCtx 32 T V) :=
  nthreadInsertI cfg fuel ctx (.app t)

/-- what `nepa_register` does to the thread of the EPA -/
def nepaRegisterThread (ctx : SchedCtx 32 T V) (t : T) : Exec (SchedCtx 32 T V) :=
  let ctx := ctx.setThread (.app t) { ctx.thread (.app t) with vfDispatch := some d.epaInit }
  nthreadInsertI cfg fuel ctx (.app t)

def runStartCall (ctx : SchedCtx 32 T V) : StartCall T V → Exec (SchedCtx 32 T V)
  | .nthreadInit t priority vfDispatch => nthreadInit cfg fuel d.idle ctx (.app t) priority vfDispatch
  | .ntaskInit t priority => ntaskInit cfg fuel d ctx t priority
  | .ntaskReady t => ntaskReady cfg fuel ctx t
  | .nepaRegister t => nepaRegisterThread cfg fuel d ctx t

def runStartCalls (ctx : SchedCtx 32 T V) (calls : List (StartCall T V)) :
    Exec (SchedCtx 32 T V) :=
  calls.foldlM (runStartCall cfg fuel d) ctx

/-- a thread is initialised once, and used only when it is -/
def LegalStart (cfg : SchedConfig) : (T → Bool) → List (StartCall T V) → Prop
  | _, [] => True
  | known, .nthreadInit t priority _ :: calls =>
      known t = false ∧ priority < cfg.levels ∧ LegalStart cfg (Function.update known t true) calls
  | known, .ntaskInit t priority :: calls =>
      known t = false ∧ priority < cfg.levels ∧ LegalStart cfg (Function.update known t true) calls
  | known, .ntaskReady t :: calls => known t = true ∧ LegalStart cfg known calls
  | known, .nepaRegister t :: calls => known t = true ∧ LegalStart cfg known calls

/-- the run queue when the call inserts a thread: the first `nthread_init` inserts the idle thread -/
def insertsAt (ctx : SchedCtx 32 T V) : StartCall T V → Option (SchedCtx 32 T V)
  | .nthreadInit _ _ _ | .ntaskInit _ _ =>
    if ctx.isInitialized = false then
      some (nthreadSetup cfg (prioQueueInit cfg ctx) .idle 0 d.idle)
    else none
  | .ntaskReady t | .nepaRegister t => if ctx.ref (.app t) = 0 then some ctx else none

/-- the thread is on the list of a bucket -/
def IsQueued (ctx : SchedCtx 32 T V) (t : ThreadId T) : Prop :=
  ∃ p < cfg.buckets, ∃ l, Circular ctx.node.list (.sentinel p) l ∧ SchedNode.thread t ∈ l

structure StartSafe (ctx : SchedCtx 32 T V) (calls : List (StartCall T V)) : Prop where
  noRequire : ∀ pre, pre <+: calls → runStartCalls cfg fuel d ctx pre ≠ .error .assertion
  sentinels : ∀ pre call ctx₁ ctx₂, pre ++ [call] <+: calls →
    runStartCalls cfg fuel d ctx pre = .ok ctx₁ → insertsAt cfg d ctx₁ call = some ctx₂ →
    ∀ p < cfg.buckets, ∃ l, Circular ctx₂.node.list (.sentinel p) l
  keeps : ∀ pre call ctx₁ ctx₂, pre ++ [call] <+: calls →
    runStartCalls cfg fuel d ctx pre = .ok ctx₁ → runStartCall cfg fuel d ctx₁ call = .ok ctx₂ →
    ∀ t, IsQueued cfg ctx₁ t → IsQueued cfg ctx₂ t

end

variable {cfg : SchedConfig}

theorem require_asserts (hv : cfg.asserts = true) {p : Prop} [Decidable p] (hp : ¬ p) :
    require cfg.asserts p = .error .assertion := by
  unfold require
  rw [if_pos ⟨hv, hp⟩]

theorem apiValidation_of_asserts (hv : cfg.asserts = true) : cfg.apiValidation = true := by
  unfold SchedConfig.asserts at hv
  exact (Bool.and_eq_true_iff.mp hv).2

theorem nthreadSetup_signature (hv : cfg.apiValidation = true) (ctx : SchedCtx 32 T V)
    (t : ThreadId T) (priority : ℕ) (vfDispatch : V) :
    ((nthreadSetup cfg ctx t priority vfDispatch).thread t).signature = true := by
  show (Function.update ctx.thread t ⟨if cfg.apiValidation then true else (ctx.thread t).signature,
    0, some vfDispatch⟩ t).signature = true
  rw [Function.update_self, if_pos hv]

/-- no thread can be inserted -/
theorem nthreadInsertI_asserts (hv : cfg.asserts = true) (fuel : ℕ) {ctx : SchedCtx 32 T V}
    {t : ThreadId T} (ht : (ctx.thread t).signature = true) :
    nthreadInsertI cfg fuel ctx t = .error .assertion := by
  unfold nthreadInsertI
  rw [require_asserts hv (by rw [ht]; simp), error_bind]

/-- the run queue cannot be prepared: it needs the idle thread -/
theorem prepareRunQueue_asserts (hv : cfg.asserts = true) (fuel : ℕ) (idleDispatch : V)
    {ctx : SchedCtx 32 T V} (hctx : ctx.isInitialized = false)
    (hidle : (ctx.thread .idle).signature = false) :
    prepareRunQueue cfg fuel idleDispatch ctx = .error .assertion := by
  unfold prepareRunQueue
  rw [if_pos hctx]
  show (require cfg.asserts ((ctx.thread .idle).signature = false) >>= fun _ => _) = _
  rw [require_of hidle, ok_bind]
  apply nthreadInsertI_asserts hv
  exact nthreadSetup_signature (apiValidation_of_asserts hv) _ _ _ _

theorem nthreadInit_asserts (hv : cfg.asserts = true) (fuel : ℕ) (idleDispatch : V)
    {ctx : SchedCtx 32 T V} (hctx : ctx.isInitialized = false)
    (hidle : (ctx.thread .idle).signature = false) {t : ThreadId T}
    (ht : (ctx.thread t).signature = false) (priority : ℕ) (vfDispatch : V) :
    nthreadInit cfg fuel idleDispatch ctx t priority vfDispatch = .error .assertion := by
  unfold nthreadInit
  rw [require_of ht, ok_bind, prepareRunQueue_asserts hv fuel idleDispatch hctx hidle, error_bind]

/-- the first call of a legal start-up fires an `NREQUIRE` -/
theorem runStartCall_asserts (hv : cfg.asserts = true) (fuel : ℕ) (d : Dispatchers V)
    (static : T → Option (ℕ × Option V)) (call : StartCall T V) {calls : List (StartCall T V)}
    (hl : LegalStart cfg (fun t => (static t).isSome) (call :: calls)) :
    runStartCall cfg fuel d (powerOn cfg static) call = .error .assertion := by
  have hsig : ∀ t, ((powerOn cfg static).thread (.app t)).signature = (static t).isSome := by
    intro t
    show ((static t).isSome && cfg.apiValidation) = _
    rw [apiValidation_of_asserts hv, Bool.and_true]
  cases call with
  | nthreadInit t priority vfDispatch =>
    exact nthreadInit_asserts hv fuel d.idle rfl rfl ((hsig t).trans hl.1) priority vfDispatch
  | ntaskInit t priority =>
    exact nthreadInit_asserts hv fuel d.idle rfl rfl ((hsig t).trans hl.1) priority d.task
  | ntaskReady t => exact nthreadInsertI_asserts hv fuel ((hsig t).trans hl.1)
  | nepaRegister t =>
    apply nthreadInsertI_asserts hv fuel
    show (Function.update (powerOn cfg static).thread (.app t) _ (.app t)).signature = true
    rw [Function.update_self]
    exact (hsig t).trans hl.1

/-- **With API validation the start-up is safe iff nothing is called.** -/
theorem startSafe_iff (hv : cfg.asserts = true) (fuel : ℕ) (d : Dispatchers V)
    (static : T → Option (ℕ × Option V)) (calls : List (StartCall T V))
    (hl : LegalStart cfg (fun t => (static t).isSome) calls) :
    StartSafe cfg fuel d (powerOn cfg static) calls ↔ calls = [] := by
  constructor
  · intro hs
    cases calls with
    | nil => rfl
    | cons call calls =>
      refine absurd ?_ (hs.noRequire [call] ⟨calls, rfl⟩)
      unfold runStartCalls
      rw [List.foldlM_cons, runStartCall_asserts hv fuel d static call hl, error_bind]
  · rintro rfl
    refine ⟨?_, ?_, ?_⟩
    · intro pre hpre
      rw [List.prefix_nil.mp hpre]
      exact fun h => by cases h
    · intro pre call ctx₁ ctx₂ hpre
      exact absurd (List.prefix_nil.mp hpre) (by simp)
    · intro pre call ctx₁ ctx₂ hpre
      exact absurd (List.prefix_nil.mp hpre) (by simp)

/-- `cfg32` with API validation -/
def cfgValidate : SchedConfig := { cfg32 with debug := true, apiValidation := true }

theorem startSafe_iff_static :
    StartSafe cfgValidate 0 ⟨(), (), ()⟩ (powerOn cfgValidate (fun _ : Bool => some (1, none)))
        [.nepaRegister true] ↔
      [(StartCall.nepaRegister true : StartCall Bool Unit)] = [] :=
  startSafe_iff rfl 0 ⟨(), (), ()⟩ _ _ ⟨rfl, trivial⟩

theorem ntaskInit_not_startSafe :
    LegalStart cfgValidate (fun _ => (none : Option (ℕ × Option Unit)).isSome)
      [(.ntaskInit () 1 : StartCall Unit Unit)] ∧
    ¬ StartSafe cfgValidate 0 ⟨(), (), ()⟩ (powerOn cfgValidate (fun _ : Unit => none))
      [.ntaskInit () 1] :=
  ⟨⟨rfl, by decide, trivial⟩, fun hs => hs.noRequire [.ntaskInit () 1] (List.prefix_refl _) rfl⟩

end NeonEds
