import NeonEds.Sched.Start

/-!
# Runs of the scheduler

A run is a list of calls, `SchedOp`, from a memory in which the run queue is not initialised; the
first `nthread_init` of the run initialises it.

* `LegalSchedRun`   the callers keep to the documentation: a thread is used between its
                    `nthread_init` and its `nthread_term` only, and `nthread_remove_i` is called on
                    threads with a positive reference count;
* `SchedSound`      no call faults, after every call the run queue holds the ready threads, and
                    `sched_schedule_i` returns the first thread of the greatest priority;
* `RefsFit`         no reference count goes round.

`schedSound_iff_refsFit`: a legal run is sound iff no reference count goes round.
-/

set_option linter.unusedSectionVars false

namespace NeonEds
open Exec

variable {T V : Type} [DecidableEq T]

inductive SchedOp (T V : Type) where
  | init (t : T) (priority : ℕ) (vfDispatch : V)
  | insert (t : T)
  | remove (t : T)
  | term (t : T)
  | schedule

/-- a call, with the node that `sched_schedule_i` returns -/
def runSchedOp (cfg : SchedConfig) (fuel : ℕ) (idleDispatch : V) (ctx : SchedCtx 32 T V) :
    SchedOp T V → Exec (Option (SchedNode T) × SchedCtx 32 T V)
  | .init t priority vfDispatch => do
    let ctx ← nthreadInit cfg fuel idleDispatch ctx (.app t) priority vfDispatch
    return (none, ctx)
  | .insert t => do
    let ctx ← nthreadInsertI cfg fuel ctx (.app t)
    return (none, ctx)
  | .remove t => do
    let ctx ← nthreadRemoveI cfg ctx (.app t)
    return (none, ctx)
  | .term t => do
    let ctx ← nthreadTerm cfg ctx (.app t)
    return (none, ctx)
  | .schedule => do
    let (n, ctx) ← schedScheduleI cfg fuel ctx
    return (some n, ctx)

/-- the threads in use after a call -/
def liveAfter (live : ThreadId T → Bool) : SchedOp T V → ThreadId T → Bool
  | .init t _ _ => Function.update (Function.update live .idle true) (.app t) true
  | .term t => Function.update live (.app t) false
  | _ => live

def LegalSchedOp (cfg : SchedConfig) (ctx : SchedCtx 32 T V) (live : ThreadId T → Bool) :
    SchedOp T V → Prop
  | .init t priority _ => live (.app t) = false ∧ priority < cfg.levels ∧ priority < 2 ^ 8
  | .insert t => live (.app t) = true
  | .remove t => live (.app t) = true ∧ 0 < ctx.ref (.app t)
  | .term t => live (.app t) = true
  | .schedule => ctx.isInitialized = true

/-- what `sched_schedule_i` returns: the first thread of the greatest priority that is ready -/
def Selects (q : ℕ → List (ThreadId T)) : SchedOp T V → Option (SchedNode T) → Prop
  | .schedule, n => ∃ p t rest, n = some (.thread t) ∧ q p = t :: rest ∧ ∀ p', q p' ≠ [] → p' ≤ p
  | _, n => n = none

section
variable (cfg : SchedConfig) (fuel : ℕ) (idleDispatch : V)

def LegalSchedRun : SchedCtx 32 T V → (ThreadId T → Bool) → List (SchedOp T V) → Prop
  | _, _, [] => True
  | ctx, live, op :: ops => LegalSchedOp cfg ctx live op ∧
      ∀ n ctx', runSchedOp cfg fuel idleDispatch ctx op = .ok (n, ctx') →
        LegalSchedRun ctx' (liveAfter live op) ops

def SchedSound : SchedCtx 32 T V → (ThreadId T → Bool) → List (SchedOp T V) → Prop
  | _, _, [] => True
  | ctx, live, op :: ops => ∃ n ctx', runSchedOp cfg fuel idleDispatch ctx op = .ok (n, ctx') ∧
      (∃ q, Ready cfg ctx' (liveAfter live op) q) ∧
      (∀ q, Ready cfg ctx live q → Selects q op n) ∧
      SchedSound ctx' (liveAfter live op) ops

/-- no `nthread_insert_i` on a thread whose reference count is the greatest `uint_fast32_t` -/
def RefsFit : SchedCtx 32 T V → List (SchedOp T V) → Prop
  | _, [] => True
  | ctx, op :: ops => (∀ t, op = .insert t → ctx.ref (.app t) ≠ 2 ^ cfg.fast32 - 1) ∧
      ∀ n ctx', runSchedOp cfg fuel idleDispatch ctx op = .ok (n, ctx') → RefsFit ctx' ops

end

/-- what holds between the calls: nothing is initialised, or the run queue is the ready queue -/
def SchedState (cfg : SchedConfig) (ctx : SchedCtx 32 T V) (live : ThreadId T → Bool) : Prop :=
  (ctx.isInitialized = false ∧ live = fun _ => false) ∨
    (∃ q, Ready cfg ctx live q) ∧ ∀ t, live (.app t) = true → ctx.ref (.app t) < 2 ^ cfg.fast32

section
variable {cfg : SchedConfig} (hcfg : OneBucketPerLevel cfg) {ctx : SchedCtx 32 T V}
  {live : ThreadId T → Bool} {q : ℕ → List (ThreadId T)}

theorem LegalSchedOp.started {op : SchedOp T V} {P : Prop} (hl : LegalSchedOp cfg ctx live op)
    (hop : ∀ t priority vfDispatch, op ≠ .init t priority vfDispatch)
    (h : (ctx.isInitialized = false ∧ live = fun _ => false) ∨ P) : P := by
  rcases h with ⟨h0, hlive⟩ | h
  · rw [hlive] at hl
    cases op with
    | init t priority vfDispatch => exact absurd rfl (hop t priority vfDispatch)
    | insert t => cases hl
    | remove t => cases hl.1
    | term t => cases hl
    | schedule => cases h0.symm.trans hl
  · exact h

theorem ref_lt_of_update {ctx' : SchedCtx 32 T V} {t : T} {n : ℕ}
    (href : ctx'.ref = Function.update ctx.ref (.app t) n) (hn : n < 2 ^ cfg.fast32)
    (hlt : ∀ u, live (.app u) = true → ctx.ref (.app u) < 2 ^ cfg.fast32) :
    ∀ u, live (.app u) = true → ctx'.ref (.app u) < 2 ^ cfg.fast32 := by
  intro u hu
  rw [href]
  by_cases hut : ThreadId.app u = .app t
  · rw [hut, Function.update_self]
    exact hn
  · rw [Function.update_of_ne hut]
    exact hlt u hu

theorem Ready.eq_at {q' : ℕ → List (ThreadId T)} {ctx' : SchedCtx 32 T V} {live' : ThreadId T → Bool}
    (h : Ready cfg ctx live q) (h' : Ready cfg ctx' live' q')
    (hL : ctx'.node.list = ctx.node.list) {p : ℕ} (hp : p < cfg.buckets) : q' p = q p := by
  have hr := h'.ring p hp
  rw [hL] at hr
  exact (List.map_injective_iff.mpr fun _ _ => SchedNode.thread.inj) (hr.unique (h.ring p hp))

theorem Ready.unique {q' : ℕ → List (ThreadId T)} (h : Ready cfg ctx live q)
    (h' : Ready cfg ctx live q') : q' = q := by
  funext p
  by_cases hp : p < cfg.buckets
  · exact h.eq_at h' rfl hp
  · have hnil : ∀ {q : ℕ → List (ThreadId T)}, Ready cfg ctx live q → q p = [] := by
      intro q hr
      by_contra hne
      exact hp (hr.lt p hne).1
    rw [hnil h, hnil h']

include hcfg

/-- **`nthread_init`**, the first one or a later one. -/
theorem SchedState.init (fuel : ℕ) (idleDispatch : V) (h : SchedState cfg ctx live) {t : T}
    {priority : ℕ} (ht : live (.app t) = false) (hlev : priority < cfg.levels)
    (h8 : priority < 2 ^ 8) (vfDispatch : V) :
    ∃ ctx', nthreadInit cfg fuel idleDispatch ctx (.app t) priority vfDispatch = .ok ctx' ∧
      (∃ q, Ready cfg ctx' (liveAfter live (.init t priority vfDispatch)) q) ∧
      ∀ u, liveAfter live (.init t priority vfDispatch) (.app u) = true →
        ctx'.ref (.app u) < 2 ^ cfg.fast32 := by
  obtain ⟨ctx₁, q, hprep, hr, href⟩ : ∃ ctx₁ q,
      prepareRunQueue cfg fuel idleDispatch ctx = .ok ctx₁ ∧
      Ready cfg ctx₁ (Function.update live .idle true) q ∧
      ∀ u, Function.update live .idle true (.app u) = true →
        ctx₁.ref (.app u) < 2 ^ cfg.fast32 := by
    rcases h with ⟨h0, hlive⟩ | ⟨⟨q, hr⟩, href⟩
    · obtain ⟨ctx₁, hprep, hr, _⟩ := prepareRunQueue_first hcfg fuel idleDispatch h0
      have hidle : Function.update live .idle true = (onlyIdle : ThreadId T → Bool) := by
        funext u
        rw [hlive]
        cases u <;> rfl
      rw [hidle]
      exact ⟨ctx₁, _, hprep, hr, fun u hu => absurd hu Bool.false_ne_true⟩
    · have hsame : Function.update live .idle true = live := by
        rw [Function.update_eq_self_iff]
        exact hr.idle.1.symm
      rw [hsame]
      refine ⟨ctx, q, if_neg ?_, hr, href⟩
      rw [hr.isInitialized]
      exact Bool.noConfusion
  have ht' : Function.update live .idle true (.app t) = false := ht
  refine ⟨_, ?_, ⟨q, nthreadSetup_ready hcfg hr ht' hlev h8 vfDispatch⟩, fun u hu => ?_⟩
  · unfold nthreadInit
    rw [hcfg.asserts, require_false, ok_bind, hprep]
    rfl
  · rw [nthreadSetup_ref]
    by_cases hut : u = t
    · rw [hut, Function.update_self]
      exact Nat.two_pow_pos _
    · have hne : ThreadId.app u ≠ .app t := fun e => hut (ThreadId.app.inj e)
      rw [Function.update_of_ne hne]
      refine href u ?_
      rw [← Function.update_of_ne hne true (Function.update live .idle true)]
      exact hu

/-- **One call keeps the run queue**, unless a reference count goes round. -/
theorem SchedState.step (fuel : ℕ) (idleDispatch : V) (h : SchedState cfg ctx live)
    {op : SchedOp T V} (hl : LegalSchedOp cfg ctx live op)
    (hfit : ∀ t, op = .insert t → ctx.ref (.app t) ≠ 2 ^ cfg.fast32 - 1) :
    ∃ n ctx', runSchedOp cfg fuel idleDispatch ctx op = .ok (n, ctx') ∧
      (∃ q, Ready cfg ctx' (liveAfter live op) q) ∧
      (∀ t, liveAfter live op (.app t) = true → ctx'.ref (.app t) < 2 ^ cfg.fast32) ∧
      ∀ q, Ready cfg ctx live q → Selects q op n := by
  cases op with
  | init t priority vfDispatch =>
    obtain ⟨ht, hlev, h8⟩ := hl
    obtain ⟨ctx', hrun, hq, href⟩ := h.init hcfg fuel idleDispatch ht hlev h8 vfDispatch
    refine ⟨none, ctx', ?_, hq, href, fun _ _ => rfl⟩
    rw [runSchedOp, hrun, ok_bind]
    rfl
  | insert t =>
    obtain ⟨⟨q, hr⟩, href⟩ := hl.started nofun h
    have hlt : ctx.ref (.app t) + 1 < 2 ^ cfg.fast32 := by
      have h1 := href t hl
      have h2 := hfit t rfl
      omega
    obtain ⟨ctx', q', hrun, hr', href', _⟩ := nthreadInsertI_ready hcfg fuel hr hl hlt
    refine ⟨none, ctx', ?_, ⟨q', hr'⟩, ref_lt_of_update href' hlt href, fun _ _ => rfl⟩
    rw [runSchedOp, hrun, ok_bind]
    rfl
  | remove t =>
    obtain ⟨⟨q, hr⟩, href⟩ := hl.started nofun h
    obtain ⟨ctx', q', hrun, hr', href', _⟩ := nthreadRemoveI_ready hcfg hr hl.1 hl.2 (href t hl.1)
    have hlt : ctx.ref (.app t) - 1 < 2 ^ cfg.fast32 :=
      Nat.lt_of_le_of_lt (Nat.sub_le _ _) (href t hl.1)
    refine ⟨none, ctx', ?_, ⟨q', hr'⟩, ref_lt_of_update href' hlt href, fun _ _ => rfl⟩
    rw [runSchedOp, hrun, ok_bind]
    rfl
  | term t =>
    obtain ⟨⟨q, hr⟩, href⟩ := hl.started nofun h
    obtain ⟨ctx', q', hrun, hr', href'⟩ := nthreadTerm_ready hcfg hr hl
    refine ⟨none, ctx', ?_, ⟨q', hr'⟩, fun u hu => ?_, fun _ _ => rfl⟩
    · rw [runSchedOp, hrun, ok_bind]
      rfl
    · rw [href']
      refine href u ?_
      by_cases hut : ThreadId.app u = .app t
      · rw [hut] at hu
        rw [liveAfter, Function.update_self] at hu
        cases hu
      · rw [liveAfter, Function.update_of_ne hut] at hu
        exact hu
  | schedule =>
    obtain ⟨⟨q, hr⟩, href⟩ := hl.started nofun h
    obtain ⟨p, t, rest, hq, hmax⟩ := hr.exists_highest
    obtain ⟨ctx', hrun, hr', href', _, _⟩ := schedScheduleI_ready hcfg fuel hr hq hmax
    refine ⟨some (.thread t), ctx', ?_, ⟨_, hr'⟩, fun u hu => ?_, fun q₁ hr₁ => ?_⟩
    · rw [runSchedOp, hrun, ok_bind]
      rfl
    · rw [href']
      exact href u hu
    · rw [hr.unique hr₁]
      exact ⟨p, t, rest, rfl, hq, hmax⟩

/-- a reference count that goes round leaves a thread with count zero in the run queue -/
theorem insert_round_unsound (fuel : ℕ) (idleDispatch : V) (h : SchedState cfg ctx live) {t : T}
    (ht : live (.app t) = true) (hround : ctx.ref (.app t) = 2 ^ cfg.fast32 - 1)
    (ops : List (SchedOp T V)) :
    ¬ SchedSound cfg fuel idleDispatch ctx live (.insert t :: ops) := by
  rintro ⟨n, ctx', hrun, ⟨q', hr'⟩, _, _⟩
  have hlegal : LegalSchedOp (V := V) cfg ctx live (.insert t) := ht
  obtain ⟨⟨q, hr⟩, _⟩ := hlegal.started nofun h
  have hone := one_lt_fast32 hcfg
  have hpos : 0 < ctx.ref (.app t) := by omega
  have hins : nthreadInsertI cfg fuel ctx (.app t) = .ok (ctx.setRef (.app t) 0) := by
    unfold nthreadInsertI
    rw [hcfg.asserts, require_false, ok_bind, if_neg (Nat.ne_of_gt hpos), ok_bind]
    show Except.ok (ctx.setRef _ ((ctx.ref (.app t) + 1) % 2 ^ cfg.fast32)) = _
    rw [hround, Nat.sub_add_cancel (Nat.one_le_two_pow), Nat.mod_self]
  rw [runSchedOp, hins, ok_bind] at hrun
  have hctx : ctx' = ctx.setRef (.app t) 0 := (congrArg Prod.snd (Except.ok.inj hrun)).symm
  have hpB := (hr.prio_lt hcfg ht).1
  have hmem : ThreadId.app t ∈ q' (ctx.prio (.app t)) := by
    rw [hr.eq_at hr' (by rw [hctx]; rfl) hpB]
    exact (hr.mem _ _).mpr ⟨ht, rfl, hpos⟩
  have hzero := ((hr'.mem _ _).mp hmem).2.2
  rw [hctx, SchedCtx.ref_setRef, Function.update_self] at hzero
  exact Nat.lt_irrefl 0 hzero

theorem SchedState.sound_iff (fuel : ℕ) (idleDispatch : V) (ops : List (SchedOp T V)) :
    ∀ {ctx : SchedCtx 32 T V} {live : ThreadId T → Bool}, SchedState cfg ctx live →
      LegalSchedRun cfg fuel idleDispatch ctx live ops →
      (SchedSound cfg fuel idleDispatch ctx live ops ↔ RefsFit cfg fuel idleDispatch ctx ops) := by
  induction ops with
  | nil => exact fun _ _ => Iff.rfl
  | cons op ops ih =>
    intro ctx live h hl
    by_cases hfit : ∀ t, op = .insert t → ctx.ref (.app t) ≠ 2 ^ cfg.fast32 - 1
    · obtain ⟨n, ctx', hrun, hq, href, hsel⟩ := h.step hcfg fuel idleDispatch hl.1 hfit
      have hiff := ih (Or.inr ⟨hq, href⟩) (hl.2 n ctx' hrun)
      constructor
      · rintro ⟨n₁, ctx₁, hrun₁, _, _, hs⟩
        refine ⟨hfit, fun n₂ ctx₂ hrun₂ => ?_⟩
        obtain ⟨-, rfl⟩ := Prod.mk.inj (Except.ok.inj (hrun.symm.trans hrun₁))
        obtain ⟨-, rfl⟩ := Prod.mk.inj (Except.ok.inj (hrun.symm.trans hrun₂))
        exact hiff.mp hs
      · intro hf
        exact ⟨n, ctx', hrun, hq, hsel, hiff.mpr (hf.2 n ctx' hrun)⟩
    · refine iff_of_false ?_ (fun hf => hfit hf.1)
      push Not at hfit
      obtain ⟨t, hop, hround⟩ := hfit
      subst hop
      exact insert_round_unsound hcfg fuel idleDispatch h hl.1 hround ops

/-- **The run queue is right in every legal run iff no reference count goes round.** -/
theorem schedSound_iff_refsFit (fuel : ℕ) (idleDispatch : V) {ctx : SchedCtx 32 T V}
    (hctx : ctx.isInitialized = false) (ops : List (SchedOp T V))
    (hl : LegalSchedRun cfg fuel idleDispatch ctx (fun _ => false) ops) :
    SchedSound cfg fuel idleDispatch ctx (fun _ => false) ops ↔
      RefsFit cfg fuel idleDispatch ctx ops :=
  SchedState.sound_iff hcfg fuel idleDispatch ops (Or.inl ⟨hctx, rfl⟩) hl

end

/-- 32 levels and buckets on a 32-bit port -/
def cfg32 : SchedConfig where
  levels := 32
  buckets := 32
  debug := false
  apiValidation := false
  dataWidth := 32
  fast8 := 8
  fast32 := 32
  ncoreLog2 := Nat.log2

theorem cfg32_oneBucketPerLevel : OneBucketPerLevel cfg32 where
  dataWidth := rfl
  fast8_ge := le_refl _
  fast8_le := by decide
  log2 := fun _ _ _ => rfl
  levels := rfl
  pos := by decide
  count := by decide
  fast32 := le_refl _
  asserts := rfl

theorem schedSound_iff_refsFit_example :
    SchedSound cfg32 0 () SchedCtx.init (fun _ => false)
        [.init true 3 (), .insert true, .schedule, .remove true, .term true] ↔
      RefsFit cfg32 0 () SchedCtx.init
        [.init true 3 (), .insert true, .schedule, .remove true, .term true] := by
  refine schedSound_iff_refsFit cfg32_oneBucketPerLevel 0 () rfl _
    ⟨⟨rfl, by decide, by decide⟩, fun n ctx h => ⟨rfl, fun n₁ ctx₁ h₁ => ⟨?_, fun n₂ ctx₂ h₂ =>
      ⟨⟨rfl, ?_⟩, fun _ _ _ => ⟨rfl, fun _ _ _ => trivial⟩⟩⟩⟩⟩
  · rw [← (Prod.mk.inj (Except.ok.inj h)).2] at h₁
    rw [← (Prod.mk.inj (Except.ok.inj h₁)).2]
    rfl
  · rw [← (Prod.mk.inj (Except.ok.inj h)).2] at h₁
    rw [← (Prod.mk.inj (Except.ok.inj h₁)).2] at h₂
    rw [← (Prod.mk.inj (Except.ok.inj h₂)).2]
    exact Nat.one_pos

section
variable {cfg : SchedConfig}

theorem legalSchedRun_inserts (fuel : ℕ) (idleDispatch : V) {live : ThreadId T → Bool} {t : T}
    (ht : live (.app t) = true) (n : ℕ) : ∀ ctx : SchedCtx 32 T V,
      LegalSchedRun cfg fuel idleDispatch ctx live (List.replicate n (.insert t)) := by
  induction n with
  | zero => exact fun _ => trivial
  | succ n ih => exact fun _ => ⟨ht, fun _ ctx' _ => ih ctx'⟩

/-- the count that goes round -/
theorem inserts_unsound (hcfg : OneBucketPerLevel cfg) (fuel : ℕ) (idleDispatch : V)
    {live : ThreadId T → Bool} {t : T} (ht : live (.app t) = true) (n : ℕ) :
    ∀ {ctx : SchedCtx 32 T V}, SchedState cfg ctx live → ctx.ref (.app t) < 2 ^ cfg.fast32 →
      2 ^ cfg.fast32 ≤ ctx.ref (.app t) + n →
      ¬ SchedSound cfg fuel idleDispatch ctx live (List.replicate n (.insert t)) := by
  induction n with
  | zero =>
    intro ctx _ hlt hle
    omega
  | succ n ih =>
    intro ctx h hlt hle hs
    rw [List.replicate_succ] at hs
    by_cases hround : ctx.ref (.app t) = 2 ^ cfg.fast32 - 1
    · exact insert_round_unsound hcfg fuel idleDispatch h ht hround _ hs
    · obtain ⟨⟨q, hr⟩, href⟩ := h.resolve_left (fun hc => by rw [hc.2] at ht; cases ht)
      have hfit : ctx.ref (.app t) + 1 < 2 ^ cfg.fast32 := by omega
      obtain ⟨ctx', q', hrun, hr', href', _⟩ := nthreadInsertI_ready hcfg fuel hr ht hfit
      obtain ⟨m, ctx₁, hrun₁, _, _, hs₁⟩ := hs
      rw [runSchedOp, hrun, ok_bind] at hrun₁
      obtain ⟨-, rfl⟩ := Prod.mk.inj (Except.ok.inj hrun₁)
      have hself : ctx'.ref (.app t) = ctx.ref (.app t) + 1 := by
        rw [href', Function.update_self]
      refine ih (Or.inr ⟨⟨q', hr'⟩, fun u hu => ?_⟩) (by omega) (by omega) hs₁
      by_cases hut : u = t
      · rw [hut, hself]
        exact hfit
      · rw [href', Function.update_of_ne (fun e => hut (ThreadId.app.inj e))]
        exact href u hu

end

/-- a thread is inserted `2 ^ 32` times -/
def insertsRound : List (SchedOp Unit Unit) :=
  .init () 0 () :: List.replicate (2 ^ 32) (.insert ())

theorem insertsRound_unsound :
    OneBucketPerLevel cfg32 ∧
    LegalSchedRun cfg32 0 () SchedCtx.init (fun _ => false) insertsRound ∧
    ¬ SchedSound cfg32 0 () SchedCtx.init (fun _ => false) insertsRound := by
  have hstate : SchedState cfg32 (SchedCtx.init : SchedCtx 32 Unit Unit) (fun _ => false) :=
    Or.inl ⟨rfl, rfl⟩
  obtain ⟨ctx, hrun, hq, href⟩ := hstate.init cfg32_oneBucketPerLevel 0 () (t := ()) rfl
    (show 0 < 32 by decide) (by decide) ()
  refine ⟨cfg32_oneBucketPerLevel, ⟨⟨rfl, by decide, by decide⟩, fun n ctx₁ _ =>
    legalSchedRun_inserts 0 () rfl _ ctx₁⟩, ?_⟩
  rintro ⟨n, ctx₁, hrun₁, _, _, hs⟩
  rw [runSchedOp, hrun, ok_bind] at hrun₁
  obtain ⟨-, rfl⟩ := Prod.mk.inj (Except.ok.inj hrun₁)
  exact inserts_unsound cfg32_oneBucketPerLevel 0 () rfl _ (Or.inr ⟨hq, href⟩) (href () rfl)
    (Nat.le_add_left _ _) hs

end NeonEds
