import NeonEds.Lib.RoundRobin
import NeonEds.Sched.Runs

/-!
# Fairness among threads of one priority

`schedCalls` is a run with what each call returns and leaves.  `RoundRobin calls`: between two
consecutive dispatches of a thread every other thread of its priority that is ready all the time is
dispatched, and exactly once if the thread is ready all the time as well.

The list of a bucket is a queue that is served in turn, `TurnRun`: `nthread_insert_i` joins it,
`nthread_remove_i` leaves it, and a dispatch serves the first one (`Ready.turnStep`).

`schedCalls_roundRobin`: legal runs are fair while no reference count goes round.
-/

set_option linter.unusedSectionVars false

namespace NeonEds
open Exec

variable {T V : Type} [DecidableEq T]

/-- a call of a run, with the node that it returns and what it leaves; `live` are the threads in use -/
structure SchedCall (T V : Type) where
  op : SchedOp T V
  node : Option (SchedNode T)
  after : SchedCtx 32 T V
  live : ThreadId T → Bool

def schedCalls (cfg : SchedConfig) (fuel : ℕ) (idleDispatch : V) : SchedCtx 32 T V →
    (ThreadId T → Bool) → List (SchedOp T V) → Exec (List (SchedCall T V))
  | _, _, [] => .ok []
  | ctx, live, op :: ops => do
    let (n, ctx') ← runSchedOp cfg fuel idleDispatch ctx op
    let calls ← schedCalls cfg fuel idleDispatch ctx' (liveAfter live op) ops
    return ⟨op, n, ctx', liveAfter live op⟩ :: calls

/-- `nthread_insert_i`, `nthread_remove_i` or `sched_schedule_i` -/
def SchedOp.KeepsThreads : SchedOp T V → Prop
  | .init _ _ _ => False
  | .term _ => False
  | _ => True

namespace SchedCall

def Dispatches (e : SchedCall T V) (t : ThreadId T) : Prop := e.node = some (.thread t)

/-- the thread is in use, and its reference count is positive -/
def IsReady (e : SchedCall T V) (t : ThreadId T) : Prop := e.live t = true ∧ 0 < e.after.ref t

end SchedCall

/-- how often `t` is dispatched -/
def dispatchCount (t : ThreadId T) (calls : List (SchedCall T V)) : ℕ :=
  (calls.map SchedCall.node).count (some (.thread t))

/-- between two consecutive dispatches of `a` -/
def RoundRobin (calls : List (SchedCall T V)) : Prop :=
  ∀ a b before first mid last rest, calls = before ++ first :: (mid ++ last :: rest) →
    first.Dispatches a → last.Dispatches a → (∀ e ∈ mid, ¬ e.Dispatches a) →
    (∀ e ∈ mid, e.op.KeepsThreads) → b ≠ a → first.after.prio b = first.after.prio a →
    (∀ e ∈ first :: (mid ++ [last]), e.IsReady b) →
      1 ≤ dispatchCount b mid ∧
        ((∀ e ∈ first :: (mid ++ [last]), e.IsReady a) → dispatchCount b mid = 1)

/-! ## the queue of one priority -/

/-- the thread that has its turn among those of priority `p` -/
def turnOf (prio : ThreadId T → ℕ) (p : ℕ) : Option (SchedNode T) → Option (ThreadId T)
  | some (.thread t) => if prio t = p then some t else none
  | _ => none

open Classical in
/-- the lists of the buckets -/
noncomputable def readyQueue (cfg : SchedConfig) (ctx : SchedCtx 32 T V) (live : ThreadId T → Bool) :
    ℕ → List (ThreadId T) :=
  if h : ∃ q, Ready cfg ctx live q then h.choose else fun _ => []

/-- what a call is to the queue of the priority `p` -/
noncomputable def turnAt (cfg : SchedConfig) (prio : ThreadId T → ℕ) (p : ℕ) (e : SchedCall T V) :
    Option (ThreadId T) × List (ThreadId T) :=
  (turnOf prio p e.node, readyQueue cfg e.after e.live p)

section
variable {cfg : SchedConfig} {ctx : SchedCtx 32 T V} {live : ThreadId T → Bool}
  {q : ℕ → List (ThreadId T)} {prio : ThreadId T → ℕ} {p : ℕ}

theorem Ready.readyQueue_eq (h : Ready cfg ctx live q) : readyQueue cfg ctx live = q := by
  have hex : ∃ q, Ready cfg ctx live q := ⟨q, h⟩
  rw [readyQueue, dif_pos hex]
  exact h.unique hex.choose_spec

theorem turnOf_eq_some {n : Option (SchedNode T)} {t : ThreadId T} :
    turnOf prio p n = some t ↔ n = some (.thread t) ∧ prio t = p := by
  match n with
  | none => simp [turnOf]
  | some (.sentinel b) => simp [turnOf]
  | some (.thread u) =>
    rw [turnOf]
    by_cases hu : prio u = p
    · rw [if_pos hu]
      simp only [Option.some.injEq, SchedNode.thread.injEq]
      exact ⟨fun e => ⟨e, e ▸ hu⟩, And.left⟩
    · rw [if_neg hu]
      simp only [reduceCtorEq, Option.some.injEq, SchedNode.thread.injEq, false_iff, not_and]
      exact fun e ht => hu (e ▸ ht)

theorem dispatchCount_eq {b : ThreadId T} (hb : prio b = p) (calls : List (SchedCall T V)) :
    dispatchCount b calls = ((calls.map (turnAt cfg prio p)).map Prod.fst).count (some b) := by
  unfold dispatchCount
  induction calls with
  | nil => rfl
  | cons e calls ih =>
    simp only [List.map_cons, List.count_cons, ih]
    have hiff : (e.node = some (.thread b)) ↔ (turnAt cfg prio p e).1 = some b :=
      ⟨fun h => turnOf_eq_some.mpr ⟨h, hb⟩, fun h => (turnOf_eq_some.mp h).1⟩
    simp only [beq_iff_eq, hiff]

end

section
variable {cfg : SchedConfig} (hcfg : OneBucketPerLevel cfg) {fuel : ℕ} {idleDispatch : V}
  {ctx : SchedCtx 32 T V} {live : ThreadId T → Bool} {q : ℕ → List (ThreadId T)}
include hcfg

/-- **A call is a step of the queue of every priority.** -/
theorem Ready.turnStep (h : Ready cfg ctx live q)
    (href : ∀ t, live (.app t) = true → ctx.ref (.app t) < 2 ^ cfg.fast32) {op : SchedOp T V}
    (hop : op.KeepsThreads) (hl : LegalSchedOp cfg ctx live op)
    (hfit : ∀ t, op = .insert t → ctx.ref (.app t) ≠ 2 ^ cfg.fast32 - 1) :
    ∃ n ctx' q', runSchedOp cfg fuel idleDispatch ctx op = .ok (n, ctx') ∧
      Ready cfg ctx' live q' ∧ ctx'.prio = ctx.prio ∧
      ∀ p, TurnStep (q p) (turnOf ctx.prio p n) (q' p) := by
  cases op with
  | init _ _ _ => exact hop.elim
  | term _ => exact hop.elim
  | insert t =>
    have hlt : ctx.ref (.app t) + 1 < 2 ^ cfg.fast32 := by
      have h1 := href t hl
      have h2 := hfit t rfl
      omega
    obtain ⟨ctx', q', hrun, hr', _, hprio, hq'⟩ := nthreadInsertI_ready hcfg fuel h hl hlt
    refine ⟨none, ctx', q', ?_, hr', hprio, fun p => ?_⟩
    · rw [runSchedOp, hrun, ok_bind]
      rfl
    · rcases hq' p with hp | ⟨hp, hp'⟩
      · rw [hp]
        exact .keep _
      · rw [hp']
        exact .join hp
  | remove t =>
    obtain ⟨ctx', q', hrun, hr', _, hprio, hq'⟩ :=
      nthreadRemoveI_ready hcfg h hl.1 hl.2 (href t hl.1)
    refine ⟨none, ctx', q', ?_, hr', hprio, fun p => ?_⟩
    · rw [runSchedOp, hrun, ok_bind]
      rfl
    · rcases hq' p with hp | hp
      · rw [hp]
        exact .keep _
      · rw [hp]
        exact .leave _ _
  | schedule =>
    obtain ⟨p₀, t, rest, hq, hmax⟩ := h.exists_highest
    obtain ⟨ctx', hrun, hr', _, hprio, _⟩ := schedScheduleI_ready hcfg fuel h hq hmax
    refine ⟨some (.thread t), ctx', _, ?_, hr', hprio, fun p => ?_⟩
    · rw [runSchedOp, hrun, ok_bind]
      rfl
    · have ht : ctx.prio t = p₀ := ((h.mem p₀ t).mp (hq ▸ List.mem_cons_self)).2.1
      by_cases hp : p = p₀
      · rw [hp, Function.update_self, hq, turnOf_eq_some.mpr ⟨rfl, ht⟩]
        exact .serve t rest
      · rw [Function.update_of_ne hp, turnOf, if_neg (fun e => hp (e.symm.trans ht))]
        exact .keep _

/-! ## runs -/

/-- a legal run from `ctx` on in which no reference count goes round -/
structure FitRun (cfg : SchedConfig) (fuel : ℕ) (idleDispatch : V) (ctx : SchedCtx 32 T V)
    (live : ThreadId T → Bool) (ops : List (SchedOp T V)) (calls : List (SchedCall T V)) : Prop where
  state : SchedState cfg ctx live
  legal : LegalSchedRun cfg fuel idleDispatch ctx live ops
  fit : RefsFit cfg fuel idleDispatch ctx ops
  calls : schedCalls cfg fuel idleDispatch ctx live ops = .ok calls

theorem FitRun.exists_calls (ops : List (SchedOp T V)) : ∀ {ctx : SchedCtx 32 T V}
    {live : ThreadId T → Bool}, SchedState cfg ctx live →
    LegalSchedRun cfg fuel idleDispatch ctx live ops → RefsFit cfg fuel idleDispatch ctx ops →
      ∃ calls, FitRun cfg fuel idleDispatch ctx live ops calls := by
  induction ops with
  | nil => exact fun h hl hf => ⟨[], h, hl, hf, rfl⟩
  | cons op ops ih =>
    intro ctx live h hl hf
    obtain ⟨n, ctx', hrun, hq, href, _⟩ := h.step hcfg fuel idleDispatch hl.1 hf.1
    obtain ⟨calls, hc⟩ := ih (.inr ⟨hq, href⟩) (hl.2 n ctx' hrun) (hf.2 n ctx' hrun)
    refine ⟨⟨op, n, ctx', liveAfter live op⟩ :: calls, h, hl, hf, ?_⟩
    rw [schedCalls, hrun, ok_bind]
    show (schedCalls cfg fuel idleDispatch ctx' (liveAfter live op) ops >>= _) = _
    rw [hc.calls]
    rfl

variable {ops : List (SchedOp T V)} {calls : List (SchedCall T V)} {e : SchedCall T V}

theorem FitRun.head (h : FitRun cfg fuel idleDispatch ctx live ops (e :: calls)) :
    LegalSchedOp cfg ctx live e.op ∧ (∀ t, e.op = .insert t → ctx.ref (.app t) ≠ 2 ^ cfg.fast32 - 1) ∧
      runSchedOp cfg fuel idleDispatch ctx e.op = .ok (e.node, e.after) ∧
      e.live = liveAfter live e.op ∧
      ∃ ops', FitRun cfg fuel idleDispatch e.after e.live ops' calls := by
  obtain ⟨hs, hl, hf, hc⟩ := h
  cases ops with
  | nil => cases hc
  | cons op ops =>
    rw [schedCalls] at hc
    obtain ⟨⟨n, ctx'⟩, hrun, hc⟩ := bind_eq_ok.mp hc
    obtain ⟨calls', hrest, hc⟩ := bind_eq_ok.mp hc
    obtain ⟨rfl, rfl⟩ := List.cons.inj (Except.ok.inj hc)
    obtain ⟨n₁, ctx₁, hrun₁, hq, href, _⟩ := hs.step hcfg fuel idleDispatch hl.1 hf.1
    obtain ⟨rfl, rfl⟩ := Prod.mk.inj (Except.ok.inj (hrun.symm.trans hrun₁))
    exact ⟨hl.1, hf.1, hrun, rfl, ops, .inr ⟨hq, href⟩, hl.2 _ _ hrun, hf.2 _ _ hrun, hrest⟩

theorem FitRun.drop (before : List (SchedCall T V)) : ∀ {ctx : SchedCtx 32 T V}
    {live : ThreadId T → Bool} {ops : List (SchedOp T V)},
    FitRun cfg fuel idleDispatch ctx live ops (before ++ calls) →
      ∃ ctx' live' ops', FitRun cfg fuel idleDispatch ctx' live' ops' calls := by
  induction before with
  | nil => exact fun h => ⟨_, _, _, h⟩
  | cons e before ih =>
    intro ctx live ops h
    obtain ⟨_, _, _, _, ops', h'⟩ := h.head hcfg
    exact ih h'

/-- a call that neither initialises nor terminates a thread, as a step of all queues -/
theorem FitRun.turn (h : FitRun cfg fuel idleDispatch ctx live ops (e :: calls))
    (hq : Ready cfg ctx live q) (hop : e.op.KeepsThreads) :
    Ready cfg e.after e.live (readyQueue cfg e.after e.live) ∧ e.after.prio = ctx.prio ∧
      ∀ p, TurnStep (q p) (turnAt cfg ctx.prio p e).1 (turnAt cfg ctx.prio p e).2 := by
  obtain ⟨hl, hf, hrun, hlive, _⟩ := h.head hcfg
  have href : ∀ t, live (.app t) = true → ctx.ref (.app t) < 2 ^ cfg.fast32 := by
    rcases h.state with ⟨h0, _⟩ | ⟨_, href⟩
    · exact absurd (hq.isInitialized.symm.trans h0) (by simp)
    · exact href
  obtain ⟨n, ctx', q', hrun', hq', hprio, hturn⟩ := hq.turnStep hcfg href hop hl hf
  obtain ⟨rfl, rfl⟩ := Prod.mk.inj (Except.ok.inj (hrun.symm.trans hrun'))
  have hsame : e.live = live := by
    rw [hlive]
    cases hopc : e.op with
    | init t priority vfDispatch =>
      rw [hopc] at hop
      exact hop.elim
    | term t =>
      rw [hopc] at hop
      exact hop.elim
    | _ => rfl
  rw [← hsame] at hq'
  refine ⟨hq'.readyQueue_eq.symm ▸ hq', hprio, fun p => ?_⟩
  show TurnStep (q p) (turnOf ctx.prio p e.node) (readyQueue cfg e.after e.live p)
  rw [hq'.readyQueue_eq]
  exact hturn p

/-- **Between initialisations the queue of a priority is served in turn.** -/
theorem FitRun.turnRun (p : ℕ) (seg : List (SchedCall T V)) : ∀ {ctx : SchedCtx 32 T V}
    {live : ThreadId T → Bool} {ops : List (SchedOp T V)} {q : ℕ → List (ThreadId T)},
    FitRun cfg fuel idleDispatch ctx live ops (seg ++ calls) → Ready cfg ctx live q →
    (∀ e ∈ seg, e.op.KeepsThreads) →
      TurnRun (q p) (seg.map (turnAt cfg ctx.prio p)) ∧
      ∀ e ∈ seg, Ready cfg e.after e.live (readyQueue cfg e.after e.live) ∧
        e.after.prio = ctx.prio := by
  induction seg with
  | nil => exact fun _ _ _ => ⟨.nil _, nofun⟩
  | cons e seg ih =>
    intro ctx live ops q h hq hops
    obtain ⟨hq', hprio, hturn⟩ := h.turn hcfg hq (hops e List.mem_cons_self)
    obtain ⟨_, _, _, _, ops', h'⟩ := h.head hcfg
    obtain ⟨hrun, hall⟩ := ih h' hq' (fun e he => hops e (List.mem_cons_of_mem _ he))
    rw [hprio] at hrun hall
    refine ⟨.cons (hturn p) hrun, fun e' he => ?_⟩
    rcases List.mem_cons.mp he with rfl | he
    · exact ⟨hq', hprio⟩
    · exact hall e' he

theorem runSchedOp_some {op : SchedOp T V} {n : SchedNode T} {ctx' : SchedCtx 32 T V}
    (h : runSchedOp cfg fuel idleDispatch ctx op = .ok (some n, ctx')) : op = .schedule := by
  cases op with
  | schedule => rfl
  | _ =>
    obtain ⟨_, _, h⟩ := bind_eq_ok.mp h
    cases Except.ok.inj h

theorem FitRun.dispatched (h : FitRun cfg fuel idleDispatch ctx live ops (e :: calls))
    {a : ThreadId T} (ha : e.Dispatches a) :
    e.op.KeepsThreads ∧ Ready cfg e.after e.live (readyQueue cfg e.after e.live) ∧
      ∃ xs, readyQueue cfg e.after e.live (e.after.prio a) = xs ++ [a] := by
  obtain ⟨hl, _, hrun, _⟩ := h.head hcfg
  have hop : e.op = .schedule := runSchedOp_some hcfg (ha ▸ hrun)
  rw [hop] at hl
  obtain ⟨⟨q, hq⟩, _⟩ := hl.started nofun h.state
  have hkeeps : e.op.KeepsThreads := by
    rw [hop]
    trivial
  obtain ⟨hq', hprio, hturn⟩ := h.turn hcfg hq hkeeps
  have hserve := hturn (e.after.prio a)
  rw [turnAt, turnOf_eq_some.mpr ⟨ha, congrFun hprio.symm a⟩] at hserve
  obtain ⟨xs, _, hxs⟩ := hserve.served
  exact ⟨hkeeps, hq', xs, hxs⟩

theorem FitRun.roundRobin (h : FitRun cfg fuel idleDispatch ctx live ops calls) :
    RoundRobin calls := by
  intro a b before first mid last rest hcalls hfirst hlast hmid hops hne hab hb
  rw [hcalls] at h
  obtain ⟨ctx₀, live₀, ops₀, h₀⟩ := h.drop hcfg before
  obtain ⟨_, hq, xs, hxs⟩ := h₀.dispatched hcfg hfirst
  obtain ⟨_, _, _, _, ops₁, h₁⟩ := h₀.head hcfg
  obtain ⟨ctx₂, live₂, ops₂, h₂⟩ := h₁.drop hcfg mid
  obtain ⟨hlastKeeps, _⟩ := h₂.dispatched hcfg hlast
  -- the queue of their priority, from the first dispatch on
  generalize hp : first.after.prio a = p at hxs hab
  have hkeeps : ∀ e ∈ mid ++ [last], e.op.KeepsThreads := by
    intro e he
    rcases List.mem_append.mp he with he | he
    · exact hops e he
    · exact List.mem_singleton.mp he ▸ hlastKeeps
  rw [List.append_cons] at h₁
  obtain ⟨hturns, hall⟩ := h₁.turnRun hcfg p (mid ++ [last]) hq hkeeps
  have hmem : ∀ {t}, first.after.prio t = p → ∀ e ∈ mid ++ [last], e.IsReady t →
      t ∈ (turnAt cfg first.after.prio p e).2 := by
    intro t ht e he hready
    obtain ⟨hqe, hprio⟩ := hall e he
    exact (hqe.mem p t).mpr ⟨hready.1, (congrFun hprio t).trans ht, hready.2⟩
  have hnd := hq.toLinked.nodup p
  have hbm := (hq.mem p b).mpr ⟨(hb first List.mem_cons_self).1, hab,
    (hb first List.mem_cons_self).2⟩
  rw [hxs] at hturns hnd hbm
  have hbx : b ∈ xs := by
    rcases List.mem_append.mp hbm with hbx | hba
    · exact hbx
    · exact absurd (List.mem_singleton.mp hba) hne
  rw [List.map_append, List.map_singleton,
    show turnAt cfg first.after.prio p last = (some a, (turnAt cfg first.after.prio p last).2) from
      Prod.ext (turnOf_eq_some.mpr ⟨hlast, hp⟩) rfl] at hturns
  have hstay : ∀ {t}, first.after.prio t = p → (∀ e ∈ first :: (mid ++ [last]), e.IsReady t) →
      ∀ x ∈ mid.map (turnAt cfg first.after.prio p), t ∈ x.2 := by
    intro t ht hready x hx
    obtain ⟨e, he, rfl⟩ := List.mem_map.mp hx
    have he' := List.mem_append_left [last] he
    exact hmem ht e he' (hready e (List.mem_cons_of_mem _ he'))
  have hlastMem : last ∈ mid ++ [last] := by simp
  have hnot : some a ∉ (mid.map (turnAt cfg first.after.prio p)).map Prod.fst := by
    intro hm
    simp only [List.map_map, List.mem_map, Function.comp_apply] at hm
    obtain ⟨e, he, hturn⟩ := hm
    exact hmid e he (turnOf_eq_some.mp hturn).1
  obtain ⟨honce, hexact⟩ := hturns.fair hnd hbx (hstay hab hb)
    (hmem hab last hlastMem (hb last (List.mem_cons_of_mem _ hlastMem))) hnot
  rw [dispatchCount_eq hab]
  exact ⟨List.count_pos_iff.mpr honce, fun ha => hexact (hstay hp ha)⟩

/-- **A legal run is fair while no reference count goes round.** -/
theorem schedCalls_roundRobin (fuel : ℕ) (idleDispatch : V) {ctx : SchedCtx 32 T V}
    (hctx : ctx.isInitialized = false) (ops : List (SchedOp T V))
    (hl : LegalSchedRun cfg fuel idleDispatch ctx (fun _ => false) ops)
    (hf : RefsFit cfg fuel idleDispatch ctx ops) :
    ∃ calls, schedCalls cfg fuel idleDispatch ctx (fun _ => false) ops = .ok calls ∧
      RoundRobin calls := by
  obtain ⟨calls, h⟩ := FitRun.exists_calls hcfg ops (.inl ⟨hctx, rfl⟩) hl hf
  exact ⟨calls, h.calls, h.roundRobin hcfg⟩

end

section
variable {cfg : SchedConfig} {fuel : ℕ} {idleDispatch : V} {ctx : SchedCtx 32 T V}

theorem schedCalls_cons {op : SchedOp T V} {n : Option (SchedNode T)} {ctx' : SchedCtx 32 T V}
    (h : runSchedOp cfg fuel idleDispatch ctx op = .ok (n, ctx')) (live : ThreadId T → Bool)
    (ops : List (SchedOp T V)) : schedCalls cfg fuel idleDispatch ctx live (op :: ops) =
      (schedCalls cfg fuel idleDispatch ctx' (liveAfter live op) ops).map
        (⟨op, n, ctx', liveAfter live op⟩ :: ·) := by
  rw [schedCalls, h, ok_bind]
  show (schedCalls cfg fuel idleDispatch ctx' (liveAfter live op) ops >>= _) = _
  cases schedCalls cfg fuel idleDispatch ctx' (liveAfter live op) ops <;> rfl

theorem SchedCtx.setRef_setRef (ctx : SchedCtx 32 T V) (t : ThreadId T) (x y : ℕ) :
    (ctx.setRef t x).setRef t y = ctx.setRef t y := by
  simp [SchedCtx.setRef, SchedCtx.setThread]

theorem schedCalls_inserts (fuel : ℕ) (idleDispatch : V) (hasserts : cfg.asserts = false) (t : T)
    (live : ThreadId T → Bool) (n : ℕ) : ∀ ctx : SchedCtx 32 T V,
    0 < ctx.ref (.app t) → ctx.ref (.app t) + n < 2 ^ cfg.fast32 →
      ∃ calls, ∀ ops, schedCalls cfg fuel idleDispatch ctx live (List.replicate n (.insert t) ++ ops) =
        (schedCalls cfg fuel idleDispatch (ctx.setRef (.app t) (ctx.ref (.app t) + n)) live ops).map
          (calls ++ ·) := by
  induction n with
  | zero =>
    intro ctx _ _
    refine ⟨[], fun ops => ?_⟩
    have hsame : ctx.setRef (.app t) (ctx.ref (.app t) + 0) = ctx := by
      simp [SchedCtx.setRef, SchedCtx.setThread, SchedCtx.ref]
    rw [hsame, List.replicate_zero, List.nil_append]
    cases schedCalls cfg fuel idleDispatch ctx live ops <;> rfl
  | succ n ih =>
    intro ctx hpos hlt
    have hself : (ctx.setRef (.app t) (ctx.ref (.app t) + 1)).ref (.app t) = ctx.ref (.app t) + 1 := by
      rw [SchedCtx.ref_setRef, Function.update_self]
    obtain ⟨calls, hcalls⟩ := ih (ctx.setRef (.app t) (ctx.ref (.app t) + 1))
      (by rw [hself]; omega) (by rw [hself]; omega)
    have hrun : runSchedOp cfg fuel idleDispatch ctx (.insert t) =
        .ok (none, ctx.setRef (.app t) (ctx.ref (.app t) + 1)) := by
      rw [runSchedOp, nthreadInsertI, hasserts, require_false, ok_bind, if_neg (Nat.ne_of_gt hpos),
        ok_bind]
      show Except.ok (none, ctx.setRef (.app t) ((ctx.ref (.app t) + 1) % 2 ^ cfg.fast32)) = _
      rw [Nat.mod_eq_of_lt (by omega)]
    refine ⟨⟨.insert t, none, ctx.setRef (.app t) (ctx.ref (.app t) + 1), live⟩ :: calls, fun ops => ?_⟩
    rw [List.replicate_succ, List.cons_append, schedCalls_cons hrun]
    show (schedCalls cfg fuel idleDispatch _ live _).map _ = _
    have hsum : ctx.ref (.app t) + 1 + n = ctx.ref (.app t) + (n + 1) := by omega
    rw [hcalls, hself, SchedCtx.setRef_setRef, hsum]
    cases schedCalls cfg fuel idleDispatch _ live ops <;> rfl

theorem legalSchedRun_ready {live : ThreadId T → Bool} (ops : List (SchedOp T V)) :
    ∀ {ctx : SchedCtx 32 T V}, ctx.isInitialized = true →
      (∀ op ∈ ops, op = .schedule ∨ ∃ t, op = .insert t ∧ live (.app t) = true) →
      LegalSchedRun cfg fuel idleDispatch ctx live ops := by
  induction ops with
  | nil => exact fun _ _ => trivial
  | cons op ops ih =>
    intro ctx hinit hops
    have hrest : ∀ o ∈ ops, o = .schedule ∨ ∃ t, o = .insert t ∧ live (.app t) = true :=
      fun o ho => hops o (List.mem_cons_of_mem _ ho)
    rcases hops op List.mem_cons_self with rfl | ⟨t, rfl, ht⟩
    · refine ⟨hinit, fun n ctx' h => ih ?_ hrest⟩
      obtain ⟨⟨m, ctx₁⟩, hrun, h⟩ := bind_eq_ok.mp h
      rw [← (Prod.mk.inj (Except.ok.inj h)).2, (schedScheduleI_writes hrun).2, hinit]
    · refine ⟨ht, fun n ctx' h => ih ?_ hrest⟩
      obtain ⟨ctx₁, hrun, h⟩ := bind_eq_ok.mp h
      rw [← (Prod.mk.inj (Except.ok.inj h)).2, (nthreadInsertI_writes hrun).2, hinit]

end

theorem legalSchedRun_pair {ops : List (SchedOp Bool Unit)}
    (hops : ∀ op ∈ ops, op = .schedule ∨ ∃ t, op = .insert t) :
    LegalSchedRun cfg32 0 () SchedCtx.init (fun _ => false)
      (.init true 1 () :: .init false 1 () :: ops) := by
  refine ⟨⟨rfl, by decide, by decide⟩, fun _ ctx₁ h₁ => ?_⟩
  rw [← (Prod.mk.inj (Except.ok.inj h₁)).2]
  refine ⟨⟨rfl, by decide, by decide⟩, fun _ ctx₂ h₂ => ?_⟩
  rw [← (Prod.mk.inj (Except.ok.inj h₂)).2]
  refine legalSchedRun_ready _ rfl fun op hop => ?_
  rcases hops op hop with hop | ⟨t, hop⟩
  · exact .inl hop
  · exact .inr ⟨t, hop, by cases t <;> rfl⟩

/-- two threads that are dispatched in turn -/
theorem schedCalls_roundRobin_two :
    ∃ calls, schedCalls cfg32 0 () SchedCtx.init (fun _ => false)
        [.init true 1 (), .init false 1 (), .insert true, .insert false, .schedule, .schedule,
          .schedule] = .ok calls ∧ RoundRobin calls := by
  refine schedCalls_roundRobin cfg32_oneBucketPerLevel 0 () rfl _ ?_ ?_
  · refine legalSchedRun_pair fun op hop => ?_
    simp only [List.mem_cons, List.not_mem_nil, or_false] at hop
    rcases hop with rfl | rfl | rfl | rfl | rfl
    · exact .inr ⟨true, rfl⟩
    · exact .inr ⟨false, rfl⟩
    · exact .inl rfl
    · exact .inl rfl
    · exact .inl rfl
  · refine ⟨nofun, fun _ ctx₁ h₁ => ⟨nofun, fun _ ctx₂ h₂ => ⟨fun t ht => ?_, fun _ ctx₃ h₃ =>
      ⟨fun t ht => ?_, fun _ _ _ => ⟨nofun, fun _ _ _ => ⟨nofun, fun _ _ _ => ⟨nofun,
        fun _ _ _ => trivial⟩⟩⟩⟩⟩⟩⟩
    · obtain rfl := SchedOp.insert.inj ht
      rw [← (Prod.mk.inj (Except.ok.inj h₁)).2] at h₂
      rw [← (Prod.mk.inj (Except.ok.inj h₂)).2]
      exact nofun
    · obtain rfl := SchedOp.insert.inj ht
      rw [← (Prod.mk.inj (Except.ok.inj h₁)).2] at h₂
      rw [← (Prod.mk.inj (Except.ok.inj h₂)).2] at h₃
      rw [← (Prod.mk.inj (Except.ok.inj h₃)).2]
      exact nofun

/-- two threads of one priority; the first one is inserted until its reference count goes round, and
once more -/
def insertsTwice : List (SchedOp Bool Unit) :=
  .init true 1 () :: .init false 1 () :: .insert true :: .insert false ::
    (List.replicate (2 ^ 32 - 2) (.insert true) ++ [.insert true, .insert true, .schedule, .schedule])

/-- the thread is on its list twice and hides the other one -/
theorem insertsTwice_unfair :
    LegalSchedRun cfg32 0 () SchedCtx.init (fun _ => false) insertsTwice ∧
    ¬ ∃ calls, schedCalls cfg32 0 () SchedCtx.init (fun _ => false) insertsTwice = .ok calls ∧
      RoundRobin calls := by
  let a : ThreadId Bool := .app true
  let b : ThreadId Bool := .app false
  have hrun : (do
      let c₁ ← runSchedOp cfg32 0 () SchedCtx.init (.init true 1 ())
      let c₂ ← runSchedOp cfg32 0 () c₁.2 (.init false 1 ())
      let c₃ ← runSchedOp cfg32 0 () c₂.2 (.insert true)
      let c₄ ← runSchedOp cfg32 0 () c₃.2 (.insert false)
      let tail ← schedCalls cfg32 0 () (c₄.2.setRef a (c₄.2.ref a + (2 ^ 32 - 2))) (fun _ => true)
        [.insert true, .insert true, .schedule, .schedule]
      .ok (c₄.2.ref a, tail.map fun e =>
        (e.node, decide (e.live b = true ∧ 0 < e.after.ref b ∧ e.after.prio b = e.after.prio a))) :
        Exec (ℕ × List (Option (SchedNode Bool) × Bool))) =
    .ok (1, [(none, true), (none, true), (some (.thread a), true), (some (.thread a), true)]) := by
    decide +kernel
  obtain ⟨⟨n₁, ctx₁⟩, h₁, hrun⟩ := bind_eq_ok.mp hrun
  obtain ⟨⟨n₂, ctx₂⟩, h₂, hrun⟩ := bind_eq_ok.mp hrun
  obtain ⟨⟨n₃, ctx₃⟩, h₃, hrun⟩ := bind_eq_ok.mp hrun
  obtain ⟨⟨n₄, ctx₄⟩, h₄, hrun⟩ := bind_eq_ok.mp hrun
  obtain ⟨tail, htail, hrun⟩ := bind_eq_ok.mp hrun
  obtain ⟨hone, hcalls⟩ := Prod.mk.inj (Except.ok.inj hrun)
  constructor
  · refine legalSchedRun_pair fun op hop => ?_
    simp only [List.mem_cons, List.mem_append, List.mem_replicate, List.not_mem_nil, or_false] at hop
    rcases hop with rfl | rfl | ⟨_, rfl⟩ | rfl | rfl | rfl | rfl
    · exact .inr ⟨true, rfl⟩
    · exact .inr ⟨false, rfl⟩
    · exact .inr ⟨true, rfl⟩
    · exact .inr ⟨true, rfl⟩
    · exact .inr ⟨true, rfl⟩
    · exact .inl rfl
    · exact .inl rfl
  · intro ⟨calls, hall, hfair⟩
    have hlive : liveAfter (liveAfter (fun _ => false) (.init true 1 ())) (.init false 1 ()) =
        fun _ : ThreadId Bool => true := by
      funext t
      match t with
      | .idle => rfl
      | .app true => rfl
      | .app false => rfl
    change ctx₄.ref a = 1 at hone
    change schedCalls cfg32 0 () (ctx₄.setRef a (ctx₄.ref a + _)) _ _ = _ at htail
    obtain ⟨cs, hcs⟩ := schedCalls_inserts 0 () cfg32_oneBucketPerLevel.asserts true (fun _ => true)
      (2 ^ 32 - 2) ctx₄ (hone.symm ▸ Nat.one_pos) (hone.symm ▸ by decide)
    rw [insertsTwice, schedCalls_cons h₁, schedCalls_cons h₂, schedCalls_cons h₃, schedCalls_cons h₄,
      hlive] at hall
    change (((((schedCalls cfg32 0 () ctx₄ (fun _ => true) _).map _).map _).map _).map _) = _ at hall
    rw [hcs, htail] at hall
    obtain ⟨e₁, tail, rfl, _, hcalls⟩ := List.map_eq_cons_iff.mp hcalls
    obtain ⟨e₂, tail, rfl, _, hcalls⟩ := List.map_eq_cons_iff.mp hcalls
    obtain ⟨e₃, tail, rfl, he₃, hcalls⟩ := List.map_eq_cons_iff.mp hcalls
    obtain ⟨e₄, tail, rfl, he₄, hcalls⟩ := List.map_eq_cons_iff.mp hcalls
    obtain rfl := List.map_eq_nil_iff.mp hcalls
    obtain ⟨hnode₃, hready₃⟩ := Prod.mk.inj he₃
    obtain ⟨hnode₄, hready₄⟩ := Prod.mk.inj he₄
    obtain ⟨hlive₃, href₃, hprio₃⟩ := of_decide_eq_true hready₃
    obtain ⟨hlive₄, href₄, _⟩ := of_decide_eq_true hready₄
    have hnone := (hfair a b (_ :: _ :: _ :: _ :: (cs ++ [e₁, e₂])) e₃ [] e₄ []
      (by simpa using (Except.ok.inj hall).symm) hnode₃ hnode₄ (List.forall_mem_nil _)
      (List.forall_mem_nil _) (by simp [a, b]) hprio₃
      (by simp [SchedCall.IsReady, *])).1
    exact absurd hnone (by simp [dispatchCount])

end NeonEds
