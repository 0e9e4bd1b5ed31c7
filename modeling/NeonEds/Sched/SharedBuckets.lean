import NeonEds.Sched.Runs

/-!
# Buckets that hold several priority levels

With fewer buckets than levels a thread goes into its bucket by `nbias_list_sort_insert`, which
leaves a node out that has no successor by bias: nothing is ever put into an empty list.

* `BucketsSound`         what the run queue is for: every ready thread is linked in its bucket, and
                         the selected thread has the greatest priority;
* `sharedBuckets_neverReady` in every run all buckets stay empty while the idle thread is ready, and
                         `sched_schedule_i` returns a sentinel, taken for the node of a thread;
* `fiveLevels_unsound`   a run of two threads.
-/

set_option linter.unusedSectionVars false

namespace NeonEds
open Exec

variable {T V : Type} [DecidableEq T]

/-- every ready thread has a bucket and is linked in it -/
structure ReadyLinked (cfg : SchedConfig) (ctx : SchedCtx 32 T V) (live : ThreadId T → Bool) :
    Prop where
  index : ∀ t, live t = true → bucketOf cfg ctx (.thread t) < cfg.buckets
  linked : ∀ t, live t = true → 0 < ctx.ref t →
    ∃ xs, Circular ctx.node.list (.sentinel (bucketOf cfg ctx (.thread t))) xs ∧ .thread t ∈ xs

/-- the selected thread is ready, and no ready thread has a greater priority -/
def SelectsGreatest (ctx : SchedCtx 32 T V) (live : ThreadId T → Bool) :
    SchedOp T V → Option (SchedNode T) → Prop
  | .schedule, n => ∃ t, n = some (.thread t) ∧ live t = true ∧ 0 < ctx.ref t ∧
      ∀ u, live u = true → 0 < ctx.ref u → ctx.prio u ≤ ctx.prio t
  | _, _ => True

section
variable (cfg : SchedConfig) (fuel : ℕ) (idleDispatch : V)

def BucketsSound : SchedCtx 32 T V → (ThreadId T → Bool) → List (SchedOp T V) → Prop
  | _, _, [] => True
  | ctx, live, op :: ops => ∃ n ctx', runSchedOp cfg fuel idleDispatch ctx op = .ok (n, ctx') ∧
      ReadyLinked cfg ctx' (liveAfter live op) ∧ SelectsGreatest ctx live op n ∧
      BucketsSound ctx' (liveAfter live op) ops

/-- a ready thread is not linked in any state that the run reaches, and no thread is selected -/
def NeverReady : SchedCtx 32 T V → (ThreadId T → Bool) → List (SchedOp T V) → Prop
  | _, _, [] => True
  | ctx, live, op :: ops => ∀ n ctx', runSchedOp cfg fuel idleDispatch ctx op = .ok (n, ctx') →
      ¬ ReadyLinked cfg ctx' (liveAfter live op) ∧ (∀ t, n ≠ some (.thread t)) ∧
      NeverReady ctx' (liveAfter live op) ops

end

/-- fewer buckets than levels; `uint_fast8_t` has at least 8 bits -/
structure SharedBuckets (cfg : SchedConfig) : Prop where
  pos : 1 ≤ cfg.buckets
  lt : cfg.buckets < cfg.levels
  le : cfg.levels ≤ 256
  fast8 : 8 ≤ cfg.fast8
  fast32 : 32 ≤ cfg.fast32

/-! ## a node that is alone -/

/-- a node that is linked to itself, its `prev` perhaps cleared -/
def Alone (L : Links (SchedNode T)) (x : SchedNode T) : Prop :=
  L.next x = some x ∧ ∀ y, L.prev x = some y → y = x

/-- a sorted insertion into an empty list does nothing -/
theorem nbiasListSortInsert_alone (fuel : ℕ) {L : BiasLists (SchedNode T)} {s : SchedNode T}
    (h : L.list.next s = some s) (n : SchedNode T) : nbiasListSortInsert fuel L s n = .ok L := by
  have hcond : sortInsertCond L s n s = false := by
    unfold sortInsertCond
    exact decide_eq_false (fun hc => hc.1 rfl)
  unfold nbiasListSortInsert
  show (deref (L.list.next s) >>= _) = _
  rw [h, deref_some, ok_bind, whileLoop_exit hcond, ok_bind, if_neg (fun hc => hc rfl)]
  rfl

/-- to remove a node that is alone changes nothing but its `prev` -/
theorem ndlistRemove_alone {v : Bool} {L L' : Links (SchedNode T)} {n : SchedNode T}
    (h : Alone L n) (hrun : ndlistRemove v L n = .ok L') {x : SchedNode T} (hx : Alone L x) :
    Alone L' x := by
  obtain ⟨hnext, hprev⟩ := h
  cases hp : L.prev n with
  | none =>
    have herr : ndlistRemove v L n = .error .null := by
      simp [ndlistRemove, hnext, hp]
    rw [herr] at hrun
    cases hrun
  | some y =>
    have hy : L.prev n = some n := by rw [hp, hprev y hp]
    have hsame : (((L.setPrev n (some n)).setNext n (some n)).setNext n (some n)) = L := by
      rw [Links.setPrev_self hy, Links.setNext_self hnext, Links.setNext_self hnext]
    have hL' : L' = if v then L.setPrev n none else L := by
      simp only [ndlistRemove, hnext, deref_some, ok_bind, hy, Links.setPrev_next,
        Links.setPrev_prev, Function.update_self, pure_eq] at hrun
      rw [hsame] at hrun
      exact (Except.ok.inj hrun).symm
    rw [hL']
    cases v with
    | false => exact hx
    | true =>
      refine ⟨hx.1, fun y hy => ?_⟩
      by_cases hxn : x = n
      · rw [hxn] at hy
        simp at hy
      · exact hx.2 y (by simpa [hxn] using hy)

/-! ## what holds in every state -/

/-- every list is empty, the idle thread ready -/
structure AllAlone (cfg : SchedConfig) (ctx : SchedCtx 32 T V) (live : ThreadId T → Bool) :
    Prop where
  sentinel : ∀ p < cfg.buckets, Alone ctx.node.list (.sentinel p)
  thread : ∀ t, live t = true → Alone ctx.node.list (.thread t)
  idle : live .idle = true ∧ 0 < ctx.ref .idle
  isInitialized : ctx.isInitialized = true

section
variable {cfg : SchedConfig} {ctx ctx' : SchedCtx 32 T V} {live : ThreadId T → Bool}

theorem AllAlone.not_readyLinked (h : AllAlone cfg ctx live) : ¬ ReadyLinked cfg ctx live := by
  intro hr
  obtain ⟨xs, hring, hm⟩ := hr.linked .idle h.idle.1 h.idle.2
  have hnil : xs = [] := hring.next_self_iff.mp (h.sentinel _ (hr.index .idle h.idle.1)).1
  rw [hnil] at hm
  cases hm

theorem AllAlone.congr (h : AllAlone cfg ctx live) {live' : ThreadId T → Bool}
    (hL : ∀ x, Alone ctx.node.list x → Alone ctx'.node.list x)
    (hlive : ∀ t, live' t = true → live t = true ∨ Alone ctx'.node.list (.thread t))
    (hidle : live' .idle = true ∧ 0 < ctx'.ref .idle)
    (hinit : ctx'.isInitialized = ctx.isInitialized) : AllAlone cfg ctx' live' where
  sentinel := fun p hp => hL _ (h.sentinel p hp)
  thread := fun t ht => (hlive t ht).elim (fun hl => hL _ (h.thread t hl)) id
  idle := hidle
  isInitialized := hinit.trans h.isInitialized

theorem sentinelAt_ok {b : ℕ} {s : SchedNode T} (h : sentinelAt cfg b = .ok s) :
    b < cfg.buckets ∧ s = .sentinel b := by
  unfold sentinelAt at h
  by_cases hb : b < cfg.buckets
  · rw [if_pos hb] at h
    exact ⟨hb, (Except.ok.inj h).symm⟩
  · rw [if_neg hb] at h
    cases h

variable (hcfg : SharedBuckets cfg)
include hcfg

theorem bucketInsert_alone (fuel : ℕ) {s n : SchedNode T} (hs : Alone ctx.node.list s) :
    bucketInsert cfg fuel ctx s n = .ok ctx := by
  have hne : cfg.buckets ≠ cfg.levels := Nat.ne_of_lt hcfg.lt
  unfold bucketInsert
  rw [if_pos hne, nbiasListSortInsert_alone fuel hs.1]
  rfl

theorem prioQueueInsert_alone {fuel : ℕ} {n : SchedNode T}
    (hs : ∀ p < cfg.buckets, Alone ctx.node.list (.sentinel p))
    (hrun : prioQueueInsert cfg fuel ctx n = .ok ctx') :
    ∃ bm, ctx' = { ctx with bitmap := bm } := by
  unfold prioQueueInsert at hrun
  obtain ⟨s, hsen, hrun⟩ := bind_eq_ok.mp hrun
  obtain ⟨bm, _, hrun⟩ := bind_eq_ok.mp hrun
  obtain ⟨hb, rfl⟩ := sentinelAt_ok hsen
  let ctx₁ : SchedCtx 32 T V := { ctx with bitmap := bm }
  have hins : bucketInsert cfg fuel ctx₁ (.sentinel (bucketOf cfg ctx n)) n = .ok ctx₁ :=
    bucketInsert_alone hcfg fuel (hs _ hb)
  exact ⟨bm, (Except.ok.inj (hins.symm.trans hrun)).symm⟩

theorem nthreadInsertI_alone {fuel : ℕ} {t : ThreadId T}
    (hs : ∀ p < cfg.buckets, Alone ctx.node.list (.sentinel p))
    (hrun : nthreadInsertI cfg fuel ctx t = .ok ctx') :
    ctx'.node = ctx.node ∧ ctx'.isInitialized = ctx.isInitialized ∧
      ctx'.ref = Function.update ctx.ref t ((ctx.ref t + 1) % 2 ^ cfg.fast32) := by
  unfold nthreadInsertI at hrun
  obtain ⟨_, _, hrun⟩ := bind_eq_ok.mp hrun
  by_cases h0 : ctx.ref t = 0
  · rw [if_pos h0] at hrun
    obtain ⟨ctx₁, hins, hrun⟩ := bind_eq_ok.mp hrun
    obtain ⟨bm, hctx₁⟩ := prioQueueInsert_alone hcfg hs hins
    rw [hctx₁] at hrun
    rw [← Except.ok.inj hrun]
    exact ⟨rfl, rfl, SchedCtx.ref_setRef ..⟩
  · rw [if_neg h0, ok_bind] at hrun
    rw [← Except.ok.inj hrun]
    exact ⟨rfl, rfl, SchedCtx.ref_setRef ..⟩

omit hcfg in
theorem nbiasListRemove_alone {v : Bool} {L L' : BiasLists (SchedNode T)} {n : SchedNode T}
    (hn : Alone L.list n) (hrun : nbiasListRemove v L n = .ok L') {x : SchedNode T}
    (hx : Alone L.list x) : Alone L'.list x := by
  unfold nbiasListRemove at hrun
  obtain ⟨list, hlist, hrun⟩ := bind_eq_ok.mp hrun
  rw [← Except.ok.inj hrun]
  exact ndlistRemove_alone hn hlist hx

omit hcfg in
theorem prioQueueRemove_alone {n : SchedNode T} (hn : Alone ctx.node.list n)
    (hrun : prioQueueRemove cfg ctx n = .ok ctx') :
    (∀ x, Alone ctx.node.list x → Alone ctx'.node.list x) ∧
      ctx'.isInitialized = ctx.isInitialized ∧ ctx'.ref = ctx.ref := by
  unfold prioQueueRemove at hrun
  obtain ⟨L', hL', hrun⟩ := bind_eq_ok.mp hrun
  obtain ⟨bm, _, hrun⟩ := bind_eq_ok.mp hrun
  rw [← Except.ok.inj hrun]
  exact ⟨fun x hx => nbiasListRemove_alone hn hL' hx, rfl, rfl⟩

theorem schedScheduleI_alone {fuel : ℕ} {n : SchedNode T}
    (hs : ∀ p < cfg.buckets, Alone ctx.node.list (.sentinel p))
    (hrun : schedScheduleI cfg fuel ctx = .ok (n, ctx')) :
    (∃ p, n = .sentinel p) ∧ (∀ x, Alone ctx.node.list x → Alone ctx'.node.list x) ∧
      ctx'.isInitialized = ctx.isInitialized ∧ ctx'.ref = ctx.ref := by
  unfold schedScheduleI at hrun
  obtain ⟨s, hpeek, hrun⟩ := bind_eq_ok.mp hrun
  obtain ⟨ctx₁, hrot, hrun⟩ := bind_eq_ok.mp hrun
  obtain ⟨p, hp, rfl⟩ : ∃ p, p < cfg.buckets ∧ s = .sentinel p := by
    unfold prioQueuePeek at hpeek
    obtain ⟨b, _, hpeek⟩ := bind_eq_ok.mp hpeek
    obtain ⟨s', hsen, hpeek⟩ := bind_eq_ok.mp hpeek
    obtain ⟨hb, rfl⟩ := sentinelAt_ok hsen
    refine ⟨b, hb, ?_⟩
    have hnext : deref (ctx.node.list.next (.sentinel b)) = .ok s := hpeek
    rw [(hs b hb).1] at hnext
    exact (Except.ok.inj hnext).symm
  obtain ⟨hn, hctx⟩ := Prod.mk.inj (Except.ok.inj hrun)
  unfold prioQueueRotate at hrot
  obtain ⟨L', hL', hrot⟩ := bind_eq_ok.mp hrot
  obtain ⟨s', hsen, hrot⟩ := bind_eq_ok.mp hrot
  obtain ⟨hb, rfl⟩ := sentinelAt_ok hsen
  have hkeep : ∀ x, Alone ctx.node.list x → Alone L'.list x :=
    fun x hx => nbiasListRemove_alone (hs p hp) hL' hx
  let ctx₂ : SchedCtx 32 T V := { ctx with current := some (.sentinel p), node := L' }
  have hins : bucketInsert cfg fuel ctx₂ _ (.sentinel p) = .ok ctx₂ :=
    bucketInsert_alone hcfg fuel (hkeep _ (hs _ hb))
  rw [← hctx, ← Except.ok.inj (hins.symm.trans hrot)]
  exact ⟨⟨p, hn.symm⟩, hkeep, rfl, rfl⟩

omit hcfg in
theorem ndlistInit_alone (L : Links (SchedNode T)) (n : SchedNode T) {x : SchedNode T}
    (hx : x = n ∨ Alone L x) : Alone (ndlistInit L n) x := by
  by_cases hxn : x = n
  · subst hxn
    simp [Alone, ndlistInit]
  · have h := hx.resolve_left hxn
    simpa [Alone, ndlistInit, hxn] using h

theorem prepareRunQueue_alone {fuel : ℕ} {idleDispatch : V} (hctx : ctx.isInitialized = false)
    (hrun : prepareRunQueue cfg fuel idleDispatch ctx = .ok ctx') :
    AllAlone cfg ctx' (onlyIdle : ThreadId T → Bool) := by
  let ctx₀ : SchedCtx 32 T V := prioQueueInit cfg
    { ctx with isInitialized := true, current := none }
  have hmod : cfg.buckets % 2 ^ cfg.fast8 = cfg.buckets := by
    have hle : (2 : ℕ) ^ 8 ≤ 2 ^ cfg.fast8 := Nat.pow_le_pow_right (by decide) hcfg.fast8
    have h1 := hcfg.lt
    have h2 := hcfg.le
    exact Nat.mod_eq_of_lt (by omega)
  have hs : ∀ p < cfg.buckets, Alone (nthreadSetup cfg ctx₀ .idle 0 idleDispatch).node.list
      (.sentinel p) := by
    intro p hp
    have hring : Circular (initSentinels (cfg.buckets % 2 ^ cfg.fast8) ctx.node).list
        (.sentinel p) [] := initSentinels_empty _ _ (by rw [hmod]; exact hp)
    refine ndlistInit_alone ctx₀.node.list _ (Or.inr ⟨hring.next_nil, fun y hy => ?_⟩)
    have hy' : (initSentinels (cfg.buckets % 2 ^ cfg.fast8) ctx.node).list.prev (.sentinel p)
        = some y := hy
    rw [hring.prev_nil] at hy'
    exact (Option.some.inj hy').symm
  have hidle : Alone (nthreadSetup cfg ctx₀ .idle 0 idleDispatch).node.list
      (.thread (.idle : ThreadId T)) := ndlistInit_alone ctx₀.node.list _ (Or.inl rfl)
  have href : (nthreadSetup cfg ctx₀ .idle 0 idleDispatch).ref .idle = 0 := by
    rw [nthreadSetup_ref, Function.update_self]
  unfold prepareRunQueue at hrun
  rw [if_pos hctx] at hrun
  obtain ⟨_, _, hrun⟩ := bind_eq_ok.mp hrun
  obtain ⟨hnode, hinit, href'⟩ := nthreadInsertI_alone hcfg hs hrun
  refine ⟨fun p hp => ?_, fun t ht => ?_, ⟨rfl, ?_⟩, hinit⟩
  · rw [hnode]
    exact hs p hp
  · rw [hnode]
    cases t with
    | idle => exact hidle
    | app t => exact absurd ht Bool.false_ne_true
  · have hone : 1 < 2 ^ cfg.fast32 := Nat.one_lt_two_pow (by have := hcfg.fast32; omega)
    have href₁ : (nthreadSetup cfg ctx₀ .idle 0 idleDispatch).ref .idle = 0 := href
    rw [href', Function.update_self]
    show 0 < ((nthreadSetup cfg ctx₀ .idle 0 idleDispatch).ref .idle + 1) % 2 ^ cfg.fast32
    rw [href₁, Nat.mod_eq_of_lt hone]
    exact Nat.one_pos

/-- what holds between the calls -/
def AloneState (cfg : SchedConfig) (ctx : SchedCtx 32 T V) (live : ThreadId T → Bool) : Prop :=
  (ctx.isInitialized = false ∧ live = fun _ => false) ∨ AllAlone cfg ctx live

theorem AloneState.init {fuel : ℕ} {idleDispatch : V} (h : AloneState cfg ctx live) {t : T}
    {priority : ℕ} {vfDispatch : V}
    (hrun : nthreadInit cfg fuel idleDispatch ctx (.app t) priority vfDispatch = .ok ctx') :
    AllAlone cfg ctx' (liveAfter live (.init t priority vfDispatch)) := by
  unfold nthreadInit at hrun
  obtain ⟨_, _, hrun⟩ := bind_eq_ok.mp hrun
  obtain ⟨ctx₁, hprep, hrun⟩ := bind_eq_ok.mp hrun
  have h₁ : AllAlone cfg ctx₁ (Function.update live .idle true) := by
    rcases h with ⟨h0, hlive⟩ | h
    · have hidle : Function.update live .idle true = (onlyIdle : ThreadId T → Bool) := by
        funext u
        rw [hlive]
        cases u <;> rfl
      rw [hidle]
      exact prepareRunQueue_alone hcfg h0 hprep
    · have hsame : Function.update live .idle true = live := by
        rw [Function.update_eq_self_iff]
        exact h.idle.1.symm
      unfold prepareRunQueue at hprep
      rw [if_neg (by rw [h.isInitialized]; exact Bool.noConfusion)] at hprep
      rw [hsame, ← Except.ok.inj hprep]
      exact h
  rw [← Except.ok.inj hrun]
  refine h₁.congr (fun x hx => ndlistInit_alone ctx₁.node.list _ (Or.inr hx)) (fun u hu => ?_)
    ⟨h₁.idle.1, ?_⟩ rfl
  · by_cases hut : u = .app t
    · rw [hut]
      exact Or.inr (ndlistInit_alone ctx₁.node.list _ (Or.inl rfl))
    · rw [liveAfter, Function.update_of_ne hut] at hu
      exact Or.inl hu
  · rw [nthreadSetup_ref, Function.update_of_ne (by simp)]
    exact h₁.idle.2

omit hcfg in
theorem nthreadRemoveI_alone (h : AllAlone cfg ctx live) {t : T} (ht : live (.app t) = true)
    (hrun : nthreadRemoveI cfg ctx (.app t) = .ok ctx') : AllAlone cfg ctx' live := by
  unfold nthreadRemoveI at hrun
  obtain ⟨_, _, hrun⟩ := bind_eq_ok.mp hrun
  let ctx₁ : SchedCtx 32 T V := ctx.setRef (.app t)
    ((ctx.ref (.app t) + 2 ^ cfg.fast32 - 1) % 2 ^ cfg.fast32)
  have hidle : 0 < ctx₁.ref .idle := by
    rw [SchedCtx.ref_setRef, Function.update_of_ne (by simp)]
    exact h.idle.2
  by_cases h0 : ctx₁.ref (.app t) = 0
  · have hrem : prioQueueRemove cfg ctx₁ (.thread (.app t)) = .ok ctx' := by
      rw [← hrun]
      exact (if_pos h0).symm
    have hth : Alone ctx₁.node.list (.thread (.app t)) := h.thread _ ht
    obtain ⟨hkeep, hinit, href⟩ := prioQueueRemove_alone hth hrem
    refine h.congr hkeep (fun u hu => Or.inl hu) ⟨h.idle.1, ?_⟩ hinit
    rw [href]
    exact hidle
  · have hctx : ctx₁ = ctx' := by
      refine Except.ok.inj (Eq.trans ?_ hrun)
      exact (if_neg h0).symm
    rw [← hctx]
    exact h.congr (fun x hx => hx) (fun u hu => Or.inl hu) ⟨h.idle.1, hidle⟩ rfl

omit hcfg in
theorem removeIfReady_alone (h : AllAlone cfg ctx live) {t : T} (ht : live (.app t) = true)
    (hrun : removeIfReady cfg ctx (.app t) = .ok ctx') :
    (∀ x, Alone ctx.node.list x → Alone ctx'.node.list x) ∧
      ctx'.isInitialized = ctx.isInitialized ∧ ctx'.ref = ctx.ref := by
  unfold removeIfReady at hrun
  by_cases h0 : ctx.ref (.app t) = 0
  · rw [if_neg (fun hc => hc h0)] at hrun
    rw [← Except.ok.inj hrun]
    exact ⟨fun x hx => hx, rfl, rfl⟩
  · rw [if_pos h0] at hrun
    exact prioQueueRemove_alone (h.thread _ ht) hrun

omit hcfg in
theorem nthreadTerm_alone (h : AllAlone cfg ctx live) {t : T} (ht : live (.app t) = true)
    (hrun : nthreadTerm cfg ctx (.app t) = .ok ctx') :
    AllAlone cfg ctx' (Function.update live (.app t) false) := by
  unfold nthreadTerm at hrun
  obtain ⟨_, _, hrun⟩ := bind_eq_ok.mp hrun
  obtain ⟨ctx₁, hrem, hrun⟩ := bind_eq_ok.mp hrun
  obtain ⟨hkeep, hinit, href⟩ := removeIfReady_alone h ht hrem
  rw [← Except.ok.inj hrun]
  refine h.congr (fun x hx => ndlistInit_alone ctx₁.node.list _ (Or.inr (hkeep x hx)))
    (fun u hu => ?_) ⟨?_, ?_⟩ hinit
  · by_cases hut : u = .app t
    · rw [hut, Function.update_self] at hu
      cases hu
    · rw [Function.update_of_ne hut] at hu
      exact Or.inl hu
  · exact (Function.update_of_ne (by simp) ..).trans h.idle.1
  · have hidle : 0 < ctx₁.ref .idle := by
      rw [href]
      exact h.idle.2
    exact Nat.lt_of_lt_of_eq hidle (SchedCtx.ref_setThread_of_ne _ (by simp) _).symm

/-- **One call**: the lists stay empty, the idle thread ready. -/
theorem AloneState.step {fuel : ℕ} {idleDispatch : V} (h : AloneState cfg ctx live)
    {op : SchedOp T V} (hl : LegalSchedOp cfg ctx live op) {n : Option (SchedNode T)}
    (hrun : runSchedOp cfg fuel idleDispatch ctx op = .ok (n, ctx')) :
    AllAlone cfg ctx' (liveAfter live op) ∧ ∀ t, n ≠ some (.thread t) := by
  cases op with
  | init t priority vfDispatch =>
    obtain ⟨ctx₁, hinit, hrun⟩ := bind_eq_ok.mp hrun
    obtain ⟨rfl, rfl⟩ := Prod.mk.inj (Except.ok.inj hrun)
    exact ⟨h.init hcfg hinit, fun _ => by simp⟩
  | insert t =>
    have ha := hl.started nofun h
    obtain ⟨ctx₁, hins, hrun⟩ := bind_eq_ok.mp hrun
    obtain ⟨rfl, rfl⟩ := Prod.mk.inj (Except.ok.inj hrun)
    obtain ⟨hnode, hinit, href⟩ := nthreadInsertI_alone hcfg ha.sentinel hins
    refine ⟨ha.congr (fun x hx => by rw [hnode]; exact hx) (fun u hu => Or.inl hu)
      ⟨ha.idle.1, ?_⟩ hinit, fun _ => by simp⟩
    rw [href, Function.update_of_ne (by simp)]
    exact ha.idle.2
  | remove t =>
    have ha := hl.started nofun h
    obtain ⟨ctx₁, hrem, hrun⟩ := bind_eq_ok.mp hrun
    obtain ⟨rfl, rfl⟩ := Prod.mk.inj (Except.ok.inj hrun)
    exact ⟨nthreadRemoveI_alone ha hl.1 hrem, fun _ => by simp⟩
  | term t =>
    have ha := hl.started nofun h
    obtain ⟨ctx₁, hterm, hrun⟩ := bind_eq_ok.mp hrun
    obtain ⟨rfl, rfl⟩ := Prod.mk.inj (Except.ok.inj hrun)
    exact ⟨nthreadTerm_alone ha hl hterm, fun _ => by simp⟩
  | schedule =>
    have ha := hl.started nofun h
    obtain ⟨⟨m, ctx₁⟩, hsch, hrun⟩ := bind_eq_ok.mp hrun
    obtain ⟨rfl, rfl⟩ := Prod.mk.inj (Except.ok.inj hrun)
    obtain ⟨⟨p, rfl⟩, hkeep, hinit, href⟩ := schedScheduleI_alone hcfg ha.sentinel hsch
    refine ⟨ha.congr hkeep (fun u hu => Or.inl hu) ⟨ha.idle.1, ?_⟩ hinit, fun _ => by simp⟩
    rw [href]
    exact ha.idle.2

theorem AloneState.neverReady (fuel : ℕ) (idleDispatch : V) (ops : List (SchedOp T V)) :
    ∀ {ctx : SchedCtx 32 T V} {live : ThreadId T → Bool}, AloneState cfg ctx live →
      LegalSchedRun cfg fuel idleDispatch ctx live ops →
      NeverReady cfg fuel idleDispatch ctx live ops := by
  induction ops with
  | nil => exact fun _ _ => trivial
  | cons op ops ih =>
    intro ctx live h hl n ctx' hrun
    obtain ⟨ha, hn⟩ := h.step hcfg hl.1 hrun
    exact ⟨ha.not_readyLinked, hn, ih (Or.inr ha) (hl.2 n ctx' hrun)⟩

theorem NeverReady.not_bucketsSound {fuel : ℕ} {idleDispatch : V} {op : SchedOp T V}
    {ops : List (SchedOp T V)} (h : NeverReady cfg fuel idleDispatch ctx live (op :: ops)) :
    ¬ BucketsSound cfg fuel idleDispatch ctx live (op :: ops) := by
  rintro ⟨n, ctx', hrun, hr, _⟩
  exact (h n ctx' hrun).1 hr

/-- **With fewer buckets than levels no run is sound**: whenever a call returns, the idle thread is
ready and not linked, and no call selects a thread. -/
theorem sharedBuckets_neverReady (fuel : ℕ) (idleDispatch : V) (hctx : ctx.isInitialized = false)
    (op : SchedOp T V) (ops : List (SchedOp T V))
    (hl : LegalSchedRun cfg fuel idleDispatch ctx (fun _ => false) (op :: ops)) :
    NeverReady cfg fuel idleDispatch ctx (fun _ => false) (op :: ops) ∧
      ¬ BucketsSound cfg fuel idleDispatch ctx (fun _ => false) (op :: ops) := by
  have h := AloneState.neverReady hcfg fuel idleDispatch (op :: ops) (Or.inl ⟨hctx, rfl⟩) hl
  exact ⟨h, NeverReady.not_bucketsSound hcfg h⟩

end

/-- five levels in two buckets -/
def cfgFiveLevels : SchedConfig := { cfg32 with levels := 5, buckets := 2 }

theorem cfgFiveLevels_sharedBuckets : SharedBuckets cfgFiveLevels where
  pos := by decide
  lt := by decide
  le := by decide
  fast8 := by decide
  fast32 := le_refl _

/-- one thread, inserted; then the scheduler chooses -/
def insertAndSchedule (priority : ℕ) : List (SchedOp Unit Unit) :=
  [.init () priority (), .insert (), .schedule]

theorem sharedBuckets_neverReady_fiveLevels :
    NeverReady cfgFiveLevels 0 () SchedCtx.init (fun _ => false) (insertAndSchedule 1) ∧
      ¬ BucketsSound cfgFiveLevels 0 () SchedCtx.init (fun _ => false) (insertAndSchedule 1) := by
  refine sharedBuckets_neverReady cfgFiveLevels_sharedBuckets 0 () rfl _ _
    ⟨⟨rfl, by decide, by decide⟩, fun n ctx h => ⟨rfl, fun n₁ ctx₁ h₁ => ⟨?_, fun _ _ _ => trivial⟩⟩⟩
  rw [← (Prod.mk.inj (Except.ok.inj h)).2] at h₁
  rw [← (Prod.mk.inj (Except.ok.inj h₁)).2]
  rfl

/-- the greatest of five levels has no bucket, so that a thread of this level is linked outside the
array; the scheduler finds no thread and puts a sentinel into a bucket outside the array -/
theorem fiveLevels_unsound :
    ¬ BucketsSound cfgFiveLevels 0 () SchedCtx.init (fun _ => false) (insertAndSchedule 1) ∧
    4 < cfgFiveLevels.levels ∧ ¬ 4 >>> cfgFiveLevels.bucketBits < cfgFiveLevels.buckets ∧
    (∃ ctx₁ : SchedCtx 32 Unit Unit,
      runSchedOp cfgFiveLevels 0 () SchedCtx.init (.init () 4 ()) = .ok (none, ctx₁) ∧
      runSchedOp cfgFiveLevels 0 () ctx₁ (.insert ()) = .error .bounds ∧
      runSchedOp cfgFiveLevels 0 () ctx₁ .schedule = .error .bounds) := by
  refine ⟨?_, by decide, by decide, ?_⟩
  · rintro ⟨n, ctx, hrun, hr, _⟩
    rw [← (Prod.mk.inj (Except.ok.inj hrun)).2] at hr
    obtain ⟨xs, hring, hm⟩ := hr.linked .idle rfl Nat.one_pos
    rw [hring.next_self_iff.mp rfl] at hm
    cases hm
  · exact ⟨_, rfl, rfl, rfl⟩

end NeonEds
