import Mathlib.Data.Nat.Find
import NeonEds.Sched.Linked

/-!
# Threads and the run queue

`Ready cfg ctx live q`: the buckets `q` hold exactly the threads that are initialised and have a
positive reference count, each in the bucket of its priority, and the idle thread is one of them.
The functions of `sched.c` keep it:

* `nthreadInit_first`          the first `nthread_init` prepares the run queue;
* `nthreadInit_ready`, `nthreadTerm_ready`, `nthreadRemoveI_ready`;
* `nthreadInsertI_ready`       while the reference count does not go round;
* `schedScheduleI_ready`       the first thread of the last bucket in use is selected.
-/

set_option linter.unusedSectionVars false

namespace NeonEds
open Exec

variable {T V : Type} [DecidableEq T]

def SchedCtx.prio {w : ℕ} (ctx : SchedCtx w T V) (t : ThreadId T) : ℕ := ctx.node.bias (.thread t)

/-- the buckets `q` are the ready queue of the threads `live` -/
structure Ready (cfg : SchedConfig) (ctx : SchedCtx 32 T V) (live : ThreadId T → Bool)
    (q : ℕ → List (ThreadId T)) : Prop extends Linked cfg ctx.node ctx.bitmap q where
  mem : ∀ p t, t ∈ q p ↔ live t = true ∧ ctx.prio t = p ∧ 0 < ctx.ref t
  prio : ∀ t, live t = true → ctx.prio t < cfg.levels ∧ ctx.prio t < 2 ^ 8
  idle : live .idle = true ∧ ctx.prio .idle = 0 ∧ 0 < ctx.ref .idle
  isInitialized : ctx.isInitialized = true

section
variable {cfg : SchedConfig} {ctx : SchedCtx 32 T V} {live : ThreadId T → Bool}
  {q : ℕ → List (ThreadId T)}

theorem SchedCtx.ref_setRef (ctx : SchedCtx 32 T V) (t : ThreadId T) (x : ℕ) :
    (ctx.setRef t x).ref = Function.update ctx.ref t x := by
  funext u
  show (Function.update ctx.thread t { ctx.thread t with ref := x } u).ref = _
  by_cases h : u = t
  · rw [h, Function.update_self, Function.update_self]
  · rw [Function.update_of_ne h, Function.update_of_ne h]
    rfl

theorem SchedCtx.ref_setThread_of_ne (ctx : SchedCtx 32 T V) {t u : ThreadId T} (h : u ≠ t)
    (x : Nthread V) : (ctx.setThread t x).ref u = ctx.ref u :=
  congrArg Nthread.ref (Function.update_of_ne h ..)

theorem nthreadSetup_ref (ctx : SchedCtx 32 T V) (t : ThreadId T) (priority : ℕ) (vfDispatch : V) :
    (nthreadSetup cfg ctx t priority vfDispatch).ref = Function.update ctx.ref t 0 := by
  funext u
  show (Function.update ctx.thread t _ u).ref = _
  by_cases h : u = t
  · rw [h, Function.update_self, Function.update_self]
  · rw [Function.update_of_ne h, Function.update_of_ne h]
    rfl

theorem nthreadSetup_prio (ctx : SchedCtx 32 T V) (t : ThreadId T) {priority : ℕ}
    (h8 : priority < 2 ^ 8) (vfDispatch : V) :
    (nthreadSetup cfg ctx t priority vfDispatch).prio = Function.update ctx.prio t priority := by
  funext u
  show Function.update ctx.node.bias (.thread t) (priority % 2 ^ 8) (.thread u) = _
  rw [Nat.mod_eq_of_lt h8]
  by_cases h : u = t
  · rw [h, Function.update_self, Function.update_self]
  · rw [Function.update_of_ne h, Function.update_of_ne (by simpa using h)]
    rfl

/-! ### the dispatch functions, which nothing here writes -/

def SchedCtx.fn {w : ℕ} (ctx : SchedCtx w T V) (t : ThreadId T) : Option V :=
  (ctx.thread t).vfDispatch

theorem SchedCtx.fn_setRef (ctx : SchedCtx 32 T V) (t : ThreadId T) (x : ℕ) :
    (ctx.setRef t x).fn = ctx.fn := by
  funext u
  show (Function.update ctx.thread t { ctx.thread t with ref := x } u).vfDispatch = _
  by_cases h : u = t
  · rw [h, Function.update_self]
    rfl
  · rw [Function.update_of_ne h]
    rfl

theorem bucketInsert_writes {fuel : ℕ} {ctx ctx' : SchedCtx 32 T V} {s n : SchedNode T}
    (h : bucketInsert cfg fuel ctx s n = .ok ctx') : ∃ node, ctx' = { ctx with node := node } := by
  unfold bucketInsert at h
  by_cases hB : cfg.buckets ≠ cfg.levels
  · rw [if_pos hB] at h
    obtain ⟨L, _, h⟩ := bind_eq_ok.mp h
    exact ⟨L, (Except.ok.inj h).symm⟩
  · rw [if_neg hB] at h
    obtain ⟨L, _, h⟩ := bind_eq_ok.mp h
    exact ⟨L, (Except.ok.inj h).symm⟩

theorem prioQueueInsert_writes {fuel : ℕ} {ctx' : SchedCtx 32 T V} {n : SchedNode T}
    (h : prioQueueInsert cfg fuel ctx n = .ok ctx') :
    ∃ node bm, ctx' = { ctx with node := node, bitmap := bm } := by
  unfold prioQueueInsert at h
  obtain ⟨s, _, h⟩ := bind_eq_ok.mp h
  obtain ⟨bm, _, h⟩ := bind_eq_ok.mp h
  obtain ⟨node, rfl⟩ := bucketInsert_writes h
  exact ⟨node, bm, rfl⟩

theorem prioQueueRemove_writes {ctx' : SchedCtx 32 T V} {n : SchedNode T}
    (h : prioQueueRemove cfg ctx n = .ok ctx') :
    ∃ node bm, ctx' = { ctx with node := node, bitmap := bm } := by
  unfold prioQueueRemove at h
  obtain ⟨L, _, h⟩ := bind_eq_ok.mp h
  obtain ⟨bm, _, h⟩ := bind_eq_ok.mp h
  exact ⟨L, bm, (Except.ok.inj h).symm⟩

theorem nthreadInsertI_writes {fuel : ℕ} {ctx' : SchedCtx 32 T V} {t : ThreadId T}
    (h : nthreadInsertI cfg fuel ctx t = .ok ctx') :
    ctx'.fn = ctx.fn ∧ ctx'.isInitialized = ctx.isInitialized := by
  unfold nthreadInsertI at h
  obtain ⟨_, _, h⟩ := bind_eq_ok.mp h
  by_cases h0 : ctx.ref t = 0
  · rw [if_pos h0] at h
    obtain ⟨ctx₁, hins, h⟩ := bind_eq_ok.mp h
    obtain ⟨node, bm, rfl⟩ := prioQueueInsert_writes hins
    rw [← Except.ok.inj h, SchedCtx.fn_setRef]
    exact ⟨rfl, rfl⟩
  · rw [if_neg h0, ok_bind] at h
    rw [← Except.ok.inj h, SchedCtx.fn_setRef]
    exact ⟨rfl, rfl⟩

theorem nthreadInsertI_fn {fuel : ℕ} {ctx' : SchedCtx 32 T V} {t : ThreadId T}
    (h : nthreadInsertI cfg fuel ctx t = .ok ctx') : ctx'.fn = ctx.fn :=
  (nthreadInsertI_writes h).1

theorem nthreadRemoveI_fn {ctx' : SchedCtx 32 T V} {t : ThreadId T}
    (h : nthreadRemoveI cfg ctx t = .ok ctx') : ctx'.fn = ctx.fn := by
  unfold nthreadRemoveI at h
  obtain ⟨_, _, h⟩ := bind_eq_ok.mp h
  let ctx₁ := ctx.setRef t ((ctx.ref t + 2 ^ cfg.fast32 - 1) % 2 ^ cfg.fast32)
  have hfn : ctx₁.fn = ctx.fn := SchedCtx.fn_setRef ..
  have h' : (if ctx₁.ref t = 0 then prioQueueRemove cfg ctx₁ (.thread t) else .ok ctx₁)
      = .ok ctx' := h
  by_cases h0 : ctx₁.ref t = 0
  · rw [if_pos h0] at h'
    obtain ⟨node, bm, rfl⟩ := prioQueueRemove_writes h'
    exact hfn
  · rw [if_neg h0] at h'
    rw [← Except.ok.inj h', hfn]

theorem schedScheduleI_writes {fuel : ℕ} {ctx' : SchedCtx 32 T V} {n : SchedNode T}
    (h : schedScheduleI cfg fuel ctx = .ok (n, ctx')) :
    ctx'.fn = ctx.fn ∧ ctx'.isInitialized = ctx.isInitialized := by
  unfold schedScheduleI at h
  obtain ⟨m, _, h⟩ := bind_eq_ok.mp h
  obtain ⟨ctx₁, hrot, h⟩ := bind_eq_ok.mp h
  rw [← (Prod.mk.inj (Except.ok.inj h)).2]
  unfold prioQueueRotate at hrot
  obtain ⟨L, _, hrot⟩ := bind_eq_ok.mp hrot
  obtain ⟨s, _, hrot⟩ := bind_eq_ok.mp hrot
  obtain ⟨node, rfl⟩ := bucketInsert_writes hrot
  exact ⟨rfl, rfl⟩

theorem schedScheduleI_fn {fuel : ℕ} {ctx' : SchedCtx 32 T V} {n : SchedNode T}
    (h : schedScheduleI cfg fuel ctx = .ok (n, ctx')) : ctx'.fn = ctx.fn :=
  (schedScheduleI_writes h).1

/-! ### what keeps the ready queue -/

/-- the ready queue is read from the lists, the bitmap and the reference counts -/
theorem Ready.congr (h : Ready cfg ctx live q) {ctx' : SchedCtx 32 T V}
    (hnode : ctx'.node = ctx.node) (hbm : ctx'.bitmap = ctx.bitmap) (href : ctx'.ref = ctx.ref)
    (hinit : ctx'.isInitialized = ctx.isInitialized) : Ready cfg ctx' live q := by
  have hprio : ctx'.prio = ctx.prio := by
    unfold SchedCtx.prio
    rw [hnode]
  exact ⟨hnode ▸ hbm ▸ h.toLinked, fun p t => by rw [hprio, href]; exact h.mem p t,
    fun t ht => by rw [hprio]; exact h.prio t ht, by rw [hprio, href]; exact h.idle,
    hinit.trans h.isInitialized⟩

theorem Linked.initThread {node : BiasLists (SchedNode T)} {bm : PrioBitmap 32}
    (h : Linked cfg node bm q) {t : ThreadId T} (ht : ∀ p, t ∉ q p) (bias : SchedNode T → ℕ) :
    Linked cfg ⟨ndlistInit node.list (.thread t), bias⟩ bm q := by
  refine ⟨fun p hp => (h.ring p hp).congr fun x hx => ?_, h.disjoint, h.lt, h.marks⟩
  have hxt : x ≠ .thread t := fun e => Linked.thread_notMem ht p (e ▸ hx)
  simp [Links.EqAt, ndlistInit, hxt]

/-- the reference count of a thread changes, from zero to a positive value or the other way round
as the thread joins or leaves its bucket -/
theorem Ready.update (h : Ready cfg ctx live q) {ctx' : SchedCtx 32 T V} {t : ThreadId T} {p : ℕ}
    {xs : List (ThreadId T)} {live' : ThreadId T → Bool}
    (hl : Linked cfg ctx'.node ctx'.bitmap (Function.update q p xs))
    (hother : ∀ u, u ≠ t → live' u = live u ∧ ctx'.prio u = ctx.prio u ∧ ctx'.ref u = ctx.ref u)
    (hxs : ∀ u, u ≠ t → (u ∈ xs ↔ u ∈ q p))
    (ht : ∀ p', t ∈ Function.update q p xs p' ↔
      live' t = true ∧ ctx'.prio t = p' ∧ 0 < ctx'.ref t)
    (hprio : live' t = true → ctx'.prio t < cfg.levels ∧ ctx'.prio t < 2 ^ 8)
    (hidle : t ≠ .idle ∨ live' .idle = true ∧ ctx'.prio .idle = 0 ∧ 0 < ctx'.ref .idle)
    (hinit : ctx'.isInitialized = ctx.isInitialized) :
    Ready cfg ctx' live' (Function.update q p xs) := by
  refine ⟨hl, fun p' u => ?_, fun u hu => ?_, ?_, hinit.trans h.isInitialized⟩
  · by_cases hut : u = t
    · rw [hut]
      exact ht p'
    · obtain ⟨h1, h2, h3⟩ := hother u hut
      rw [h1, h2, h3, ← h.mem]
      by_cases hp : p' = p
      · rw [hp, Function.update_self]
        exact hxs u hut
      · rw [Function.update_of_ne hp]
  · by_cases hut : u = t
    · rw [hut] at hu ⊢
      exact hprio hu
    · obtain ⟨h1, h2, _⟩ := hother u hut
      rw [h1] at hu
      rw [h2]
      exact h.prio u hu
  · rcases hidle with hne | hidle
    · obtain ⟨h1, h2, h3⟩ := hother .idle hne.symm
      rw [h1, h2, h3]
      exact h.idle
    · exact hidle

theorem Ready.notMem_of_ref (h : Ready cfg ctx live q) {t : ThreadId T} (ht : ctx.ref t = 0)
    (p : ℕ) : t ∉ q p := by
  intro hm
  have := ((h.mem p t).mp hm).2.2
  omega

theorem Ready.notMem_of_live (h : Ready cfg ctx live q) {t : ThreadId T} (ht : live t = false)
    (p : ℕ) : t ∉ q p := by
  intro hm
  have := ((h.mem p t).mp hm).1
  rw [ht] at this
  cases this

theorem Ready.exists_highest (h : Ready cfg ctx live q) :
    ∃ p t rest, q p = t :: rest ∧ ∀ p', q p' ≠ [] → p' ≤ p := by
  have h0 : q 0 ≠ [] := List.ne_nil_of_mem ((h.mem 0 .idle).mpr h.idle)
  have hspec := Nat.findGreatest_spec (P := fun p => q p ≠ []) (Nat.zero_le cfg.buckets) h0
  obtain ⟨t, rest, hq⟩ := List.exists_cons_of_ne_nil hspec
  exact ⟨_, t, rest, hq, fun p' hp' => Nat.le_findGreatest (Nat.le_of_lt (h.lt p' hp').1) hp'⟩

theorem Ready.setRef (h : Ready cfg ctx live q) {t : ThreadId T} {x : ℕ} (ht : 0 < ctx.ref t)
    (hx : 0 < x) : Ready cfg (ctx.setRef t x) live q := by
  have hupd : Function.update q (ctx.prio t) (q (ctx.prio t)) = q := Function.update_eq_self ..
  rw [← hupd]
  refine h.update (t := t) (by rw [hupd]; exact h.toLinked) (fun u hu => ⟨rfl, rfl, ?_⟩)
    (fun u _ => Iff.rfl) (fun p' => ?_) (h.prio t) ?_ rfl
  · rw [SchedCtx.ref_setRef, Function.update_of_ne hu]
  · rw [hupd, SchedCtx.ref_setRef, Function.update_self, h.mem]
    exact ⟨fun ⟨h1, h2, _⟩ => ⟨h1, h2, hx⟩, fun ⟨h1, h2, _⟩ => ⟨h1, h2, ht⟩⟩
  · refine Or.inr ⟨h.idle.1, h.idle.2.1, ?_⟩
    rw [SchedCtx.ref_setRef]
    by_cases hi : ThreadId.idle = t
    · rw [hi, Function.update_self]
      exact hx
    · rw [Function.update_of_ne hi]
      exact h.idle.2.2

end

section
variable {cfg : SchedConfig} (hcfg : OneBucketPerLevel cfg) {ctx : SchedCtx 32 T V}
  {live : ThreadId T → Bool} {q : ℕ → List (ThreadId T)}
include hcfg

theorem Ready.prio_lt (h : Ready cfg ctx live q) {t : ThreadId T} (ht : live t = true) :
    ctx.prio t < cfg.buckets ∧ ctx.prio t < 2 ^ 8 := by
  rw [← hcfg.levels]
  exact h.prio t ht

theorem one_lt_fast32 : 1 < 2 ^ cfg.fast32 :=
  Nat.one_lt_two_pow (by have := hcfg.fast32; omega)

theorem nthreadInsertI_of_zero (fuel : ℕ) (h : Ready cfg ctx live q) {t : ThreadId T}
    (ht : live t = true) (h0 : ctx.ref t = 0) :
    ∃ ctx', nthreadInsertI cfg fuel ctx t = .ok ctx' ∧
      Ready cfg ctx' live (Function.update q (ctx.prio t) (q (ctx.prio t) ++ [t])) ∧
      ctx'.ref = Function.update ctx.ref t 1 ∧ ctx'.prio = ctx.prio := by
  obtain ⟨hpB, hp8⟩ := h.prio_lt hcfg ht
  have hnm := h.notMem_of_ref h0
  obtain ⟨L', bm', hins, hl⟩ := prioQueueInsert_linked hcfg fuel h.toLinked rfl hpB hp8 hnm
  have hmod : (ctx.ref t + 1) % 2 ^ cfg.fast32 = 1 := by
    rw [h0]
    exact Nat.mod_eq_of_lt (one_lt_fast32 hcfg)
  have hrun : nthreadInsertI cfg fuel ctx t = .ok (SchedCtx.setRef { ctx with
      node := { ctx.node with list := L' }, bitmap := bm' } t 1) := by
    unfold nthreadInsertI
    rw [hcfg.asserts, require_false, ok_bind, if_pos h0, hins, ok_bind]
    show Except.ok (SchedCtx.setRef _ t ((ctx.ref t + 1) % 2 ^ cfg.fast32)) = _
    rw [hmod]
  have hupd : (Function.update q (ctx.prio t) (q (ctx.prio t) ++ [t])) (ctx.prio t)
      = q (ctx.prio t) ++ [t] := Function.update_self ..
  refine ⟨_, hrun, h.update (t := t) hl (fun u hu => ⟨rfl, rfl, ?_⟩) (fun u hu => ?_)
    (fun p' => ?_) (h.prio t) ?_ rfl, SchedCtx.ref_setRef .., rfl⟩
  · rw [SchedCtx.ref_setRef, Function.update_of_ne hu]
    rfl
  · rw [List.mem_append, List.mem_singleton, or_iff_left hu]
  · rw [SchedCtx.ref_setRef, Function.update_self]
    by_cases hp : p' = ctx.prio t
    · rw [hp, Function.update_self]
      exact iff_of_true (by simp) ⟨ht, rfl, Nat.one_pos⟩
    · rw [Function.update_of_ne hp]
      exact iff_of_false (hnm p') (fun hc => hp hc.2.1.symm)
  · by_cases hi : t = .idle
    · have := h.idle.2.2
      rw [← hi, h0] at this
      exact absurd this (Nat.lt_irrefl 0)
    · exact Or.inl hi

/-- **`nthread_insert_i`**, while the reference count does not go round. -/
theorem nthreadInsertI_ready (fuel : ℕ) (h : Ready cfg ctx live q) {t : ThreadId T}
    (ht : live t = true) (hfit : ctx.ref t + 1 < 2 ^ cfg.fast32) :
    ∃ ctx' q', nthreadInsertI cfg fuel ctx t = .ok ctx' ∧ Ready cfg ctx' live q' ∧
      ctx'.ref = Function.update ctx.ref t (ctx.ref t + 1) ∧ ctx'.prio = ctx.prio ∧
      ∀ p, q' p = q p ∨ t ∉ q p ∧ q' p = q p ++ [t] := by
  by_cases h0 : ctx.ref t = 0
  · obtain ⟨ctx', hrun, hr, href, hpr⟩ := nthreadInsertI_of_zero hcfg fuel h ht h0
    refine ⟨ctx', _, hrun, hr, by rw [href, h0], hpr, fun p => ?_⟩
    by_cases hp : p = ctx.prio t
    · rw [hp, Function.update_self]
      exact .inr ⟨h.notMem_of_ref h0 _, rfl⟩
    · exact .inl (Function.update_of_ne hp ..)
  · refine ⟨ctx.setRef t (ctx.ref t + 1), q, ?_, h.setRef (Nat.pos_of_ne_zero h0) (Nat.succ_pos _),
      SchedCtx.ref_setRef .., rfl, fun _ => .inl rfl⟩
    unfold nthreadInsertI
    rw [hcfg.asserts, require_false, ok_bind, if_neg h0, ok_bind]
    show Except.ok (ctx.setRef t ((ctx.ref t + 1) % 2 ^ cfg.fast32)) = _
    rw [Nat.mod_eq_of_lt hfit]

theorem Ready.remove (h : Ready cfg ctx live q) {t : T} (ht : live (.app t) = true)
    (hpos : 0 < ctx.ref (.app t)) (thread' : ThreadId T → Nthread V) (live' : ThreadId T → Bool)
    (hother : ∀ u, u ≠ .app t → live' u = live u ∧ (thread' u).ref = (ctx.thread u).ref)
    (hstop : live' (.app t) = true → (thread' (.app t)).ref = 0)
    (hprio : live' (.app t) = true → live (.app t) = true) :
    ∃ L' bm' q', prioQueueRemove cfg { ctx with thread := thread' } (.thread (.app t))
        = .ok { ctx with thread := thread', node := { ctx.node with list := L' }, bitmap := bm' } ∧
      Ready cfg { ctx with thread := thread', node := { ctx.node with list := L' }, bitmap := bm' }
        live' q' ∧ ∀ p, .app t ∉ q' p ∧ (q' p = q p ∨ q' p = (q p).erase (.app t)) := by
  have hm : ThreadId.app t ∈ q (ctx.prio (.app t)) := (h.mem _ _).mpr ⟨ht, rfl, hpos⟩
  let ctx₁ : SchedCtx 32 T V := { ctx with thread := thread' }
  have h₁ : Linked cfg ctx₁.node ctx₁.bitmap q := h.toLinked
  obtain ⟨L', bm', hrem, hl⟩ := prioQueueRemove_linked hcfg h₁ rfl hm
  have hgone : ∀ p, ThreadId.app t ∉ Function.update q (ctx.prio (.app t))
      ((q (ctx.prio (.app t))).erase (.app t)) p := by
    intro p
    by_cases hp : p = ctx.prio (.app t)
    · rw [hp, Function.update_self]
      exact (h.toLinked.nodup _).not_mem_erase
    · rw [Function.update_of_ne hp]
      exact fun hm' => hp (h.disjoint p _ _ hm' hm)
  refine ⟨L', bm', _, hrem, h.update (t := .app t) hl (fun u hu => ⟨(hother u hu).1, rfl,
    (hother u hu).2⟩) (fun u hu => ?_) (fun p' => iff_of_false (hgone p') ?_)
    (fun hl' => h.prio _ (hprio hl')) (Or.inl (by simp)) rfl, fun p => ⟨hgone p, ?_⟩⟩
  · rw [List.mem_erase_of_ne hu]
  · rintro ⟨hl', _, hpos'⟩
    exact absurd (hstop hl') (Nat.ne_of_gt hpos')
  · by_cases hp : p = ctx.prio (.app t)
    · rw [hp]
      exact .inr (Function.update_self ..)
    · exact .inl (Function.update_of_ne hp ..)

/-- **`nthread_remove_i`** on a ready thread of the application. -/
theorem nthreadRemoveI_ready (h : Ready cfg ctx live q) {t : T} (ht : live (.app t) = true)
    (hpos : 0 < ctx.ref (.app t)) (hfit : ctx.ref (.app t) < 2 ^ cfg.fast32) :
    ∃ ctx' q', nthreadRemoveI cfg ctx (.app t) = .ok ctx' ∧ Ready cfg ctx' live q' ∧
      ctx'.ref = Function.update ctx.ref (.app t) (ctx.ref (.app t) - 1) ∧ ctx'.prio = ctx.prio ∧
      ∀ p, q' p = q p ∨ q' p = (q p).erase (.app t) := by
  have hmod : (ctx.ref (.app t) + 2 ^ cfg.fast32 - 1) % 2 ^ cfg.fast32 = ctx.ref (.app t) - 1 := by
    rw [show ctx.ref (.app t) + 2 ^ cfg.fast32 - 1 = ctx.ref (.app t) - 1 + 2 ^ cfg.fast32 by omega,
      Nat.add_mod_right, Nat.mod_eq_of_lt (by omega)]
  have hself : (ctx.setRef (.app t) (ctx.ref (.app t) - 1)).ref (.app t) = ctx.ref (.app t) - 1 := by
    rw [SchedCtx.ref_setRef, Function.update_self]
  have hrun : nthreadRemoveI cfg ctx (.app t) = if ctx.ref (.app t) - 1 = 0 then
      prioQueueRemove cfg (ctx.setRef (.app t) (ctx.ref (.app t) - 1)) (.thread (.app t))
      else .ok (ctx.setRef (.app t) (ctx.ref (.app t) - 1)) := by
    unfold nthreadRemoveI
    rw [hcfg.asserts, require_false, ok_bind, hmod]
    show (if (ctx.setRef (.app t) (ctx.ref (.app t) - 1)).ref (.app t) = 0 then _ else _) = _
    rw [hself]
    rfl
  rw [hrun]
  by_cases h1 : ctx.ref (.app t) - 1 = 0
  · rw [if_pos h1]
    obtain ⟨L', bm', q', hrem, hr, hq'⟩ := h.remove hcfg ht hpos
      (ctx.setRef (.app t) (ctx.ref (.app t) - 1)).thread live
      (fun u hu => ⟨rfl, congrFun (SchedCtx.ref_setRef ctx (.app t) _) u |>.trans
        (Function.update_of_ne hu ..)⟩) (fun _ => hself.trans h1) id
    exact ⟨_, q', hrem, hr, SchedCtx.ref_setRef .., rfl, fun p => (hq' p).2⟩
  · rw [if_neg h1]
    exact ⟨_, q, rfl, h.setRef hpos (by omega), SchedCtx.ref_setRef .., rfl, fun _ => .inl rfl⟩

theorem Ready.reset (h : Ready cfg ctx live q) {t : T} (hnm : ∀ p, .app t ∉ q p) (bias : ℕ)
    (x : Nthread V) (b : Bool) (hb : b = true → bias < cfg.levels ∧ bias < 2 ^ 8 ∧ x.ref = 0) :
    Ready cfg { ctx with
        node := ⟨ndlistInit ctx.node.list (.thread (.app t)),
          Function.update ctx.node.bias (.thread (.app t)) bias⟩
        thread := Function.update ctx.thread (.app t) x }
      (Function.update live (.app t) b) q := by
  have hupd : Function.update q 0 (q 0) = q := Function.update_eq_self ..
  have hprio : Function.update ctx.node.bias (.thread (.app t)) bias (.thread (.app t)) = bias :=
    Function.update_self ..
  rw [← hupd]
  refine h.update (t := .app t) (by rw [hupd]; exact h.toLinked.initThread hnm _) (fun u hu => ?_)
    (fun u _ => Iff.rfl) (fun p' => ?_) (fun hl => ?_) (Or.inl (by simp)) rfl
  · refine ⟨Function.update_of_ne hu .., ?_, ?_⟩
    · exact Function.update_of_ne (by simpa using hu) ..
    · exact congrArg Nthread.ref (Function.update_of_ne hu ..)
  · rw [hupd, Function.update_self]
    refine iff_of_false (hnm p') ?_
    rintro ⟨hbt, _, hpos⟩
    have hx : x.ref = 0 := (hb hbt).2.2
    have hself : Function.update ctx.thread (.app t) x (.app t) = x := Function.update_self ..
    have hpos' : 0 < (Function.update ctx.thread (.app t) x (.app t)).ref := hpos
    rw [hself, hx] at hpos'
    exact absurd hpos' (Nat.lt_irrefl 0)
  · rw [Function.update_self] at hl
    show Function.update ctx.node.bias (.thread (.app t)) bias (.thread (.app t)) < _ ∧
      Function.update ctx.node.bias (.thread (.app t)) bias (.thread (.app t)) < _
    rw [hprio]
    exact ⟨(hb hl).1, (hb hl).2.1⟩

/-- **`nthread_init`** on a thread that is not in use. -/
theorem nthreadSetup_ready (h : Ready cfg ctx live q) {t : T} (ht : live (.app t) = false)
    {priority : ℕ} (hlev : priority < cfg.levels) (h8 : priority < 2 ^ 8) (vfDispatch : V) :
    Ready cfg (nthreadSetup cfg ctx (.app t) priority vfDispatch)
      (Function.update live (.app t) true) q := by
  unfold nthreadSetup nbiasListInit
  rw [Nat.mod_eq_of_lt h8]
  exact h.reset hcfg (h.notMem_of_live ht) _ _ _ (fun _ => ⟨hlev, h8, rfl⟩)

/-- **`nthread_term`.** -/
theorem nthreadTerm_ready (h : Ready cfg ctx live q) {t : T} (ht : live (.app t) = true) :
    ∃ ctx' q', nthreadTerm cfg ctx (.app t) = .ok ctx' ∧
      Ready cfg ctx' (Function.update live (.app t) false) q' ∧ ctx'.ref = ctx.ref := by
  have hsame : ∀ x : Nthread V, x.ref = ctx.ref (.app t) →
      (fun u => (Function.update ctx.thread (.app t) x u).ref) = ctx.ref := by
    intro x hx
    funext u
    by_cases hu : u = .app t
    · rw [hu, Function.update_self, hx]
    · rw [Function.update_of_ne hu]
      rfl
  have hrun : ∃ L' bm' q', removeIfReady cfg ctx (.app t)
        = .ok { ctx with node := { ctx.node with list := L' }, bitmap := bm' } ∧
      Ready cfg { ctx with node := { ctx.node with list := L' }, bitmap := bm' }
        (Function.update live (.app t) false) q' ∧ ∀ p, .app t ∉ q' p := by
    have hfalse : Function.update live (.app t) false (.app t) = true → False := by
      rw [Function.update_self]
      exact Bool.false_ne_true
    by_cases h0 : ctx.ref (.app t) = 0
    · have hnm := h.notMem_of_ref h0
      have hupd : Function.update q 0 (q 0) = q := Function.update_eq_self ..
      refine ⟨ctx.node.list, ctx.bitmap, q, if_neg (fun hc => hc h0), ?_, hnm⟩
      have hr : Ready cfg ctx (Function.update live (.app t) false) (Function.update q 0 (q 0)) :=
        h.update (t := .app t) (by rw [hupd]; exact h.toLinked)
        (fun u hu => ⟨Function.update_of_ne hu .., rfl, rfl⟩) (fun u _ => Iff.rfl)
        (fun p' => by rw [hupd]; exact iff_of_false (hnm p') (fun hc => hfalse hc.1))
        (fun hl => absurd hl hfalse) (Or.inl (by simp)) rfl
      rw [hupd] at hr
      exact hr
    · obtain ⟨L', bm', q', hrem, hr, hnm⟩ := h.remove hcfg ht (Nat.pos_of_ne_zero h0)
        ctx.thread (Function.update live (.app t) false)
        (fun u hu => ⟨Function.update_of_ne hu .., rfl⟩) (fun hl => absurd hl hfalse)
        (fun hl => absurd hl hfalse)
      exact ⟨L', bm', q', (if_pos h0).trans hrem, hr, fun p => (hnm p).1⟩
  obtain ⟨L', bm', q', hrem, hr, hnm⟩ := hrun
  have hreset := hr.reset hcfg hnm 0 { ctx.thread (.app t) with
    signature := if cfg.apiValidation then false else (ctx.thread (.app t)).signature } false
    (fun hc => by cases hc)
  rw [Function.update_idem] at hreset
  refine ⟨_, q', ?_, hreset, hsame _ rfl⟩
  unfold nthreadTerm
  rw [hcfg.asserts, require_false, ok_bind, hrem, ok_bind]
  rfl

/-- **`sched_schedule_i`** selects the first thread of the greatest priority that is ready. -/
theorem schedScheduleI_ready (fuel : ℕ) (h : Ready cfg ctx live q) {t : ThreadId T} {p : ℕ}
    {rest : List (ThreadId T)} (hq : q p = t :: rest) (hmax : ∀ p', q p' ≠ [] → p' ≤ p) :
    ∃ ctx', schedScheduleI cfg fuel ctx = .ok (.thread t, ctx') ∧
      Ready cfg ctx' live (Function.update q p (rest ++ [t])) ∧ ctx'.ref = ctx.ref ∧
      ctx'.prio = ctx.prio ∧ ctx'.current = some (.thread t) := by
  have ht : t ∈ q p := by rw [hq]; exact List.mem_cons_self ..
  obtain ⟨hlive, hprio, hpos⟩ := (h.mem p t).mp ht
  let ctx₁ : SchedCtx 32 T V := { ctx with current := some (.thread t) }
  have h₁ : Linked cfg ctx₁.node ctx₁.bitmap q := h.toLinked
  obtain ⟨L', hrot, hl⟩ := prioQueueRotate_linked hcfg fuel h₁ hprio hq
  have hmem : ∀ u, u ∈ rest ++ [t] ↔ u ∈ q p := by
    intro u
    rw [hq, List.mem_append, List.mem_singleton, List.mem_cons]
    exact or_comm
  refine ⟨{ ctx with current := some (.thread t), node := { ctx.node with list := L' } }, ?_,
    h.update (t := t) hl (fun u _ => ⟨rfl, rfl, rfl⟩) (fun u _ => hmem u) (fun p' => ?_)
    (h.prio t) (Or.inr h.idle) rfl, rfl, rfl, rfl⟩
  · unfold schedScheduleI
    rw [prioQueuePeek_linked hcfg h.toLinked hq hmax, ok_bind, hrot, ok_bind]
    rfl
  · by_cases hp : p' = p
    · rw [hp, Function.update_self, hmem]
      exact h.mem p t
    · rw [Function.update_of_ne hp]
      exact h.mem p' t

end

end NeonEds
