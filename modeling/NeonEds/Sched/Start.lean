import NeonEds.Sched.Ready

/-!
# The first call of `nthread_init`

`prepareRunQueue_first`: from any memory in which the run queue is not yet initialised the first call
makes every bucket empty and puts the idle thread into bucket 0; no thread of the application is in
use.  `nthreadInit_first` is the whole call.
-/

set_option linter.unusedSectionVars false

namespace NeonEds
open Exec

variable {T V : Type} [DecidableEq T]

theorem initSentinels_eqAt (n : ℕ) (L : BiasLists (SchedNode T)) {x : SchedNode T}
    (hx : ∀ p < n, x ≠ .sentinel p) :
    (initSentinels n L).list.EqAt L.list x ∧ (initSentinels n L).bias x = L.bias x := by
  induction n generalizing L with
  | zero => exact ⟨⟨rfl, rfl⟩, rfl⟩
  | succ n ih =>
    obtain ⟨h1, h2⟩ := ih (nbiasListInit L (.sentinel n) nbiasListMaxPrio)
      (fun p hp => hx p (Nat.lt_succ_of_lt hp))
    have hn : x ≠ .sentinel n := hx n (Nat.lt_succ_self n)
    refine ⟨h1.trans ?_, h2.trans (Function.update_of_ne hn ..)⟩
    simp [Links.EqAt, nbiasListInit, ndlistInit, hn]

theorem initSentinels_empty (n : ℕ) (L : BiasLists (SchedNode T)) {p : ℕ} (hp : p < n) :
    Circular (initSentinels n L).list (.sentinel p) [] := by
  induction n generalizing L with
  | zero => exact absurd hp (Nat.not_lt_zero p)
  | succ n ih =>
    by_cases hpn : p < n
    · exact ih _ hpn
    · have he : p = n := by omega
      obtain ⟨⟨h1, h2⟩, _⟩ := initSentinels_eqAt n (nbiasListInit L (.sentinel n) nbiasListMaxPrio)
        (x := .sentinel n) (fun q hq hc => absurd (SchedNode.sentinel.inj hc) (by omega))
      rw [he, Circular.nil_iff, initSentinels, h1, h2]
      simp [nbiasListInit, ndlistInit]

def onlyIdle : ThreadId T → Bool
  | .idle => true
  | .app _ => false

section
variable {cfg : SchedConfig} (hcfg : OneBucketPerLevel cfg) {ctx : SchedCtx 32 T V}
include hcfg

theorem prioQueueInit_linked (ctx : SchedCtx 32 T V) (idleDispatch : V) :
    Linked cfg (nthreadSetup cfg (prioQueueInit cfg ctx) .idle 0 idleDispatch).node
      (nthreadSetup cfg (prioQueueInit cfg ctx) .idle 0 idleDispatch).bitmap
      (fun _ => ([] : List (ThreadId T))) := by
  have hmod : cfg.buckets % 2 ^ cfg.fast8 = cfg.buckets := Nat.mod_eq_of_lt hcfg.count
  have hl : Linked cfg (prioQueueInit cfg ctx).node (prioQueueInit cfg ctx).bitmap
      (fun _ => ([] : List (ThreadId T))) := by
    refine ⟨fun p hp => ?_, fun p p' t ht => (by cases ht), fun p hp => absurd rfl hp, fun hB => ?_⟩
    · show Circular (initSentinels (cfg.buckets % 2 ^ cfg.fast8) ctx.node).list _ _
      rw [hmod]
      exact initSentinels_empty _ _ hp
    · have hbm : (prioQueueInit cfg ctx).bitmap = bitmapInit cfg ctx.bitmap := if_pos hB
      rw [hbm]
      exact bitmapInit_marks hcfg.toPort32 hcfg.count _
  exact hl.initThread (fun p => List.not_mem_nil) _

/-- **The run queue is prepared.** -/
theorem prepareRunQueue_first (fuel : ℕ) (idleDispatch : V) (hctx : ctx.isInitialized = false) :
    ∃ ctx', prepareRunQueue cfg fuel idleDispatch ctx = .ok ctx' ∧
      Ready cfg ctx' onlyIdle (Function.update (fun _ => []) 0 [.idle]) ∧
      (∀ t, ctx'.ref (.app t) = ctx.ref (.app t)) := by
  let ctx₀ : SchedCtx 32 T V := prioQueueInit cfg
    { ctx with isInitialized := true, current := none }
  let ctx₁ : SchedCtx 32 T V := nthreadSetup cfg ctx₀ .idle 0 idleDispatch
  have hl : Linked cfg ctx₁.node ctx₁.bitmap (fun _ => ([] : List (ThreadId T))) :=
    prioQueueInit_linked hcfg _ _
  have hbias : ctx₁.prio .idle = 0 := by
    rw [nthreadSetup_prio _ _ (by omega), Function.update_self]
  have href₁ : ctx₁.ref = Function.update ctx.ref .idle 0 := nthreadSetup_ref ..
  have href : ctx₁.ref .idle = 0 := by rw [href₁, Function.update_self]
  obtain ⟨L', bm', hins, hl'⟩ := prioQueueInsert_linked hcfg fuel hl hbias hcfg.pos (by omega)
    (fun p => List.not_mem_nil)
  have hmod : (ctx₁.ref .idle + 1) % 2 ^ cfg.fast32 = 1 := by
    rw [href]
    exact Nat.mod_eq_of_lt (one_lt_fast32 hcfg)
  let ctx₂ : SchedCtx 32 T V := SchedCtx.setRef { ctx₁ with
    node := { ctx₁.node with list := L' }, bitmap := bm' } .idle 1
  have hrun : prepareRunQueue cfg fuel idleDispatch ctx = .ok ctx₂ := by
    unfold prepareRunQueue
    rw [if_pos hctx]
    show (require cfg.asserts _ >>= fun _ => nthreadInsertI cfg fuel ctx₁ .idle) = _
    rw [hcfg.asserts, require_false, ok_bind]
    unfold nthreadInsertI
    rw [hcfg.asserts, require_false, ok_bind, if_pos href, hins, ok_bind]
    show Except.ok (SchedCtx.setRef _ .idle ((ctx₁.ref .idle + 1) % 2 ^ cfg.fast32)) = _
    rw [hmod]
  have href₂ : ctx₂.ref = Function.update ctx₁.ref .idle 1 := SchedCtx.ref_setRef ..
  have hidle : 0 < ctx₂.ref .idle := by
    rw [href₂, Function.update_self]
    exact Nat.one_pos
  refine ⟨ctx₂, hrun, ⟨hl', fun p t => ?_, fun t ht => ?_, ⟨rfl, hbias, hidle⟩, rfl⟩, fun t => ?_⟩
  · cases t with
    | app t =>
      refine iff_of_false (fun hm => ?_) (fun h => Bool.false_ne_true h.1)
      by_cases hp : p = 0
      · rw [hp, Function.update_self] at hm
        simp at hm
      · rw [Function.update_of_ne hp] at hm
        cases hm
    | idle =>
      by_cases hp : p = 0
      · rw [hp, Function.update_self]
        exact iff_of_true (List.mem_singleton_self _) ⟨rfl, hbias, hidle⟩
      · rw [Function.update_of_ne hp]
        exact iff_of_false List.not_mem_nil (fun h => hp (h.2.1.symm.trans hbias))
  · cases t with
    | app t => exact absurd ht Bool.false_ne_true
    | idle =>
      show ctx₁.prio .idle < _ ∧ ctx₁.prio .idle < _
      rw [hbias, hcfg.levels]
      exact ⟨hcfg.pos, by omega⟩
  · have hne : ThreadId.app t ≠ .idle := by simp
    rw [href₂, Function.update_of_ne hne, href₁, Function.update_of_ne hne]

end

end NeonEds
