import NeonEds.Ep.Dynamic
import NeonEds.Ep.System
import NeonEds.Sched.Runs

/-!
# Building an agent in dynamic memory

`AllOrNothing`: `nepa_alloc` returns NULL and everything that it allocated was freed once, or it returns
an agent that is complete (`EpaBuilt`); in no case it faults, that is it uses or frees no block that was
freed.

* `dynAlloc_null`, `dynAlloc_some`      an allocation that fails, that succeeds;
* `nqueueAlloc_null`, `nqueueAlloc_noBuf`, `nqueueAlloc_some`
                                        the three ends of `nqueue_alloc`: without the buffer it returns
                                        the address of the queue that it freed;
* `nqueueFree_balanced`                 `nqueue_free` gives back what `nqueue_alloc` allocated;
* `nepaAllocSm_ok`                      what `nepa_alloc` returns once the state machine is there;
* `nepaAlloc_allOrNothing_iff`          when the construction is all or nothing.
-/

set_option linter.unusedSectionVars false

namespace NeonEds
open Exec BlockLedger

variable {S E M N : Type} [DecidableEq M]

/-- what every allocator keeps to: a block that it hands out is not live; here nothing is freed before an
allocation has failed, so an address comes again only behind a NULL -/
structure AnswersFresh (ctx : DynCtx S E M N) : Prop where
  fresh : ∀ i, ctx.answer i ≠ 0 → ctx.blocks.live (ctx.answer i) = none
  again : ∀ i j, i < j → ctx.answer i ≠ 0 → ctx.answer i = ctx.answer j →
    ∃ k, i < k ∧ k < j ∧ ctx.answer k = 0

/-- the four blocks of the agent `epa` are live and can be given back to `m`; the buffer has `n` bytes -/
structure EpaInMemory (P : DynPort) (m : M) (ctx : DynCtx S E M N) (epa n : ℕ) : Prop where
  epaLive : ctx.blocks.IsLive m epa P.nepa
  queueLive : ctx.blocks.IsLive m (ctx.epa epa).queue P.nqueue
  bufLive : ctx.blocks.IsLive m (ctx.queue (ctx.epa epa).queue).buf n
  smLive : ctx.blocks.IsLive m (ctx.epa epa).sm P.nsm
  distinct : [epa, (ctx.epa epa).queue, (ctx.queue (ctx.epa epa).queue).buf,
    (ctx.epa epa).sm].Nodup
  owner : (ctx.epa epa).mem = some m ∧ (ctx.queue (ctx.epa epa).queue).mem = some m ∧
    (ctx.sm (ctx.epa epa).sm).mem = some m

/-- the agent `epa` is complete -/
structure EpaBuilt (P : DynPort) (m : M) (args : NepaArgs E N) (ctx : DynCtx S E M N) (epa : ℕ) :
    Prop extends EpaInMemory P m ctx epa (args.qSize * P.ptr) where
  empty : QueueOk (ctx.queue (ctx.epa epa).queue).qu ∧
    nqueueItems (ctx.queue (ctx.epa epa).queue).qu = [] ∧
    nqueueSize (ctx.queue (ctx.epa epa).queue).qu = args.qSize
  wspace : ∀ i < args.wspaceSize, ∃ size,
    ctx.blocks.live (ctx.epa epa).sm = some (m, size) ∧
    (ctx.epa epa).sm ≤ (ctx.sm (ctx.epa epa).sm).wspace + i ∧
    (ctx.sm (ctx.epa epa).sm).wspace + i < (ctx.epa epa).sm + size

/-- `nepa_alloc` called in `ctx` built the agent or left nothing behind -/
def AllOrNothing (P : DynPort) (m : M) (args : NepaArgs E N) (ctx : DynCtx S E M N) :
    Exec (ℕ × DynCtx S E M N) → Prop
  | .error _ => False
  | .ok (epa, ctx') => (epa = 0 ∧ Balanced ctx.blocks ctx'.blocks) ∨
      (epa ≠ 0 ∧ EpaBuilt P m args ctx' epa)

/-- what `nqueue_alloc` allocated, `nqueue_free` frees -/
def QueueGivenBack (P : DynPort) (ctx : DynCtx S E M N) : Exec (ℕ × DynCtx S E M N) → Prop
  | .error _ => False
  | .ok (queue, ctx') => (queue = 0 ∧ Balanced ctx.blocks ctx'.blocks) ∨
      (queue ≠ 0 ∧ ∃ ctx'', nqueueFree P ctx' queue = .ok ctx'' ∧
        Balanced ctx.blocks ctx''.blocks)

/-! ## one allocation -/

section
variable {ctx : DynCtx S E M N} {m : M} {n : ℕ}

theorem dynAlloc_null (h : ctx.answer 0 = 0) :
    dynAlloc ctx m n = (0, { ctx with answer := fun k => ctx.answer (k + 1) }) :=
  if_neg (fun hc => hc h)

theorem dynAlloc_some (h : ctx.answer 0 ≠ 0) :
    dynAlloc ctx m n = (ctx.answer 0, { ctx with
      answer := fun k => ctx.answer (k + 1), blocks := ctx.blocks.take m (ctx.answer 0) n }) :=
  if_pos h

theorem dynZalloc_null (h : ctx.answer 0 = 0) :
    dynZalloc ctx m n = (0, { ctx with answer := fun k => ctx.answer (k + 1) }) := by
  unfold dynZalloc
  rw [dynAlloc_null h]
  rfl

theorem dynZalloc_some (h : ctx.answer 0 ≠ 0) :
    dynZalloc ctx m n = (ctx.answer 0, memsetZero { ctx with
      answer := fun k => ctx.answer (k + 1), blocks := ctx.blocks.take m (ctx.answer 0) n }
      (ctx.answer 0)) := by
  unfold dynZalloc
  rw [dynAlloc_some h]
  exact if_pos h

/-- a block is freed after everything that was allocated later -/
theorem dynFree_balanced (ctx ctx' : DynCtx S E M N) {a : ℕ} (hfresh : ctx.blocks.live a = none)
    (h : Balanced (ctx.blocks.take m a n) ctx'.blocks) :
    ∃ blocks, dynFree ctx' (some m) a = .ok { ctx' with blocks := blocks } ∧
      Balanced ctx.blocks blocks := by
  obtain ⟨blocks, hgive, hbal⟩ := h.give hfresh
  refine ⟨blocks, ?_, hbal⟩
  unfold dynFree
  rw [deref_some, ok_bind, hgive]
  rfl

end

/-! ## the queue -/

theorem isPowerof2_two_pow (k : ℕ) : isPowerof2 (2 ^ k) = true := by
  have hne : 2 ^ k ≠ 0 := (Nat.two_pow_pos k).ne'
  have hand : 2 ^ k &&& (2 ^ k - 1) = 0 := by
    rw [Nat.and_two_pow_sub_one_eq_mod, Nat.mod_self]
  unfold isPowerof2
  rw [decide_eq_true hne, decide_eq_true hand]
  rfl

section
variable {P : DynPort} {ctx : DynCtx S E M N} {m : M} {elements : ℕ} {junk : ℕ → E}

theorem nqueueAlloc_null (ctx : DynCtx S E M N) (junk : ℕ → E) (h : elements < 2 ∨ ctx.answer 0 = 0) :
    ∃ answer, nqueueAlloc P ctx m elements junk = .ok (0, { ctx with answer := answer }) := by
  by_cases hel : 2 ≤ elements ∧ isPowerof2 elements = true
  · have h0 : ctx.answer 0 = 0 := h.resolve_left (by omega)
    refine ⟨fun k => ctx.answer (k + 1), ?_⟩
    unfold nqueueAlloc
    rw [if_pos hel, dynAlloc_null h0]
    rfl
  · exact ⟨ctx.answer, if_neg hel⟩

/-- without the buffer the queue is freed and its address returned -/
theorem nqueueAlloc_noBuf (ctx : DynCtx S E M N) (hel : 2 ≤ elements ∧ isPowerof2 elements = true)
    (h0 : ctx.answer 0 ≠ 0) (h1 : ctx.answer 1 = 0) :
    nqueueAlloc P ctx m elements junk = .ok (ctx.answer 0, { ctx with
      answer := fun k => ctx.answer (k + 2)
      blocks := {
        live := Function.update ctx.blocks.live (ctx.answer 0) none
        taken := (m, ctx.answer 0) :: ctx.blocks.taken
        given := (m, ctx.answer 0) :: ctx.blocks.given } }) := by
  obtain ⟨ctx₁, hctx₁⟩ : ∃ ctx₁ : DynCtx S E M N, ctx₁ = { ctx with
    answer := fun k => ctx.answer (k + 1),
    blocks := ctx.blocks.take m (ctx.answer 0) P.nqueue } := ⟨_, rfl⟩
  have h1' : ctx₁.answer 0 = 0 := by
    rw [hctx₁]
    exact h1
  have hlive : ctx₁.blocks.IsLive m (ctx.answer 0) P.nqueue := by
    rw [hctx₁]
    exact isLive_take (le_refl _)
  unfold nqueueAlloc
  rw [if_pos hel, dynAlloc_some h0]
  show (if ctx.answer 0 ≠ 0 then _ else _) = _
  rw [if_pos h0, ← hctx₁, dynAlloc_null h1']
  show (dynFree _ _ _ >>= _) = _
  unfold dynFree
  rw [deref_some, ok_bind]
  show ((ctx₁.blocks.give m (ctx.answer 0) >>= _) >>= _) = _
  rw [give_of_isLive hlive, ok_bind, hctx₁]
  simp only [take, Function.update_idem, pure_eq, ok_bind]

theorem nqueueAlloc_some (ctx : DynCtx S E M N) (hel : 2 ≤ elements ∧ isPowerof2 elements = true)
    (h0 : ctx.answer 0 ≠ 0) (h1 : ctx.answer 1 ≠ 0) (hne : ctx.answer 0 ≠ ctx.answer 1) :
    nqueueAlloc P ctx m elements junk = .ok (ctx.answer 0, { ctx with
      answer := fun k => ctx.answer (k + 2)
      blocks := (ctx.blocks.take m (ctx.answer 0) P.nqueue).take m (ctx.answer 1)
        (P.sizeT (elements * P.ptr))
      queue := Function.update ctx.queue (ctx.answer 0)
        ⟨some m, nqueueInit elements junk, ctx.answer 1⟩ }) := by
  obtain ⟨ctx₁, hctx₁⟩ : ∃ ctx₁ : DynCtx S E M N, ctx₁ = { ctx with
    answer := fun k => ctx.answer (k + 1),
    blocks := ctx.blocks.take m (ctx.answer 0) P.nqueue } := ⟨_, rfl⟩
  have h1' : ctx₁.answer 0 ≠ 0 := by
    rw [hctx₁]
    exact h1
  have hans : ctx₁.answer 0 = ctx.answer 1 := by rw [hctx₁]
  have hlive : (ctx₁.blocks.take m (ctx.answer 1) (P.sizeT (elements * P.ptr))).IsLive m
      (ctx.answer 0) P.nqueue := by
    rw [hctx₁]
    exact isLive_take_of_ne (isLive_take (le_refl _)) hne
  unfold nqueueAlloc
  rw [if_pos hel, dynAlloc_some h0]
  show (if ctx.answer 0 ≠ 0 then _ else _) = _
  rw [if_pos h0, ← hctx₁, dynAlloc_some h1', hans]
  show (if ctx.answer 1 = 0 then _ else _) = _
  rw [if_neg h1]
  unfold writeQueue
  rw [use_of_isLive hlive, hctx₁]
  rfl

/-- **`nqueue_free` gives back what `nqueue_alloc` allocated.** -/
theorem nqueueFree_balanced (ctx ctx' : DynCtx S E M N) {queue buf n : ℕ}
    (hq : ctx.blocks.live queue = none) (hb : ctx.blocks.live buf = none) (hne : queue ≠ buf)
    (hmem : (ctx'.queue queue).mem = some m) (hbuf : (ctx'.queue queue).buf = buf)
    (hbal : Balanced ((ctx.blocks.take m queue P.nqueue).take m buf n) ctx'.blocks) :
    ∃ blocks, nqueueFree P ctx' queue = .ok { ctx' with blocks := blocks } ∧
      Balanced ctx.blocks blocks := by
  obtain ⟨ctx₁, hctx₁⟩ : ∃ ctx₁ : DynCtx S E M N, ctx₁ = { ctx' with
    blocks := ctx.blocks.take m queue P.nqueue } := ⟨_, rfl⟩
  have hb₁ : ctx₁.blocks.live buf = none := by
    rw [hctx₁]
    exact (live_take_of_ne (Ne.symm hne)).trans hb
  have hlive : ctx'.blocks.IsLive m queue P.nqueue := by
    rw [isLive_congr hbal.live]
    exact isLive_take_of_ne (isLive_take (le_refl _)) hne
  obtain ⟨blocks₁, hfree₁, hbal₁⟩ := dynFree_balanced (n := n) ctx₁ ctx' hb₁
    (by rw [hctx₁]; exact hbal)
  rw [hctx₁] at hbal₁
  have hlive₁ : blocks₁.IsLive m queue P.nqueue := by
    rw [isLive_congr hbal₁.live]
    exact isLive_take (le_refl _)
  obtain ⟨blocks₂, hfree₂, hbal₂⟩ := dynFree_balanced (n := P.nqueue) ctx
    { ctx' with blocks := blocks₁ } hq hbal₁
  refine ⟨blocks₂, ?_, hbal₂⟩
  unfold nqueueFree readQueue
  rw [use_of_isLive hlive, ok_bind, pure_eq, ok_bind, hmem, hbuf, hfree₁, ok_bind]
  show ((blocks₁.use queue P.nqueue >>= _) >>= _) = _
  rw [use_of_isLive hlive₁, ok_bind, pure_eq, ok_bind]
  show dynFree _ (ctx'.queue queue).mem queue = _
  rw [hmem]
  exact hfree₂

end

/-! ## the state machine, and the agent -/

section
variable {P : DynPort} {threads : ThreadOps S} {ctx ctx' : DynCtx S E M N} {m : M}
  {args : NepaArgs E N} {epa queue : ℕ}

theorem nsmAlloc_null {wspaceSize : ℕ} {initState : N} {type : NsmType} (h : ctx.answer 0 = 0) :
    nsmAlloc P ctx m wspaceSize initState type
      = .ok (0, { ctx with answer := fun k => ctx.answer (k + 1) }) := by
  unfold nsmAlloc
  rw [dynZalloc_null h]
  rfl

theorem nsmAlloc_some {wspaceSize : ℕ} {initState : N} {type : NsmType} (h : ctx.answer 0 ≠ 0) :
    nsmAlloc P ctx m wspaceSize initState type = (do
      (ctx.blocks.take m (ctx.answer 0) (P.sizeT (P.nsm + wspaceSize))).use (ctx.answer 0) P.nsm
      return (ctx.answer 0, { ctx with
        answer := fun k => ctx.answer (k + 1)
        blocks := ctx.blocks.take m (ctx.answer 0) (P.sizeT (P.nsm + wspaceSize))
        epa := Function.update ctx.epa (ctx.answer 0) ⟨none, 0, 0⟩
        sm := Function.update ctx.sm (ctx.answer 0) ⟨some m, some type, some initState, 0⟩ })) := by
  unfold nsmAlloc
  rw [dynZalloc_some h]
  show (if ctx.answer 0 = 0 then _ else _) = _
  rw [if_neg h]
  unfold readSm writeSm
  show (((ctx.blocks.take m (ctx.answer 0) (P.sizeT (P.nsm + wspaceSize))).use _ _ >>= _) >>= _) = _
  cases huse : (ctx.blocks.take m (ctx.answer 0) (P.sizeT (P.nsm + wspaceSize))).use
    (ctx.answer 0) P.nsm with
  | error e => rfl
  | ok u =>
    simp only [memsetZero, DynCtx.setEpa, DynCtx.setSm, huse, ok_bind, pure_eq,
      Function.update_self, Function.update_idem]

theorem nepaAllocSm_null (h : ctx.answer 0 = 0) :
    nepaAllocSm P threads ctx m args epa queue = (do
      let ctx ← nqueueFree P { ctx with answer := fun k => ctx.answer (k + 1) } queue
      let ctx ← dynFree ctx (some m) epa
      return (0, ctx)) := by
  unfold nepaAllocSm
  rw [nsmAlloc_null h]
  rfl

/-- **What `nepa_alloc` returns** once the state machine is there. -/
theorem nepaAllocSm_ok {r : ℕ} (h : ctx.answer 0 ≠ 0)
    (hrun : nepaAllocSm P threads ctx m args epa queue = .ok (r, ctx')) :
    r = epa ∧ ctx'.epa epa = ⟨some m, ctx.answer 0, queue⟩ ∧ ctx'.queue = ctx.queue ∧
      ctx'.sm (ctx.answer 0) = ⟨some m, some args.type, some args.initState, 0⟩ ∧
      ctx'.blocks = ctx.blocks.take m (ctx.answer 0) (P.sizeT (P.nsm + args.wspaceSize)) := by
  unfold nepaAllocSm at hrun
  rw [nsmAlloc_some h] at hrun
  obtain ⟨⟨sm, ctx₁⟩, hsm, hrun⟩ := bind_eq_ok.mp hrun
  obtain ⟨_, _, hsm⟩ := bind_eq_ok.mp hsm
  obtain ⟨rfl, rfl⟩ := Prod.mk.inj (Except.ok.inj hsm)
  replace hrun := (if_neg h).symm.trans hrun
  obtain ⟨ctx₂, hwrite, hrun⟩ := bind_eq_ok.mp hrun
  obtain ⟨_, _, hwrite⟩ := bind_eq_ok.mp hwrite
  obtain ⟨sched, _, hrun⟩ := bind_eq_ok.mp hrun
  obtain ⟨rfl, rfl⟩ := Prod.mk.inj (Except.ok.inj hrun)
  rw [← Except.ok.inj hwrite]
  exact ⟨rfl, Function.update_self .., rfl, Function.update_self .., rfl⟩

theorem nepaAllocSm_returns (queue : ℕ) (hinit : ∀ sched a, ∃ sched', threads.init sched a = .ok sched')
    (h : ctx.answer 0 ≠ 0) (hfit : P.nsm ≤ P.sizeT (P.nsm + args.wspaceSize))
    (hepa : ctx.blocks.IsLive m epa P.nepa) (hne : epa ≠ ctx.answer 0) :
    ∃ ctx', nepaAllocSm P threads ctx m args epa queue = .ok (epa, ctx') := by
  obtain ⟨sched, hsched⟩ := hinit ctx.sched epa
  have hsm : (ctx.blocks.take m (ctx.answer 0) (P.sizeT (P.nsm + args.wspaceSize))).IsLive m
      (ctx.answer 0) P.nsm := isLive_take hfit
  have hlive : (ctx.blocks.take m (ctx.answer 0) (P.sizeT (P.nsm + args.wspaceSize))).IsLive m
      epa P.nepa := isLive_take_of_ne hepa hne
  unfold nepaAllocSm writeEpa
  rw [nsmAlloc_some h, use_of_isLive hsm]
  simp only [ok_bind, pure_eq, if_neg h, use_of_isLive hlive, DynCtx.setEpa, hsched]
  exact ⟨_, rfl⟩

/-! ## `nepa_alloc` -/

/-- the agent is there, the queue not yet -/
def epaTaken (P : DynPort) (m : M) (ctx : DynCtx S E M N) : DynCtx S E M N :=
  memsetZero { ctx with
    answer := fun k => ctx.answer (k + 1), blocks := ctx.blocks.take m (ctx.answer 0) P.nepa }
    (ctx.answer 0)

theorem nepaAlloc_some (h : ctx.answer 0 ≠ 0) :
    nepaAlloc P threads ctx m args = (do
      let (queue, ctx₁) ← nqueueAlloc P (epaTaken P m ctx) m (args.qSize % 2 ^ 32) args.junk
      if queue = 0 then
        let ctx₁ ← dynFree ctx₁ (some m) (ctx.answer 0)
        return (0, ctx₁)
      else nepaAllocSm P threads ctx₁ m args (ctx.answer 0) queue) := by
  unfold nepaAlloc
  rw [dynZalloc_some h]
  exact if_neg h

theorem allOrNothing_noEpa (h0 : ctx.answer 0 = 0) :
    AllOrNothing P m args ctx (nepaAlloc P threads ctx m args) := by
  unfold nepaAlloc
  rw [dynZalloc_null h0]
  exact Or.inl ⟨rfl, Balanced.refl _⟩

theorem allOrNothing_noQueue (hf : AnswersFresh ctx) (h0 : ctx.answer 0 ≠ 0)
    (h : args.qSize % 2 ^ 32 < 2 ∨ ctx.answer 1 = 0) :
    AllOrNothing P m args ctx (nepaAlloc P threads ctx m args) := by
  obtain ⟨answer, hqueue⟩ := nqueueAlloc_null (P := P) (m := m) (epaTaken P m ctx) args.junk h
  obtain ⟨blocks, hfree, hbal⟩ := dynFree_balanced (n := P.nepa) ctx
    { epaTaken P m ctx with answer := answer } (hf.fresh 0 h0) (Balanced.refl _)
  rw [nepaAlloc_some h0, hqueue, ok_bind]
  show AllOrNothing P m args ctx (dynFree _ (some m) (ctx.answer 0) >>= _)
  rw [hfree]
  exact Or.inl ⟨rfl, hbal⟩

/-- the agent is built on a queue that was freed, or the queue is freed again -/
theorem not_allOrNothing_noBuf
    (hel : 2 ≤ args.qSize % 2 ^ 32 ∧ isPowerof2 (args.qSize % 2 ^ 32) = true)
    (h0 : ctx.answer 0 ≠ 0) (h1 : ctx.answer 1 ≠ 0) (h2 : ctx.answer 2 = 0) :
    ¬ AllOrNothing P m args ctx (nepaAlloc P threads ctx m args) := by
  obtain ⟨ctx₁, hctx₁⟩ : ∃ ctx₁ : DynCtx S E M N, ctx₁ = { epaTaken P m ctx with
    answer := fun k => ctx.answer (k + 3)
    blocks := {
      live := Function.update (epaTaken P m ctx).blocks.live (ctx.answer 1) none
      taken := (m, ctx.answer 1) :: (epaTaken P m ctx).blocks.taken
      given := (m, ctx.answer 1) :: (epaTaken P m ctx).blocks.given } } := ⟨_, rfl⟩
  have hqueue : nqueueAlloc P (epaTaken P m ctx) m (args.qSize % 2 ^ 32) args.junk
      = .ok (ctx.answer 1, ctx₁) := by
    rw [hctx₁]
    exact nqueueAlloc_noBuf (epaTaken P m ctx) hel h1 h2
  have hdead : ctx₁.blocks.live (ctx.answer 1) = none := by
    rw [hctx₁]
    exact Function.update_self ..
  have hrun : nepaAlloc P threads ctx m args
      = nepaAllocSm P threads ctx₁ m args (ctx.answer 0) (ctx.answer 1) := by
    rw [nepaAlloc_some h0, hqueue]
    exact if_neg h1
  rw [hrun]
  intro hall
  by_cases h3 : ctx₁.answer 0 = 0
  · -- `nqueue_free` reads the queue that was freed
    have hfault : nqueueFree P { ctx₁ with answer := fun k => ctx₁.answer (k + 1) } (ctx.answer 1)
        = .error .freed := by
      unfold nqueueFree readQueue use
      rw [hdead]
      rfl
    rw [nepaAllocSm_null h3, hfault] at hall
    exact hall
  · cases hend : nepaAllocSm P threads ctx₁ m args (ctx.answer 0) (ctx.answer 1) with
    | error e =>
      rw [hend] at hall
      exact hall
    | ok x =>
      obtain ⟨r, ctx₂⟩ := x
      obtain ⟨hr, hepa, _, _, hblocks⟩ := nepaAllocSm_ok h3 hend
      rw [hend] at hall
      rcases hall with ⟨hnull, _⟩ | ⟨_, hbuilt⟩
      · exact h0 (hr.symm.trans hnull)
      · have hlive := hbuilt.queueLive
        have hnodup := hbuilt.distinct
        rw [hr, hepa, hblocks] at hlive
        rw [hr, hepa] at hnodup
        -- the queue is dead, unless the state machine got its block
        by_cases hsm : ctx.answer 1 = ctx₁.answer 0
        · rw [hsm] at hnodup
          simp at hnodup
        · obtain ⟨size, hsize, _⟩ := hlive
          rw [live_take_of_ne hsm] at hsize
          exact Option.some_ne_none _ (hsize.symm.trans hdead)

/-- the queue and its buffer are there -/
def queueTaken (P : DynPort) (m : M) (args : NepaArgs E N) (ctx : DynCtx S E M N) :
    DynCtx S E M N :=
  { epaTaken P m ctx with
    answer := fun k => ctx.answer (k + 3)
    blocks := ((epaTaken P m ctx).blocks.take m (ctx.answer 1) P.nqueue).take m (ctx.answer 2)
      (P.sizeT (args.qSize % 2 ^ 32 * P.ptr))
    queue := Function.update ctx.queue (ctx.answer 1)
      ⟨some m, nqueueInit (args.qSize % 2 ^ 32) args.junk, ctx.answer 2⟩ }

theorem AnswersFresh.ne (hf : AnswersFresh ctx) {i j : ℕ} (hij : i < j)
    (h : ∀ k, i ≤ k → k < j → ctx.answer k ≠ 0) : ctx.answer i ≠ ctx.answer j := by
  intro heq
  obtain ⟨k, hik, hkj, hk⟩ := hf.again i j hij (h i (le_refl i) hij) heq
  exact h k hik.le hkj hk

theorem nepaAlloc_queueTaken (hf : AnswersFresh ctx)
    (hel : 2 ≤ args.qSize % 2 ^ 32 ∧ isPowerof2 (args.qSize % 2 ^ 32) = true)
    (hans : ∀ k < 3, ctx.answer k ≠ 0) :
    nepaAlloc P threads ctx m args = nepaAllocSm P threads (queueTaken P m args ctx) m args
      (ctx.answer 0) (ctx.answer 1) := by
  have hne : ctx.answer 1 ≠ ctx.answer 2 := hf.ne (by decide) fun k _ hk => hans k (by omega)
  have hqueue : nqueueAlloc P (epaTaken P m ctx) m (args.qSize % 2 ^ 32) args.junk
      = .ok (ctx.answer 1, queueTaken P m args ctx) :=
    nqueueAlloc_some (epaTaken P m ctx) hel (hans 1 (by decide)) (hans 2 (by decide)) hne
  rw [nepaAlloc_some (hans 0 (by decide)), hqueue]
  exact if_neg (hans 1 (by decide))

theorem allOrNothing_noSm (hf : AnswersFresh ctx)
    (hel : 2 ≤ args.qSize % 2 ^ 32 ∧ isPowerof2 (args.qSize % 2 ^ 32) = true)
    (hans : ∀ k < 3, ctx.answer k ≠ 0) (h3 : ctx.answer 3 = 0) :
    AllOrNothing P m args ctx (nepaAlloc P threads ctx m args) := by
  have hne₁ : ctx.answer 0 ≠ ctx.answer 1 := hf.ne (by decide) fun k _ hk => hans k (by omega)
  have hne₂ : ctx.answer 0 ≠ ctx.answer 2 := hf.ne (by decide) fun k _ hk => hans k (by omega)
  have hne₃ : ctx.answer 1 ≠ ctx.answer 2 := hf.ne (by decide) fun k _ hk => hans k (by omega)
  have hself : (queueTaken P m args ctx).queue (ctx.answer 1)
      = ⟨some m, nqueueInit (args.qSize % 2 ^ 32) args.junk, ctx.answer 2⟩ :=
    Function.update_self ..
  obtain ⟨blocks₁, hfree₁, hbal₁⟩ := nqueueFree_balanced (P := P) (m := m)
    (n := P.sizeT (args.qSize % 2 ^ 32 * P.ptr)) (epaTaken P m ctx)
    { queueTaken P m args ctx with answer := fun k => ctx.answer (k + 4) }
    ((live_take_of_ne hne₁.symm).trans (hf.fresh 1 (hans 1 (by decide))))
    ((live_take_of_ne hne₂.symm).trans (hf.fresh 2 (hans 2 (by decide)))) hne₃
    (by rw [hself]) (by rw [hself]) (Balanced.refl _)
  obtain ⟨blocks₂, hfree₂, hbal₂⟩ := dynFree_balanced (n := P.nepa) ctx
    { queueTaken P m args ctx with answer := fun k => ctx.answer (k + 4), blocks := blocks₁ }
    (hf.fresh 0 (hans 0 (by decide))) hbal₁
  rw [nepaAlloc_queueTaken hf hel hans, nepaAllocSm_null h3]
  show AllOrNothing P m args ctx (nqueueFree P { queueTaken P m args ctx with
    answer := fun k => ctx.answer (k + 4) } (ctx.answer 1) >>= _)
  rw [hfree₁, ok_bind, hfree₂]
  exact Or.inl ⟨rfl, hbal₂⟩

theorem queueTaken_queue (hlt : args.qSize < 2 ^ 32) :
    (queueTaken P m args ctx).queue (ctx.answer 1)
      = ⟨some m, nqueueInit args.qSize args.junk, ctx.answer 2⟩ := by
  unfold queueTaken
  rw [Nat.mod_eq_of_lt hlt]
  exact Function.update_self ..

theorem queueTaken_buf (hlt : args.qSize < 2 ^ 32) :
    (queueTaken P m args ctx).blocks.live (ctx.answer 2) = some (m, P.sizeT (args.qSize * P.ptr)) := by
  unfold queueTaken
  rw [Nat.mod_eq_of_lt hlt]
  exact Function.update_self ..

/-- a complete agent has no work space and a buffer whose size is a `size_t` -/
theorem fits_of_epaBuilt {r : ℕ} {ctx₂ : DynCtx S E M N} (hlt : args.qSize < 2 ^ 32)
    (hbuf : ctx.answer 2 ≠ ctx.answer 3) (h3 : ctx.answer 3 ≠ 0)
    (hend : nepaAllocSm P threads (queueTaken P m args ctx) m args (ctx.answer 0) (ctx.answer 1)
      = .ok (r, ctx₂)) (hbuilt : EpaBuilt P m args ctx₂ r) :
    args.wspaceSize = 0 ∧ args.qSize * P.ptr < 2 ^ P.sizeBits := by
  obtain ⟨hr, hepa, hq, hsm, hblocks⟩ := nepaAllocSm_ok h3 hend
  constructor
  · -- a work space would begin at NULL
    by_contra hws
    obtain ⟨_, _, hle, _⟩ := hbuilt.wspace 0 (Nat.pos_of_ne_zero hws)
    rw [hr, hepa, hsm] at hle
    exact h3 (Nat.le_zero.mp hle)
  · obtain ⟨size, hlive, hle⟩ := hbuilt.bufLive
    rw [hr, hepa, hq, hblocks, queueTaken_queue hlt] at hlive
    replace hlive := (live_take_of_ne hbuf).symm.trans hlive
    rw [queueTaken_buf hlt] at hlive
    obtain rfl := (Prod.mk.inj (Option.some.inj hlive)).2
    exact lt_of_le_of_lt hle (Nat.mod_lt _ (Nat.two_pow_pos _))

theorem epaBuilt_of_fits (hinit : ∀ sched a, ∃ sched', threads.init sched a = .ok sched') {k : ℕ}
    (h1 : 1 ≤ k) (h31 : k ≤ 31) (hsize : args.qSize = 2 ^ k) (hlt : args.qSize < 2 ^ 32)
    (hne : ∀ i j, i < j → j < 4 → ctx.answer i ≠ ctx.answer j) (h3 : ctx.answer 3 ≠ 0)
    (hws : args.wspaceSize = 0) (hfits : args.qSize * P.ptr < 2 ^ P.sizeBits) :
    ∃ ctx', nepaAllocSm P threads (queueTaken P m args ctx) m args (ctx.answer 0) (ctx.answer 1)
      = .ok (ctx.answer 0, ctx') ∧ EpaBuilt P m args ctx' (ctx.answer 0) := by
  have hepaLive : (queueTaken P m args ctx).blocks.IsLive m (ctx.answer 0) P.nepa :=
    isLive_take_of_ne (isLive_take_of_ne (isLive_take (le_refl _))
      (hne 0 1 (by decide) (by decide))) (hne 0 2 (by decide) (by decide))
  have hqueueLive : (queueTaken P m args ctx).blocks.IsLive m (ctx.answer 1) P.nqueue :=
    isLive_take_of_ne (isLive_take (le_refl _)) (hne 1 2 (by decide) (by decide))
  have hsm0 : (queueTaken P m args ctx).answer 0 = ctx.answer 3 := rfl
  have hfit : P.nsm ≤ P.sizeT (P.nsm + args.wspaceSize) := by
    rw [hws]
    exact (Nat.mod_eq_of_lt P.nsm_lt).ge
  obtain ⟨ctx', hend⟩ := nepaAllocSm_returns (ctx.answer 1) hinit
    (show (queueTaken P m args ctx).answer 0 ≠ 0 from h3) hfit hepaLive
    (hne 0 3 (by decide) (by decide))
  obtain ⟨_, hepa, hq, hsm, hblocks⟩ := nepaAllocSm_ok h3 hend
  refine ⟨ctx', hend, ⟨?_, ?_, ?_, ?_, ?_, ?_⟩, ?_, fun i hi => ?_⟩
  · rw [hblocks]
    exact isLive_take_of_ne hepaLive (hne 0 3 (by decide) (by decide))
  · rw [hepa, hblocks]
    exact isLive_take_of_ne hqueueLive (hne 1 3 (by decide) (by decide))
  · rw [hepa, hq, queueTaken_queue hlt, hblocks]
    exact isLive_take_of_ne ⟨_, queueTaken_buf hlt, (Nat.mod_eq_of_lt hfits).ge⟩
      (hne 2 3 (by decide) (by decide))
  · rw [hepa, hblocks]
    exact isLive_take hfit
  · rw [hepa, hq, queueTaken_queue hlt]
    simp only [List.nodup_cons, List.mem_cons, List.not_mem_nil, or_false, not_or,
      not_false_eq_true, List.nodup_nil, and_true, hsm0]
    exact ⟨⟨hne 0 1 (by decide) (by decide), hne 0 2 (by decide) (by decide),
      hne 0 3 (by decide) (by decide)⟩, ⟨hne 1 2 (by decide) (by decide),
      hne 1 3 (by decide) (by decide)⟩, hne 2 3 (by decide) (by decide)⟩
  · rw [hepa, hq, queueTaken_queue hlt, hsm]
    exact ⟨rfl, rfl, rfl⟩
  · rw [hepa, hq, queueTaken_queue hlt, hsize]
    obtain ⟨hok, hitems⟩ := nqueueInit_ok h1 h31 args.junk
    have hlen := hok.length
    rw [hitems] at hlen
    exact ⟨hok, hitems, hlen.symm.trans (Nat.zero_add _)⟩
  · rw [hws] at hi
    exact absurd hi (Nat.not_lt_zero i)

theorem allOrNothing_sm_iff (hinit : ∀ sched a, ∃ sched', threads.init sched a = .ok sched')
    (hf : AnswersFresh ctx) {k : ℕ} (h1 : 1 ≤ k) (hsize : args.qSize = 2 ^ k)
    (hlt : args.qSize < 2 ^ 32) (hans : ∀ k < 4, ctx.answer k ≠ 0) :
    AllOrNothing P m args ctx (nepaAlloc P threads ctx m args) ↔
      args.wspaceSize = 0 ∧ args.qSize * P.ptr < 2 ^ P.sizeBits := by
  have h31 : k ≤ 31 := by
    have hpow : 2 ^ k < 2 ^ 32 := hsize ▸ hlt
    have := (Nat.pow_lt_pow_iff_right (by decide)).mp hpow
    omega
  have htwo : 2 ≤ 2 ^ k := Nat.pow_le_pow_right (n := 2) (by decide) h1
  have hel : 2 ≤ args.qSize % 2 ^ 32 ∧ isPowerof2 (args.qSize % 2 ^ 32) = true := by
    rw [Nat.mod_eq_of_lt hlt, hsize]
    exact ⟨htwo, isPowerof2_two_pow k⟩
  have hne : ∀ i j, i < j → j < 4 → ctx.answer i ≠ ctx.answer j := fun i j hij hj =>
    hf.ne hij fun l _ hl => hans l (by omega)
  rw [nepaAlloc_queueTaken hf hel fun k hk => hans k (by omega)]
  constructor
  · intro hall
    cases hend : nepaAllocSm P threads (queueTaken P m args ctx) m args (ctx.answer 0)
      (ctx.answer 1) with
    | error e =>
      rw [hend] at hall
      exact hall.elim
    | ok x =>
      obtain ⟨r, ctx₂⟩ := x
      have hr : r = ctx.answer 0 := (nepaAllocSm_ok (hans 3 (by decide)) hend).1
      rw [hend] at hall
      rcases hall with ⟨hnull, _⟩ | ⟨_, hbuilt⟩
      · exact absurd (hr.symm.trans hnull) (hans 0 (by decide))
      · exact fits_of_epaBuilt hlt (hne 2 3 (by decide) (by decide)) (hans 3 (by decide)) hend hbuilt
  · intro ⟨hws, hfits⟩
    obtain ⟨ctx', hend, hbuilt⟩ := epaBuilt_of_fits hinit h1 h31 hsize hlt hne (hans 3 (by decide))
      hws hfits
    rw [hend]
    exact Or.inr ⟨hans 0 (by decide), hbuilt⟩

theorem queueGivenBack_iff (hf : AnswersFresh ctx) {elements : ℕ} {junk : ℕ → E}
    (hel : 2 ≤ elements ∧ isPowerof2 elements = true) :
    QueueGivenBack P ctx (nqueueAlloc P ctx m elements junk) ↔
      ctx.answer 0 = 0 ∨ ctx.answer 1 ≠ 0 := by
  by_cases h0 : ctx.answer 0 = 0
  · obtain ⟨answer, hrun⟩ := nqueueAlloc_null (P := P) (m := m) ctx junk (Or.inr h0)
    rw [hrun]
    exact iff_of_true (Or.inl ⟨rfl, Balanced.refl _⟩) (Or.inl h0)
  by_cases h1 : ctx.answer 1 = 0
  · rw [nqueueAlloc_noBuf ctx hel h0 h1]
    refine iff_of_false (fun h => ?_) (fun h => h.elim h0 (fun hc => hc h1))
    rcases h with ⟨hnull, _⟩ | ⟨_, ctx'', hfree, _⟩
    · exact h0 hnull
    · unfold nqueueFree readQueue use at hfree
      simp only [Function.update_self, error_bind, reduceCtorEq] at hfree
  · have hne : ctx.answer 0 ≠ ctx.answer 1 :=
      hf.ne (by decide) fun l _ hl => by
        obtain rfl : l = 0 := by omega
        exact h0
    rw [nqueueAlloc_some ctx hel h0 h1 hne]
    refine iff_of_true (Or.inr ⟨h0, ?_⟩) (Or.inr h1)
    obtain ⟨queue, hqueue⟩ : ∃ queue : ℕ → NqueueObj E M, queue = Function.update ctx.queue
      (ctx.answer 0) ⟨some m, nqueueInit elements junk, ctx.answer 1⟩ := ⟨_, rfl⟩
    have hself : queue (ctx.answer 0) = ⟨some m, nqueueInit elements junk, ctx.answer 1⟩ := by
      rw [hqueue]
      exact Function.update_self ..
    obtain ⟨blocks, hfree, hbal⟩ := nqueueFree_balanced (P := P) (m := m) ctx
      { ctx with
        answer := fun k => ctx.answer (k + 2)
        blocks := (ctx.blocks.take m (ctx.answer 0) P.nqueue).take m (ctx.answer 1)
          (P.sizeT (elements * P.ptr))
        queue := queue }
      (hf.fresh 0 h0) (hf.fresh 1 h1) hne (congrArg NqueueObj.mem hself)
      (congrArg NqueueObj.buf hself) (Balanced.refl _)
    rw [← hqueue]
    exact ⟨_, hfree, hbal⟩

variable (P threads m args) in
/-- **`nepa_alloc` is all or nothing** iff an agent is not built without the buffer of its queue, nor
with a work space; **`nqueue_free` frees what `nqueue_alloc` allocated** iff the buffer is there or the
queue is not. -/
theorem nepaAlloc_allOrNothing_iff
    (hinit : ∀ sched a, ∃ sched', threads.init sched a = .ok sched') (hf : AnswersFresh ctx)
    (hsize : ∃ k, 1 ≤ k ∧ args.qSize = 2 ^ k) :
    (AllOrNothing P m args ctx (nepaAlloc P threads ctx m args) ↔
      ctx.answer 0 = 0 ∨ 2 ^ 32 ≤ args.qSize ∨ ctx.answer 1 = 0 ∨ ctx.answer 2 ≠ 0 ∧
        (ctx.answer 3 = 0 ∨ args.wspaceSize = 0 ∧ args.qSize * P.ptr < 2 ^ P.sizeBits)) ∧
    (QueueGivenBack P ctx (nqueueAlloc P ctx m (args.qSize % 2 ^ 32) args.junk) ↔
      2 ^ 32 ≤ args.qSize ∨ ctx.answer 0 = 0 ∨ ctx.answer 1 ≠ 0) := by
  obtain ⟨k, h1, hk⟩ := hsize
  by_cases hlt : args.qSize < 2 ^ 32
  · have hel : 2 ≤ args.qSize % 2 ^ 32 ∧ isPowerof2 (args.qSize % 2 ^ 32) = true := by
      rw [Nat.mod_eq_of_lt hlt, hk]
      exact ⟨Nat.pow_le_pow_right (n := 2) (by decide) h1, isPowerof2_two_pow k⟩
    have hnot : ¬ 2 ^ 32 ≤ args.qSize := Nat.not_le_of_lt hlt
    constructor
    · by_cases h0 : ctx.answer 0 = 0
      · exact iff_of_true (allOrNothing_noEpa h0) (Or.inl h0)
      by_cases hq : ctx.answer 1 = 0
      · exact iff_of_true (allOrNothing_noQueue hf h0 (Or.inr hq)) (Or.inr (Or.inr (Or.inl hq)))
      by_cases hb : ctx.answer 2 = 0
      · refine iff_of_false (not_allOrNothing_noBuf hel h0 hq hb) (fun h => ?_)
        exact ((h.resolve_left h0).resolve_left hnot).resolve_left hq |>.1 hb
      have hans : ∀ k < 3, ctx.answer k ≠ 0
        | 0, _ => h0
        | 1, _ => hq
        | 2, _ => hb
      by_cases h3 : ctx.answer 3 = 0
      · exact iff_of_true (allOrNothing_noSm hf hel hans h3)
          (Or.inr (Or.inr (Or.inr ⟨hb, Or.inl h3⟩)))
      · rw [allOrNothing_sm_iff hinit hf h1 hk hlt fun l hl => by
          by_cases hl3 : l = 3
          · rw [hl3]
            exact h3
          · exact hans l (by omega)]
        constructor
        · intro h
          exact Or.inr (Or.inr (Or.inr ⟨hb, Or.inr h⟩))
        · intro h
          exact (((h.resolve_left h0).resolve_left hnot).resolve_left hq).2.resolve_left h3
    · rw [queueGivenBack_iff hf hel]
      constructor
      · intro h
        exact Or.inr h
      · intro h
        exact h.resolve_left hnot
  · have hzero : args.qSize % 2 ^ 32 < 2 := by
      have h32 : 32 ≤ k := by
        by_contra hc
        exact hlt (hk ▸ Nat.pow_lt_pow_right (by decide) (Nat.lt_of_not_le hc))
      rw [hk, Nat.mod_eq_zero_of_dvd (Nat.pow_dvd_pow 2 h32)]
      decide
    constructor
    · refine iff_of_true ?_ (Or.inr (Or.inl (Nat.le_of_not_lt hlt)))
      by_cases h0 : ctx.answer 0 = 0
      · exact allOrNothing_noEpa h0
      · exact allOrNothing_noQueue hf h0 (Or.inl hzero)
    · obtain ⟨answer, hrun⟩ := nqueueAlloc_null (P := P) (m := m) ctx args.junk (Or.inl hzero)
      rw [hrun]
      exact iff_of_true (Or.inl ⟨rfl, Balanced.refl _⟩) (Or.inl (Nat.le_of_not_lt hlt))

end

/-! ## an agent in a 64-bit port -/

/-- `nthread_init` and `nthread_term` of `sched.c`; the dispatch function of a new agent is NULL -/
def edsThreads (cfg : SchedConfig) (fuel prio : ℕ) : ThreadOps (SchedCtx 32 ℕ (Option EpaFn)) where
  init := fun sched epa => nthreadInit cfg fuel (some .idle) sched (.app epa) prio none
  term := fun sched epa => nthreadTerm cfg sched (.app epa)

theorem edsThreads_init {cfg : SchedConfig} (hcfg : OneBucketPerLevel cfg) (fuel prio : ℕ)
    (sched : SchedCtx 32 ℕ (Option EpaFn)) (epa : ℕ) :
    ∃ sched', (edsThreads cfg fuel prio).init sched epa = .ok sched' := by
  show ∃ sched', nthreadInit cfg fuel (some .idle) sched (.app epa) prio none = .ok sched'
  unfold nthreadInit
  rw [hcfg.asserts, require_false, ok_bind]
  cases hinit : sched.isInitialized with
  | false =>
    obtain ⟨sched₁, hrun, _⟩ := prepareRunQueue_first hcfg fuel (some .idle) hinit
    rw [hrun]
    exact ⟨_, rfl⟩
  | true =>
    have hrun : prepareRunQueue cfg fuel (some .idle) sched = .ok sched := by
      unfold prepareRunQueue
      rw [hinit]
      rfl
    rw [hrun]
    exact ⟨_, rfl⟩

def dynPort64 : DynPort where
  sizeBits := 64
  ptr := 8
  nepa := 64
  nqueue := 32
  nsm := 32
  nepa_lt := by decide
  nqueue_lt := by decide
  nsm_lt := by decide

/-- no block is live; the allocator answers `answer` -/
def emptyMemory (answer : ℕ → ℕ) : DynCtx (SchedCtx 32 ℕ (Option EpaFn)) Unit Unit Unit where
  event := fun _ => { mem := none, id := 0, attrib := 0#32, ref := 0#32 }
  frees := []
  blocks := ⟨fun _ => none, [], []⟩
  answer := answer
  epa := fun _ => ⟨none, 0, 0⟩
  queue := fun _ => ⟨none, nqueueInit 2 (fun _ => ()), 0⟩
  sm := fun _ => ⟨none, none, none, 0⟩
  sched := SchedCtx.init

/-- a queue of two events and a work space of `wspaceSize` bytes -/
def twoEvents (wspaceSize : ℕ) : NepaArgs Unit Unit where
  qSize := 2
  wspaceSize := wspaceSize
  initState := ()
  type := .hsm
  junk := fun _ => ()

/-- four blocks, then no more -/
def fourBlocks (k : ℕ) : ℕ := if k < 4 then 1000 * (k + 1) else 0

theorem fourBlocks_fresh : AnswersFresh (emptyMemory fourBlocks) := by
  refine ⟨fun _ _ => rfl, fun i j hij h0 heq => ?_⟩
  have hi : i < 4 := by
    by_contra hc
    exact h0 (if_neg hc)
  have hlt : fourBlocks i = 1000 * (i + 1) := if_pos hi
  have hsame : 1000 * (i + 1) = fourBlocks j := hlt.symm.trans heq
  unfold fourBlocks at hsame
  split at hsame
  · omega
  · omega

theorem nepaAlloc_allOrNothing_iff_fourBlocks :
    AllOrNothing dynPort64 () (twoEvents 0) (emptyMemory fourBlocks)
        (nepaAlloc dynPort64 (edsThreads cfg32 0 3) (emptyMemory fourBlocks) () (twoEvents 0)) ∧
      QueueGivenBack dynPort64 (emptyMemory fourBlocks)
        (nqueueAlloc dynPort64 (emptyMemory fourBlocks) () 2 (fun _ => ())) := by
  have h := nepaAlloc_allOrNothing_iff dynPort64 (edsThreads cfg32 0 3) () (twoEvents 0)
    (edsThreads_init cfg32_oneBucketPerLevel 0 3) fourBlocks_fresh ⟨1, le_refl 1, rfl⟩
  exact ⟨h.1.mpr (by decide), h.2.mpr (by decide)⟩

/-- there is memory for the agent, for the queue and for the state machine, not for the buffer -/
def noBuffer (k : ℕ) : ℕ := if k = 2 then 0 else fourBlocks k

theorem noBuffer_not_allOrNothing :
    ¬ AllOrNothing dynPort64 () (twoEvents 0) (emptyMemory noBuffer)
      (nepaAlloc dynPort64 (edsThreads cfg32 0 3) (emptyMemory noBuffer) () (twoEvents 0)) :=
  not_allOrNothing_noBuf (by decide) (by decide) (by decide) rfl

end NeonEds
