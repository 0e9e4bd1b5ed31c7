import NeonEds.Ep.Epa
import NeonEds.Lib.Mailbox
import NeonEds.Sched.Ready

/-!
# Agents on the scheduler

The agents of `Ep/Epa` on the run queue of `Sched/Ready`.  The steps are the critical sections; an
ISR, another thread or the state machine itself may take a step wherever the loop has left its critical
section.  The events change in any way between two steps: they are created, locked, deferred and given
back by others.

* `EpaInv`                 the reference count of a thread is the number of the events in the queue of
                           its agent, one more while its initial dispatch is pending or running, one
                           more while an event is dispatched; the queue is the mailbox of the agent;
* `EpaInv.step`            every step keeps it, and its note is right.
-/

set_option linter.unusedSectionVars false

namespace NeonEds
open Exec Mailbox

variable {T D E M : Type} [DecidableEq T] [DecidableEq D] [DecidableEq E]

abbrev EpaSys (T D E M : Type) := EpaCtx (SchedCtx 32 T EpaFn) T D E M

def edsScheduler (cfg : SchedConfig) (fuel : ℕ) : Scheduler (SchedCtx 32 T EpaFn) T where
  insertI := fun ctx t => nthreadInsertI cfg fuel ctx (.app t)
  removeI := fun ctx t => nthreadRemoveI cfg ctx (.app t)
  setDispatch := fun ctx t fn =>
    ctx.setThread (.app t) { ctx.thread (.app t) with vfDispatch := some fn }

inductive EpaStep (T D E M : Type) where
  | register (t : T)
  | send (t : T) (e : E)
  | sendAhead (t : T) (e : E)
  /-- the loop of `nthread_schedule` chooses a thread and calls its `vf_dispatch_i` -/
  | schedule
  /-- the state machine returns, the reference to the event is given up -/
  | returns
  /-- the last critical section of a dispatch -/
  | finish
  /-- others change the events and the deferred queues -/
  | memory (m : EventMem E M) (deferred : D → Nqueue E)

/-- `thread->vf_dispatch_i(thread, &lock)` up to the call of the state machine -/
def vfDispatchI (ctx : EpaSys T D E M) :
    SchedNode T → Exec (Option (Note T E) × EpaSys T D E M)
  | .sentinel _ => .error .null
  | .thread .idle =>
    match ctx.sched.fn .idle with
    | some .idle => .ok (none, ctx)
    | _ => .error .null
  | .thread (.app t) =>
    match ctx.sched.fn (.app t) with
    | some .init => .ok (some (.start t), { ctx with ctl := .initialising t })
    | some .dispatch => .ok (some (.pass t (nqueueGet (ctx.queue t)).1), epaDispatchStart ctx t)
    | _ => .error .null

/-- what a send that returned `NERROR_NONE` is noted as -/
def noteOf (note : Note T E) : Nerror → Option (Note T E)
  | .none => some note
  | _ => none

def runEpaStep (cfg : SchedConfig) (fuel : ℕ) (saturates : Bool) (ctx : EpaSys T D E M) :
    EpaStep T D E M → Exec (Option (Note T E) × EpaSys T D E M)
  | .register t => do
    let ctx ← nepaRegister (edsScheduler cfg fuel) ctx t
    return (none, ctx)
  | .send t e => do
    let (error, ctx) ← nepaSendEventI (edsScheduler cfg fuel) saturates ctx t e
    return (noteOf (.put t e) error, ctx)
  | .sendAhead t e => do
    let (error, ctx) ← nepaSendEventAheadI (edsScheduler cfg fuel) saturates ctx t e
    return (noteOf (.putAhead t e) error, ctx)
  | .schedule => do
    let (n, sched) ← schedScheduleI cfg fuel ctx.sched
    vfDispatchI { ctx with sched := sched } n
  | .returns =>
    match ctx.ctl with
    | .dispatching t e => .ok (none, epaDispatchRefDown saturates ctx t e)
    | _ => .ok (none, ctx)
  | .finish =>
    match ctx.ctl with
    | .initialising t => do
      let ctx ← epaInitEnd (edsScheduler cfg fuel) ctx t
      return (none, ctx)
    | .dispatched t e => do
      let ctx ← epaDispatchEnd (edsScheduler cfg fuel) ctx t e
      return (none, ctx)
    | _ => .ok (none, ctx)
  | .memory m deferred => .ok (none, { ctx.withMem m with deferred := deferred })

def registeredAfter (registered : T → Bool) : EpaStep T D E M → T → Bool
  | .register t => Function.update registered t true
  | _ => registered

/-- an agent is registered once, before an event that was sent to it is scheduled; the loop takes its
steps one after the other -/
def LegalEpaStep (ctx : EpaSys T D E M) (registered : T → Bool) : EpaStep T D E M → Prop
  | .register t => registered t = false
  | .schedule => ctx.ctl = .loop ∧
      ∀ t, nqueueIsEmpty (ctx.queue t) = false → registered t = true
  | .returns => ∃ t e, ctx.ctl = .dispatching t e
  | .finish => (∃ t, ctx.ctl = .initialising t) ∨ ∃ t e, ctx.ctl = .dispatched t e
  | _ => True

/-- the state machine of `t` handles an event or has just done so -/
def EpaCtl.dispatches : EpaCtl T E → T → Bool
  | .dispatching t' _, t => decide (t' = t)
  | .dispatched t' _, t => decide (t' = t)
  | _, _ => false

/-- the references to the thread of `t` besides those of the events in its queue -/
def wakeups (ctx : EpaSys T D E M) (registered : T → Bool) (t : T) : ℕ :=
  (if registered t = true ∧ ctx.sched.fn (.app t) = some .init then 1 else 0) +
    if ctx.ctl.dispatches t = true then 1 else 0

/-- what holds between the steps -/
structure EpaInv (cfg : SchedConfig) (ctx : EpaSys T D E M) (registered : T → Bool)
    (m : Mailbox T E) : Prop where
  ready : ∃ q, Ready cfg ctx.sched (fun _ => true) q
  queue : ∀ t, QueueOk (ctx.queue t)
  items : ∀ t, nqueueItems (ctx.queue t) = (m.pending t).map Prod.snd
  ref : ∀ t, ctx.sched.ref (.app t)
    = (nqueueItems (ctx.queue t)).length + wakeups ctx registered t
  idle : ctx.sched.fn .idle = some .idle
  phase : ∀ t, registered t = true →
    (ctx.sched.fn (.app t) = some .init ∧ (m.started t = true → ctx.ctl = .initialising t)) ∨
    (ctx.sched.fn (.app t) = some .dispatch ∧ m.started t = true)
  unregistered : ∀ t, registered t = false → m.started t = false
  initialising : ∀ t, ctx.ctl = .initialising t →
    registered t = true ∧ ctx.sched.fn (.app t) = some .init ∧ m.started t = true
  dispatches : ∀ t, ctx.ctl.dispatches t = true →
    registered t = true ∧ ctx.sched.fn (.app t) = some .dispatch
  mail : m.ExactlyOnce

section
variable {cfg : SchedConfig} {ctx : EpaSys T D E M} {registered : T → Bool} {m : Mailbox T E}

theorem wakeups_congr {ctx' : EpaSys T D E M} (hfn : ctx'.sched.fn = ctx.sched.fn)
    (hdis : ∀ t, ctx'.ctl.dispatches t = ctx.ctl.dispatches t) (t : T) :
    wakeups ctx' registered t = wakeups ctx registered t := by
  unfold wakeups
  rw [hfn, hdis]

theorem wakeups_le (ctx : EpaSys T D E M) (registered : T → Bool) (t : T) :
    wakeups ctx registered t ≤ 2 := by
  unfold wakeups
  split <;> split <;> omega

namespace EpaInv

theorem ref_lt (h : EpaInv cfg ctx registered m) (hcfg : OneBucketPerLevel cfg) (t : T) :
    ctx.sched.ref (.app t) + 1 < 2 ^ cfg.fast32 := by
  have hle : (2 : ℕ) ^ 32 ≤ 2 ^ cfg.fast32 := Nat.pow_le_pow_right (by decide) hcfg.fast32
  have hw := wakeups_le ctx registered t
  have hlen := (h.queue t).length
  have hsize := (h.queue t).size_bounds
  have href := h.ref t
  omega

theorem memory (h : EpaInv cfg ctx registered m) {ctx' : EpaSys T D E M}
    (hs : ctx'.sched = ctx.sched) (hq : ctx'.queue = ctx.queue) (hc : ctx'.ctl = ctx.ctl) :
    EpaInv cfg ctx' registered m := by
  have hw : ∀ t, wakeups ctx' registered t = wakeups ctx registered t :=
    wakeups_congr (by rw [hs]) fun t => by rw [hc]
  exact ⟨hs ▸ h.ready, hq ▸ h.queue, hq ▸ h.items, fun t => by rw [hs, hq, hw]; exact h.ref t,
    hs ▸ h.idle, hs ▸ hc ▸ h.phase, h.unregistered, hs ▸ hc ▸ h.initialising,
    hs ▸ hc ▸ h.dispatches, h.mail⟩

theorem phase_of_ne (h : EpaInv cfg ctx registered m) {t : T} (ht : registered t = true)
    (hne : ctx.ctl ≠ .initialising t) (ctl : EpaCtl T E) :
    (ctx.sched.fn (.app t) = some .init ∧ (m.started t = true → ctl = .initialising t)) ∨
      (ctx.sched.fn (.app t) = some .dispatch ∧ m.started t = true) :=
  (h.phase t ht).imp_left fun ⟨hf, hini⟩ => ⟨hf, fun hs => absurd (hini hs) hne⟩

theorem phase_of_loop (h : EpaInv cfg ctx registered m) {t : T} (ht : registered t = true)
    (hctl : ctx.ctl = .loop) (ctl : EpaCtl T E) :
    (ctx.sched.fn (.app t) = some .init ∧ (m.started t = true → ctl = .initialising t)) ∨
      (ctx.sched.fn (.app t) = some .dispatch ∧ m.started t = true) :=
  h.phase_of_ne ht (by rw [hctl]; intro hini; cases hini) ctl

theorem mem_runQueue (h : EpaInv cfg ctx registered m) {t : T}
    (ht : nqueueIsEmpty (ctx.queue t) = false) :
    ∃ q, Ready cfg ctx.sched (fun _ => true) q ∧ .app t ∈ q (ctx.sched.prio (.app t)) := by
  obtain ⟨q, hq⟩ := h.ready
  have hne : nqueueItems (ctx.queue t) ≠ [] := by
    rw [Ne, ← (h.queue t).isEmpty_iff, ht]
    exact Bool.false_ne_true
  have hpos := List.length_pos_of_ne_nil hne
  have href := h.ref t
  exact ⟨q, hq, (hq.mem _ _).mpr ⟨rfl, rfl, by omega⟩⟩

theorem accept (h : EpaInv cfg ctx registered m) (hcfg : OneBucketPerLevel cfg) (fuel : ℕ) {t : T}
    (mem : EventMem E M) {qu : Nqueue E} (hqu : QueueOk qu) {note : Note T E}
    {m' : Mailbox T E} (hm : m.next note = some m')
    (hpend : ∀ u, u ≠ t → m'.pending u = m.pending u) (hstart : m'.started = m.started)
    (hitems : nqueueItems qu = (m'.pending t).map Prod.snd)
    (hlen : (nqueueItems qu).length = (nqueueItems (ctx.queue t)).length + 1) :
    ∃ sched, (edsScheduler cfg fuel).insertI ctx.sched t = .ok sched ∧
      EpaInv cfg { (ctx.withMem mem).setQueue t qu with sched := sched } registered m' := by
  obtain ⟨q, hq⟩ := h.ready
  obtain ⟨sched, q', hins, hready, href, _⟩ :=
    nthreadInsertI_ready hcfg fuel hq (t := .app t) rfl (h.ref_lt hcfg t)
  have hfn : sched.fn = ctx.sched.fn := nthreadInsertI_fn hins
  have hself : Function.update ctx.queue t qu t = qu := Function.update_self ..
  have hother : ∀ u, u ≠ t → Function.update ctx.queue t qu u = ctx.queue u :=
    fun u hu => Function.update_of_ne hu ..
  have hw : ∀ u, wakeups { (ctx.withMem mem).setQueue t qu with sched := sched } registered u
      = wakeups ctx registered u := wakeups_congr hfn fun _ => rfl
  refine ⟨sched, hins, ⟨q', hready⟩, queueOk_update h.queue hqu, ?_, fun u => ?_, ?_, fun u hu => ?_,
    fun u hu => ?_, fun u hu => ?_, fun u hu => ?_, h.mail.next hm⟩
  · apply (Function.forall_update_iff ctx.queue
      fun u qu => nqueueItems qu = (m'.pending u).map Prod.snd).mpr
    refine ⟨hitems, fun u hut => ?_⟩
    rw [hpend u hut]
    exact h.items u
  · rw [hw]
    show sched.ref (.app u) = (nqueueItems (Function.update ctx.queue t qu u)).length + _
    have href' := h.ref u
    by_cases hut : u = t
    · rw [hut] at href' ⊢
      rw [href, Function.update_self, hself]
      omega
    · rw [href, Function.update_of_ne (fun hc => hut (ThreadId.app.inj hc)), hother u hut]
      exact href'
  · show sched.fn .idle = _
    rw [hfn]
    exact h.idle
  · show (sched.fn (.app u) = _ ∧ _) ∨ sched.fn (.app u) = _ ∧ _
    rw [hfn, hstart]
    exact h.phase u hu
  · rw [hstart]
    exact h.unregistered u hu
  · show _ ∧ sched.fn (.app u) = _ ∧ _
    rw [hfn, hstart]
    exact h.initialising u hu
  · show _ ∧ sched.fn (.app u) = _
    rw [hfn]
    exact h.dispatches u hu

end EpaInv

/-! ### the dispatch function of a thread -/

theorem setDispatch_fn (cfg : SchedConfig) (fuel : ℕ) (sched : SchedCtx 32 T EpaFn) (t : T)
    (f : EpaFn) : ((edsScheduler cfg fuel).setDispatch sched t f).fn
      = Function.update sched.fn (.app t) (some f) := by
  funext u
  show (Function.update sched.thread (.app t) _ u).vfDispatch = _
  by_cases hu : u = .app t
  · rw [hu, Function.update_self, Function.update_self]
  · rw [Function.update_of_ne hu, Function.update_of_ne hu]
    rfl

theorem setDispatch_ref (cfg : SchedConfig) (fuel : ℕ) (sched : SchedCtx 32 T EpaFn) (t : T)
    (f : EpaFn) : ((edsScheduler cfg fuel).setDispatch sched t f).ref = sched.ref := by
  funext u
  show (Function.update sched.thread (.app t) _ u).ref = _
  by_cases hu : u = .app t
  · rw [hu, Function.update_self]
    rfl
  · rw [Function.update_of_ne hu]
    rfl

theorem setDispatch_ready (fuel : ℕ) {sched : SchedCtx 32 T EpaFn} {q : ℕ → List (ThreadId T)}
    {live : ThreadId T → Bool} (h : Ready cfg sched live q) (t : T) (f : EpaFn) :
    Ready cfg ((edsScheduler cfg fuel).setDispatch sched t f) live q :=
  h.congr rfl rfl (setDispatch_ref cfg fuel sched t f) rfl

section
variable {ctx : EpaSys T D E M} {sched : SchedCtx 32 T EpaFn} {t : T}

theorem wakeups_unregistered (ht : registered t = false) (hdis : ctx.ctl.dispatches t = false) :
    wakeups ctx registered t = 0 := by
  unfold wakeups
  rw [ht, hdis]
  rfl

theorem wakeups_register_self (hdis : ctx.ctl.dispatches t = false)
    (hfn : sched.fn (.app t) = some .init) :
    wakeups { ctx with sched := sched } (Function.update registered t true) t = 1 := by
  show (if _ ∧ sched.fn (.app t) = _ then 1 else 0) + (if ctx.ctl.dispatches t = true then 1 else 0) = 1
  rw [if_pos ⟨Function.update_self .., hfn⟩, hdis]
  rfl

theorem wakeups_register_of_ne {u : T} (hut : u ≠ t)
    (hfn : sched.fn (.app u) = ctx.sched.fn (.app u)) :
    wakeups { ctx with sched := sched } (Function.update registered t true) u
      = wakeups ctx registered u := by
  show (if _ ∧ sched.fn (.app u) = _ then 1 else 0) + _ = _
  rw [hfn, Function.update_of_ne hut]
  rfl

end

namespace EpaInv

/-- **`nepa_register`.** -/
theorem register (h : EpaInv cfg ctx registered m) (hcfg : OneBucketPerLevel cfg) (fuel : ℕ) {t : T}
    (ht : registered t = false) :
    ∃ ctx', nepaRegister (edsScheduler cfg fuel) ctx t = .ok ctx' ∧
      EpaInv cfg ctx' (Function.update registered t true) m := by
  obtain ⟨q, hq⟩ := h.ready
  let sched₁ := (edsScheduler cfg fuel).setDispatch ctx.sched t .init
  have hfn₁ : sched₁.fn = Function.update ctx.sched.fn (.app t) (some .init) := setDispatch_fn ..
  have href₁ : sched₁.ref = ctx.sched.ref := setDispatch_ref ..
  have hlt : sched₁.ref (.app t) + 1 < 2 ^ cfg.fast32 := by
    rw [href₁]
    exact h.ref_lt hcfg t
  obtain ⟨sched, q', hins, hready, href, _⟩ :=
    nthreadInsertI_ready hcfg fuel (setDispatch_ready fuel hq t .init) (t := .app t) rfl hlt
  have hfn : sched.fn = Function.update ctx.sched.fn (.app t) (some .init) :=
    (nthreadInsertI_fn hins).trans hfn₁
  have hfnself : sched.fn (.app t) = some .init := by rw [hfn, Function.update_self]
  have hfnother : ∀ u, u ≠ t → sched.fn (.app u) = ctx.sched.fn (.app u) := by
    intro u hu
    rw [hfn, Function.update_of_ne (fun hc => hu (ThreadId.app.inj hc))]
  have hregother : ∀ u, u ≠ t → Function.update registered t true u = registered u :=
    fun u hu => Function.update_of_ne hu ..
  have hdis : ctx.ctl.dispatches t = false := by
    by_contra hc
    have := (h.dispatches t (Bool.eq_true_of_not_eq_false hc)).1
    rw [ht] at this
    cases this
  have hother : ∀ u, (registered u = true → u ≠ t) := by
    intro u hu hc
    rw [hc, ht] at hu
    cases hu
  refine ⟨{ ctx with sched := sched }, ?_, ⟨q', hready⟩, h.queue, h.items, fun u => ?_, ?_,
    fun u hu => ?_, fun u hu => ?_, fun u hu => ?_, fun u hu => ?_, h.mail⟩
  · unfold nepaRegister
    show (nthreadInsertI cfg fuel sched₁ (.app t) >>= _) = _
    rw [hins, ok_bind]
    rfl
  · show sched.ref (.app u) = (nqueueItems (ctx.queue u)).length + _
    have href' := h.ref u
    by_cases hut : u = t
    · rw [hut] at href' ⊢
      rw [wakeups_register_self hdis hfnself, href, Function.update_self, href₁, href',
        wakeups_unregistered ht hdis]
    · rw [wakeups_register_of_ne hut (hfnother u hut), href,
        Function.update_of_ne (fun hc => hut (ThreadId.app.inj hc)), href₁, href']
  · show sched.fn .idle = _
    rw [hfn, Function.update_of_ne (by simp)]
    exact h.idle
  · show (sched.fn (.app u) = _ ∧ _) ∨ sched.fn (.app u) = _ ∧ _
    by_cases hut : u = t
    · rw [hut]
      refine Or.inl ⟨hfnself, fun hs => ?_⟩
      rw [h.unregistered t ht] at hs
      cases hs
    · rw [hfnother u hut]
      rw [hregother u hut] at hu
      exact h.phase u hu
  · by_cases hut : u = t
    · rw [hut, Function.update_self] at hu
      cases hu
    · rw [hregother u hut] at hu
      exact h.unregistered u hu
  · obtain ⟨hr, hf, hs⟩ := h.initialising u hu
    have hut := hother u hr
    refine ⟨?_, ?_, hs⟩
    · rw [hregother u hut]
      exact hr
    · exact (hfnother u hut).trans hf
  · obtain ⟨hr, hf⟩ := h.dispatches u hu
    have hut := hother u hr
    refine ⟨?_, ?_⟩
    · rw [hregother u hut]
      exact hr
    · exact (hfnother u hut).trans hf

end EpaInv

end

end NeonEds
