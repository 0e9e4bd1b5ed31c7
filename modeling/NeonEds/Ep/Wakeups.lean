import NeonEds.Ep.EpaRuns
import NeonEds.Sched.SharedBuckets

/-!
# The wake-ups of the agents

`EpaReach`: the states that a system reaches whose threads are set up by `nthread_init`, with one bucket
for each priority level or with fewer.  In every one of them the reference count of a thread is the
number of its wake-ups (`WakeupsExact`):

* with one bucket for each level by `EpaInv`;
* with fewer buckets no agent is ever chosen, and only registrations and sends count (`SharedInv`).

`epaWakeups_exact`: the accounting is exact in every state reached.
-/

set_option linter.unusedSectionVars false

namespace NeonEds
open Exec Mailbox

variable {T D E M : Type} [DecidableEq T] [DecidableEq D] [DecidableEq E]

/-- the `nthread_init` of the threads `live`, the first of which prepares the run queue -/
inductive ThreadsSetUp (cfg : SchedConfig) (fuel : ℕ) :
    SchedCtx 32 T EpaFn → (ThreadId T → Bool) → Prop where
  | none {sched : SchedCtx 32 T EpaFn} (h : sched.isInitialized = false) :
      ThreadsSetUp cfg fuel sched (fun _ => false)
  | init {sched sched' : SchedCtx 32 T EpaFn} {live : ThreadId T → Bool} {t : T} {priority : ℕ}
      {vfDispatch : EpaFn} (h : ThreadsSetUp cfg fuel sched live)
      (hl : LegalSchedOp cfg sched live (.init t priority vfDispatch))
      (hrun : nthreadInit cfg fuel .idle sched (.app t) priority vfDispatch = .ok sched') :
      ThreadsSetUp cfg fuel sched' (liveAfter live (.init t priority vfDispatch))

/-- the agents are set up, and nothing is sent or registered yet -/
structure EpaBoot (cfg : SchedConfig) (fuel : ℕ) (ctx : EpaSys T D E M) : Prop where
  threads : ThreadsSetUp cfg fuel ctx.sched (fun _ => true)
  queue : ∀ t, QueueOk (ctx.queue t) ∧ nqueueItems (ctx.queue t) = []
  ref : ∀ t, ctx.sched.ref (.app t) = 0
  idle : ctx.sched.fn .idle = some .idle
  ctl : ctx.ctl = .loop

/-- the states of a system, with the agents that are registered -/
inductive EpaReach (cfg : SchedConfig) (fuel : ℕ) (saturates : Bool) :
    EpaSys T D E M → (T → Bool) → Prop where
  | boot {ctx : EpaSys T D E M} (h : EpaBoot cfg fuel ctx) :
      EpaReach cfg fuel saturates ctx (fun _ => false)
  | step {ctx ctx' : EpaSys T D E M} {registered : T → Bool} {step : EpaStep T D E M}
      {note : Option (Note T E)} (h : EpaReach cfg fuel saturates ctx registered)
      (hl : LegalEpaStep ctx registered step)
      (hrun : runEpaStep cfg fuel saturates ctx step = .ok (note, ctx')) :
      EpaReach cfg fuel saturates ctx' (registeredAfter registered step)

/-- the initial dispatch of `t` is pending or running: `epa_init_i` replaces itself at its end -/
def InitOpen (ctx : EpaSys T D E M) (registered : T → Bool) (t : T) : Prop :=
  registered t = true ∧ ctx.sched.fn (.app t) = some .init

instance (ctx : EpaSys T D E M) (registered : T → Bool) (t : T) :
    Decidable (InitOpen ctx registered t) := by
  unfold InitOpen
  infer_instance

/-- a dispatch of `t` is about to call `nthread_remove_i` -/
def EpaCtl.endsFor (ctl : EpaCtl T E) (t : T) : Prop :=
  ctl = .initialising t ∨ ∃ e, ctl = .dispatched t e

/-- the reference counts of the threads are exact -/
structure WakeupsExact (cfg : SchedConfig) (fuel : ℕ) (saturates : Bool) (ctx : EpaSys T D E M)
    (registered : T → Bool) : Prop where
  count : ∀ t, ctx.sched.ref (.app t) = (nqueueItems (ctx.queue t)).length +
    (if InitOpen ctx registered t then 1 else 0) + if ctx.ctl.dispatches t = true then 1 else 0
  /-- `nthread_remove_i` is called with a positive count only -/
  noUnderflow : ∀ t, ctx.ctl.endsFor t → 0 < ctx.sched.ref (.app t)
  /-- the end of a dispatch takes the last reference iff the queue is empty -/
  blocks : ∀ t, ctx.ctl.endsFor t → ∃ note ctx',
    runEpaStep cfg fuel saturates ctx .finish = .ok (note, ctx') ∧
    (ctx'.sched.ref (.app t) = 0 ↔ nqueueItems (ctx'.queue t) = [])
  /-- the agents with references are those in the run queue -/
  inRunQueue : OneBucketPerLevel cfg → ∀ t, InRunQueue cfg ctx t ↔ 0 < ctx.sched.ref (.app t)

section
variable {cfg : SchedConfig} {fuel : ℕ} {saturates : Bool} {ctx ctx' : EpaSys T D E M}
  {registered : T → Bool} {m : Mailbox T E}

/-! ## one bucket for each level -/

theorem ThreadsSetUp.state (hcfg : OneBucketPerLevel cfg) {sched : SchedCtx 32 T EpaFn}
    {live : ThreadId T → Bool} (h : ThreadsSetUp cfg fuel sched live) :
    SchedState cfg sched live := by
  induction h with
  | none h => exact Or.inl ⟨h, rfl⟩
  | init h hl hrun ih =>
    obtain ⟨sched', hrun', hr, href⟩ := ih.init hcfg fuel .idle hl.1 hl.2.1 hl.2.2 _
    obtain rfl := Except.ok.inj (hrun.symm.trans hrun')
    exact Or.inr ⟨hr, href⟩

theorem EpaBoot.start (h : EpaBoot cfg fuel ctx) (hcfg : OneBucketPerLevel cfg) :
    EpaStart cfg ctx := by
  refine ⟨?_, h.queue, h.ref, h.idle, h.ctl⟩
  rcases h.threads.state hcfg with ⟨_, hlive⟩ | ⟨hr, _⟩
  · exact absurd (congrFun hlive .idle) Bool.noConfusion
  · exact hr

theorem EpaReach.inv (h : EpaReach cfg fuel saturates ctx registered)
    (hcfg : OneBucketPerLevel cfg) : ∃ m, EpaInv cfg ctx registered m := by
  induction h with
  | boot h => exact ⟨_, (h.start hcfg).inv⟩
  | step h hl hrun ih =>
    obtain ⟨m, hinv⟩ := ih
    obtain ⟨note, ctx', m', hrun', _, hinv', _⟩ := hinv.step hcfg fuel saturates hl
    obtain ⟨_, rfl⟩ := Prod.mk.inj (Except.ok.inj (hrun.symm.trans hrun'))
    exact ⟨m', hinv'⟩

theorem finish_ctl {t : T} {note : Option (Note T E)} (hends : ctx.ctl.endsFor t)
    (hrun : runEpaStep cfg fuel saturates ctx .finish = .ok (note, ctx')) :
    note = none ∧ ctx'.ctl = .loop := by
  rcases hends with hctl | ⟨e, hctl⟩
  · unfold runEpaStep at hrun
    simp only [hctl] at hrun
    obtain ⟨ctx₁, hend, hrun⟩ := bind_eq_ok.mp hrun
    obtain ⟨rfl, rfl⟩ := Prod.mk.inj (Except.ok.inj hrun)
    obtain ⟨sched, _, hend⟩ := bind_eq_ok.mp hend
    rw [← Except.ok.inj hend]
    exact ⟨rfl, rfl⟩
  · unfold runEpaStep at hrun
    simp only [hctl] at hrun
    obtain ⟨ctx₁, hend, hrun⟩ := bind_eq_ok.mp hrun
    obtain ⟨rfl, rfl⟩ := Prod.mk.inj (Except.ok.inj hrun)
    obtain ⟨sched, _, hend⟩ := bind_eq_ok.mp hend
    rw [← Except.ok.inj hend]
    exact ⟨rfl, rfl⟩

namespace EpaInv

theorem count (h : EpaInv cfg ctx registered m) (t : T) :
    ctx.sched.ref (.app t) = (nqueueItems (ctx.queue t)).length +
      (if InitOpen ctx registered t then 1 else 0) +
      if ctx.ctl.dispatches t = true then 1 else 0 := by
  have href := h.ref t
  unfold wakeups at href
  unfold InitOpen
  omega

theorem of_endsFor (h : EpaInv cfg ctx registered m) {t : T} (hends : ctx.ctl.endsFor t) :
    registered t = true ∧ m.started t = true ∧ 0 < ctx.sched.ref (.app t) := by
  have hcount := h.count t
  rcases hends with hctl | ⟨e, hctl⟩
  · obtain ⟨hr, hf, hs⟩ := h.initialising t hctl
    rw [if_pos (show InitOpen ctx registered t from ⟨hr, hf⟩)] at hcount
    exact ⟨hr, hs, by omega⟩
  · have hdis : ctx.ctl.dispatches t = true := by
      rw [hctl]
      exact decide_eq_true rfl
    obtain ⟨hr, hf⟩ := h.dispatches t hdis
    rw [if_pos hdis] at hcount
    refine ⟨hr, ?_, by omega⟩
    rcases h.phase t hr with ⟨hini, _⟩ | ⟨_, hs⟩
    · rw [hf] at hini
      cases hini
    · exact hs

/-- between two dispatches an agent that was started has as many references as events -/
theorem ref_of_loop (h : EpaInv cfg ctx registered m) (hctl : ctx.ctl = .loop) {t : T}
    (hr : registered t = true) (hs : m.started t = true) :
    ctx.sched.ref (.app t) = (nqueueItems (ctx.queue t)).length := by
  have hnot : ¬ InitOpen ctx registered t := by
    rintro ⟨_, hf⟩
    rcases h.phase t hr with ⟨_, hini⟩ | ⟨hf', _⟩
    · have hc := hini hs
      rw [hctl] at hc
      cases hc
    · rw [hf] at hf'
      cases hf'
  have hdis : ctx.ctl.dispatches t = false := by rw [hctl]; rfl
  rw [h.count t, if_neg hnot, hdis, if_neg Bool.false_ne_true, Nat.add_zero]

theorem mem_iff_ref (h : EpaInv cfg ctx registered m) (t : T) :
    InRunQueue cfg ctx t ↔ 0 < ctx.sched.ref (.app t) := by
  constructor
  · rintro ⟨q, hq, hm⟩
    exact ((hq.mem _ _).mp hm).2.2
  · intro href
    obtain ⟨q, hq⟩ := h.ready
    exact ⟨q, hq, (hq.mem _ _).mpr ⟨rfl, rfl, href⟩⟩

theorem wakeupsExact (h : EpaInv cfg ctx registered m) (hcfg : OneBucketPerLevel cfg) :
    WakeupsExact cfg fuel saturates ctx registered := by
  refine ⟨h.count, fun t hends => (h.of_endsFor hends).2.2, fun t hends => ?_,
    fun _ => h.mem_iff_ref⟩
  obtain ⟨hr, hs, _⟩ := h.of_endsFor hends
  have hl : LegalEpaStep ctx registered (.finish : EpaStep T D E M) := by
    rcases hends with hctl | ⟨e, hctl⟩
    · exact Or.inl ⟨t, hctl⟩
    · exact Or.inr ⟨t, e, hctl⟩
  obtain ⟨note, ctx', m', hrun, hm, h', _⟩ := h.step hcfg fuel saturates hl
  obtain ⟨hnote, hctl⟩ := finish_ctl hends hrun
  rw [hnote] at hm
  obtain rfl := Option.some.inj hm
  refine ⟨note, ctx', hrun, ?_⟩
  rw [h'.ref_of_loop hctl hr hs, List.length_eq_zero_iff]

end EpaInv

/-! ## fewer buckets than levels -/

theorem ThreadsSetUp.aloneState (hcfg : SharedBuckets cfg) {sched : SchedCtx 32 T EpaFn}
    {live : ThreadId T → Bool} (h : ThreadsSetUp cfg fuel sched live) :
    AloneState cfg sched live := by
  induction h with
  | none h => exact Or.inl ⟨h, rfl⟩
  | init h hl hrun ih => exact Or.inr (ih.init hcfg hrun)

/-- no agent has been chosen -/
structure SharedInv (cfg : SchedConfig) (ctx : EpaSys T D E M) (registered : T → Bool) : Prop where
  alone : AllAlone cfg ctx.sched (fun _ => true)
  queue : ∀ t, QueueOk (ctx.queue t)
  ref : ∀ t, ctx.sched.ref (.app t)
    = (nqueueItems (ctx.queue t)).length + if registered t = true then 1 else 0
  init : ∀ t, registered t = true → ctx.sched.fn (.app t) = some .init
  ctl : ctx.ctl = .loop

namespace SharedInv

theorem ref_lt (h : SharedInv cfg ctx registered) (hcfg : SharedBuckets cfg) (t : T) :
    ctx.sched.ref (.app t) + 1 < 2 ^ cfg.fast32 := by
  have hle : (2 : ℕ) ^ 32 ≤ 2 ^ cfg.fast32 := Nat.pow_le_pow_right (by decide) hcfg.fast32
  have hlen := (h.queue t).length
  have hsize := (h.queue t).size_bounds
  have href := h.ref t
  split at href
  · omega
  · omega

theorem insert (h : SharedInv cfg ctx registered) (hcfg : SharedBuckets cfg) {t : T}
    {sched₀ sched : SchedCtx 32 T EpaFn} (hnode : sched₀.node = ctx.sched.node)
    (hinit : sched₀.isInitialized = ctx.sched.isInitialized) (href : sched₀.ref = ctx.sched.ref)
    (hrun : nthreadInsertI cfg fuel sched₀ (.app t) = .ok sched) :
    AllAlone cfg sched (fun _ => true) ∧ sched.ref
      = Function.update ctx.sched.ref (.app t) (ctx.sched.ref (.app t) + 1) := by
  have ha : AllAlone cfg sched₀ (fun _ => true) :=
    h.alone.congr (fun x hx => by rw [hnode]; exact hx) (fun u hu => Or.inl hu)
      ⟨rfl, by rw [href]; exact h.alone.idle.2⟩ hinit
  obtain ⟨hnode', hinit', href'⟩ := nthreadInsertI_alone hcfg ha.sentinel hrun
  refine ⟨ha.congr (fun x hx => by rw [hnode']; exact hx) (fun u hu => Or.inl hu) ⟨rfl, ?_⟩ hinit', ?_⟩
  · rw [href', Function.update_of_ne (by simp)]
    exact ha.idle.2
  · rw [href', href, Nat.mod_eq_of_lt (h.ref_lt hcfg t)]

theorem accept (h : SharedInv cfg ctx registered) (hcfg : SharedBuckets cfg) {t : T}
    (mem : EventMem E M) {qu : Nqueue E} (hqu : QueueOk qu)
    (hlen : (nqueueItems qu).length = (nqueueItems (ctx.queue t)).length + 1)
    {sched : SchedCtx 32 T EpaFn} (hrun : nthreadInsertI cfg fuel ctx.sched (.app t) = .ok sched) :
    SharedInv cfg { (ctx.withMem mem).setQueue t qu with sched := sched } registered := by
  obtain ⟨ha, href⟩ := h.insert hcfg rfl rfl rfl hrun
  have hfn : sched.fn = ctx.sched.fn := nthreadInsertI_fn hrun
  refine ⟨ha, queueOk_update h.queue hqu, fun u => ?_, fun u hu => ?_, h.ctl⟩
  · show sched.ref (.app u) = (nqueueItems (Function.update ctx.queue t qu u)).length + _
    have href' := h.ref u
    by_cases hut : u = t
    · rw [hut] at href' ⊢
      rw [href, Function.update_self, Function.update_self, href', hlen]
      omega
    · rw [href, Function.update_of_ne (fun hc => hut (ThreadId.app.inj hc)),
        Function.update_of_ne hut]
      exact href'
  · show sched.fn (.app u) = _
    rw [hfn]
    exact h.init u hu

theorem memory (h : SharedInv cfg ctx registered) {ctx' : EpaSys T D E M}
    (hs : ctx'.sched = ctx.sched) (hq : ctx'.queue = ctx.queue) (hc : ctx'.ctl = ctx.ctl) :
    SharedInv cfg ctx' registered :=
  ⟨hs ▸ h.alone, hq ▸ h.queue, fun t => by rw [hs, hq]; exact h.ref t, hs ▸ h.init, hc.trans h.ctl⟩

theorem register (h : SharedInv cfg ctx registered) (hcfg : SharedBuckets cfg) {t : T}
    (ht : registered t = false) {ctx' : EpaSys T D E M}
    (hrun : nepaRegister (edsScheduler cfg fuel) ctx t = .ok ctx') :
    SharedInv cfg ctx' (Function.update registered t true) := by
  obtain ⟨sched, hins, hrun⟩ := bind_eq_ok.mp hrun
  obtain ⟨ha, href⟩ := h.insert hcfg (by rfl) (by rfl) (setDispatch_ref ..) hins
  have hfn : sched.fn = Function.update ctx.sched.fn (.app t) (some .init) :=
    (nthreadInsertI_fn hins).trans (setDispatch_fn ..)
  rw [← Except.ok.inj hrun]
  refine ⟨ha, h.queue, fun u => ?_, fun u hu => ?_, h.ctl⟩
  · show sched.ref (.app u) = _
    have href' := h.ref u
    by_cases hut : u = t
    · rw [hut, if_neg (by rw [ht]; exact Bool.false_ne_true)] at href'
      rw [hut, href, Function.update_self, if_pos (Function.update_self ..), href']
    · rw [href, Function.update_of_ne (fun hc => hut (ThreadId.app.inj hc)), Function.update_of_ne hut]
      exact href'
  · show sched.fn (.app u) = _
    rw [hfn]
    by_cases hut : u = t
    · rw [hut, Function.update_self]
    · rw [Function.update_of_ne (fun hc => hut (ThreadId.app.inj hc))]
      rw [Function.update_of_ne hut] at hu
      exact h.init u hu

theorem send (h : SharedInv cfg ctx registered) (hcfg : SharedBuckets cfg) {t : T} {e : E}
    {r : Nerror × EpaSys T D E M}
    (hrun : nepaSendEventI (edsScheduler cfg fuel) saturates ctx t e = .ok r) :
    SharedInv cfg r.2 registered := by
  unfold nepaSendEventI at hrun
  by_cases hlim : neventRef (ctx.event e) < neventRefLimit
  · rw [if_pos hlim] at hrun
    by_cases hfull : nqueueIsFull (ctx.queue t) = false
    · have hrun' := (if_pos hfull).symm.trans hrun
      obtain ⟨hok, hitems, _⟩ := nqueuePutFifo_ok (h.queue t) hfull e
      obtain ⟨sched, hins, hrun'⟩ := bind_eq_ok.mp hrun'
      rw [← Except.ok.inj hrun']
      exact h.accept hcfg _ hok (by rw [hitems, List.length_append]; rfl) hins
    · rw [← Except.ok.inj ((if_neg hfull).symm.trans hrun)]
      exact h.memory rfl rfl rfl
  · rw [if_neg hlim] at hrun
    rw [← Except.ok.inj hrun]
    exact h

theorem sendAhead (h : SharedInv cfg ctx registered) (hcfg : SharedBuckets cfg) {t : T} {e : E}
    {r : Nerror × EpaSys T D E M}
    (hrun : nepaSendEventAheadI (edsScheduler cfg fuel) saturates ctx t e = .ok r) :
    SharedInv cfg r.2 registered := by
  unfold nepaSendEventAheadI at hrun
  by_cases hlim : neventRef (ctx.event e) < neventRefLimit
  · rw [if_pos hlim] at hrun
    by_cases hfull : nqueueIsFull (ctx.queue t) = false
    · have hrun' := (if_pos hfull).symm.trans hrun
      obtain ⟨hok, hitems, _⟩ := nqueuePutLifo_ok (h.queue t) hfull e
      obtain ⟨sched, hins, hrun'⟩ := bind_eq_ok.mp hrun'
      rw [← Except.ok.inj hrun']
      exact h.accept hcfg _ hok (by rw [hitems, List.length_cons]) hins
    · rw [← Except.ok.inj ((if_neg hfull).symm.trans hrun)]
      exact h.memory rfl rfl rfl
  · rw [if_neg hlim] at hrun
    rw [← Except.ok.inj hrun]
    exact h

/-- **One step**: the loop chooses a sentinel, which has no dispatch function. -/
theorem step (h : SharedInv cfg ctx registered) (hcfg : SharedBuckets cfg)
    {step : EpaStep T D E M} (hl : LegalEpaStep ctx registered step) {note : Option (Note T E)}
    (hrun : runEpaStep cfg fuel saturates ctx step = .ok (note, ctx')) :
    SharedInv cfg ctx' (registeredAfter registered step) := by
  cases step with
  | register t =>
    obtain ⟨ctx₁, hreg, hrun⟩ := bind_eq_ok.mp hrun
    obtain ⟨_, rfl⟩ := Prod.mk.inj (Except.ok.inj hrun)
    exact h.register hcfg hl hreg
  | send t e =>
    obtain ⟨r, hsend, hrun⟩ := bind_eq_ok.mp hrun
    obtain ⟨_, rfl⟩ := Prod.mk.inj (Except.ok.inj hrun)
    exact h.send hcfg hsend
  | sendAhead t e =>
    obtain ⟨r, hsend, hrun⟩ := bind_eq_ok.mp hrun
    obtain ⟨_, rfl⟩ := Prod.mk.inj (Except.ok.inj hrun)
    exact h.sendAhead hcfg hsend
  | schedule =>
    obtain ⟨⟨n, sched⟩, hsch, hrun⟩ := bind_eq_ok.mp hrun
    obtain ⟨⟨p, rfl⟩, _⟩ := schedScheduleI_alone hcfg h.alone.sentinel hsch
    cases hrun
  | returns =>
    obtain ⟨t, e, hctl⟩ := hl
    rw [h.ctl] at hctl
    cases hctl
  | finish =>
    rcases hl with ⟨t, hctl⟩ | ⟨t, e, hctl⟩
    · rw [h.ctl] at hctl
      cases hctl
    · rw [h.ctl] at hctl
      cases hctl
  | memory mem deferred =>
    obtain ⟨_, rfl⟩ := Prod.mk.inj (Except.ok.inj hrun)
    exact h.memory rfl rfl rfl

theorem wakeupsExact (h : SharedInv cfg ctx registered) (hcfg : SharedBuckets cfg) :
    WakeupsExact cfg fuel saturates ctx registered := by
  have hends : ∀ t, ¬ ctx.ctl.endsFor t := by
    rintro t (hctl | ⟨e, hctl⟩)
    · rw [h.ctl] at hctl
      cases hctl
    · rw [h.ctl] at hctl
      cases hctl
  refine ⟨fun t => ?_, fun t ht => absurd ht (hends t), fun t ht => absurd ht (hends t),
    fun hone => ?_⟩
  · have hinit : InitOpen ctx registered t ↔ registered t = true :=
      ⟨fun hi => hi.1, fun hr => ⟨hr, h.init t hr⟩⟩
    have hdis : ctx.ctl.dispatches t = false := by rw [h.ctl]; rfl
    rw [h.ref t, hdis, if_neg Bool.false_ne_true, Nat.add_zero]
    simp only [hinit]
  · have := hone.levels
    have := hcfg.lt
    omega

end SharedInv

theorem EpaReach.run (steps : List (EpaStep T D E M)) :
    ∀ {ctx ctx' : EpaSys T D E M} {registered : T → Bool} {notes : List (Note T E)},
      EpaReach cfg fuel saturates ctx registered →
      LegalEpaRun cfg fuel saturates ctx registered steps →
      epaRun cfg fuel saturates ctx steps = .ok (notes, ctx') →
      EpaReach cfg fuel saturates ctx' (steps.foldl registeredAfter registered) := by
  induction steps with
  | nil =>
    intro ctx ctx' registered notes h _ hrun
    obtain ⟨_, rfl⟩ := Prod.mk.inj (Except.ok.inj hrun)
    exact h
  | cons step steps ih =>
    intro ctx ctx' registered notes h hl hrun
    obtain ⟨⟨note, ctx₁⟩, hstep, hrun⟩ := bind_eq_ok.mp hrun
    obtain ⟨⟨notes', ctx₂⟩, hrest, hrun⟩ := bind_eq_ok.mp hrun
    obtain ⟨_, rfl⟩ := Prod.mk.inj (Except.ok.inj hrun)
    exact ih (h.step hl.1 hstep) (hl.2 note ctx₁ hstep) hrest

theorem EpaReach.shared (h : EpaReach cfg fuel saturates ctx registered)
    (hcfg : SharedBuckets cfg) : SharedInv cfg ctx registered := by
  induction h with
  | boot h =>
    refine ⟨?_, fun t => (h.queue t).1, fun t => ?_, fun t ht => absurd ht Bool.false_ne_true, h.ctl⟩
    · rcases h.threads.aloneState hcfg with ⟨_, hlive⟩ | ha
      · exact absurd (congrFun hlive .idle) Bool.noConfusion
      · exact ha
    · rw [h.ref, (h.queue t).2]
      rfl
  | step h hl hrun ih => exact ih.step hcfg hl hrun

/-- **In every state that a system reaches the reference counts of the threads are exact**, so that
`nthread_remove_i` never finds a count of zero, and an agent leaves the run queue exactly when it has
nothing left to process. -/
theorem epaWakeups_exact (hcfg : OneBucketPerLevel cfg ∨ SharedBuckets cfg)
    (h : EpaReach cfg fuel saturates ctx registered) :
    WakeupsExact cfg fuel saturates ctx registered := by
  rcases hcfg with hcfg | hcfg
  · obtain ⟨m, hinv⟩ := h.inv hcfg
    exact hinv.wakeupsExact hcfg
  · exact (h.shared hcfg).wakeupsExact hcfg

end

theorem oneAgent_boot : EpaBoot cfg32 0 oneAgent := by
  have hinit : nthreadInit cfg32 0 .idle SchedCtx.init (.app ()) 3 .init = .ok oneThread := rfl
  have hlive : liveAfter (fun _ => false) (.init () 3 EpaFn.init) = fun _ => true := by
    funext u
    cases u <;> rfl
  have hset := ThreadsSetUp.init (.none rfl) ⟨rfl, by decide, by decide⟩ hinit
  rw [hlive] at hset
  exact ⟨hset, oneAgent_start.queue, oneAgent_start.ref, rfl, rfl⟩

/-- the agent of `oneAgent` after its registration, a send, its initial dispatch and that of the event -/
theorem epaWakeups_exact_oneEvent : ∃ notes ctx,
    epaRun cfg32 0 false oneAgent oneEvent = .ok (notes, ctx) ∧
      notes = [.put () (), .start (), .pass () ()] ∧ ctx.sched.ref (.app ()) = 0 ∧
      WakeupsExact cfg32 0 false ctx (oneEvent.foldl registeredAfter (fun _ => false)) := by
  obtain ⟨⟨notes, ctx⟩, hrun, hend⟩ := map_eq_ok
    (show (epaRun cfg32 0 false oneAgent oneEvent).map (fun r => (r.1, r.2.sched.ref (.app ())))
      = .ok ([.put () (), .start (), .pass () ()], 0) by decide +kernel)
  have hreach := EpaReach.run oneEvent (.boot oneAgent_boot) oneEvent_legal hrun
  exact ⟨notes, ctx, hrun, congrArg Prod.fst hend, congrArg Prod.snd hend,
    epaWakeups_exact (Or.inl cfg32_oneBucketPerLevel) hreach⟩

end NeonEds
