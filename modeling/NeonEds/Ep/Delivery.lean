import NeonEds.Ep.System
import NeonEds.Sched.Runs

/-!
# Delivery of events

`DeliverySound`: no step of a run faults; every note is right, that is an event that is passed to a
state machine is the front of the mailbox and the machine has had its `NSM_INIT`, which it gets once;
every accepted event is at one place; the queues are the mailboxes; nothing is taken from an empty
queue; and a registered agent with events is in the run queue.

`deliverySound`: every legal run of an initialised system is sound.
-/

set_option linter.unusedSectionVars false

namespace NeonEds
open Exec Mailbox

variable {T D E M : Type} [DecidableEq T] [DecidableEq D] [DecidableEq E]

section
variable {cfg : SchedConfig} {ctx : EpaSys T D E M} {registered : T → Bool} {m : Mailbox T E}

namespace EpaInv

theorem resched (h : EpaInv cfg ctx registered m) {sched : SchedCtx 32 T EpaFn}
    {q : ℕ → List (ThreadId T)} (hq : Ready cfg sched (fun _ => true) q)
    (href : sched.ref = ctx.sched.ref) (hfn : sched.fn = ctx.sched.fn) :
    EpaInv cfg { ctx with sched := sched } registered m := by
  have hw : ∀ t, wakeups { ctx with sched := sched } registered t = wakeups ctx registered t :=
    wakeups_congr hfn fun _ => rfl
  refine ⟨⟨q, hq⟩, h.queue, h.items, fun t => ?_, ?_, fun t ht => ?_, h.unregistered,
    fun t ht => ?_, fun t ht => ?_, h.mail⟩
  · rw [hw]
    show sched.ref (.app t) = _
    rw [href]
    exact h.ref t
  · show sched.fn .idle = _
    rw [hfn]
    exact h.idle
  · show (sched.fn (.app t) = _ ∧ _) ∨ sched.fn (.app t) = _ ∧ _
    rw [hfn]
    exact h.phase t ht
  · show _ ∧ sched.fn (.app t) = _ ∧ _
    rw [hfn]
    exact h.initialising t ht
  · show _ ∧ sched.fn (.app t) = _
    rw [hfn]
    exact h.dispatches t ht

theorem start (h : EpaInv cfg ctx registered m) {t : T} (hctl : ctx.ctl = .loop)
    (ht : registered t = true) (hfn : ctx.sched.fn (.app t) = some .init) :
    ∃ m', m.next (.start t) = some m' ∧
      EpaInv cfg { ctx with ctl := .initialising t } registered m' := by
  have hnot : ¬ m.started t = true := by
    intro hs
    rcases h.phase t ht with ⟨_, hini⟩ | ⟨hfn', _⟩
    · have := hini hs
      rw [hctl] at this
      cases this
    · rw [hfn] at hfn'
      cases hfn'
  have hloop : ∀ u, ctx.ctl.dispatches u = false := fun u => by rw [hctl]; rfl
  have hw : ∀ u, wakeups { ctx with ctl := .initialising t } registered u
      = wakeups ctx registered u := wakeups_congr rfl fun u => (hloop u).symm
  have hm : m.next (.start t) = some { m with started := Function.update m.started t true } := by
    rw [Mailbox.next, if_neg hnot]
  refine ⟨_, hm, h.ready, h.queue, h.items, fun u => ?_, h.idle, fun u hu => ?_, fun u hu => ?_,
    fun u hu => ?_, fun u hu => ?_, h.mail.next hm⟩
  · rw [hw]
    exact h.ref u
  · by_cases hut : u = t
    · rw [hut]
      exact Or.inl ⟨hfn, fun _ => rfl⟩
    · show _ ∧ (Function.update m.started t true u = true → _) ∨
        _ ∧ Function.update m.started t true u = true
      rw [Function.update_of_ne hut]
      exact h.phase_of_loop hu hctl _
  · have hut : u ≠ t := by
      intro hc
      rw [hc, ht] at hu
      cases hu
    exact (Function.update_of_ne hut ..).trans (h.unregistered u hu)
  · have hut : t = u := EpaCtl.initialising.inj hu
    rw [← hut]
    exact ⟨ht, hfn, Function.update_self ..⟩
  · cases hu

theorem pass (h : EpaInv cfg ctx registered m) {t : T} (hctl : ctx.ctl = .loop)
    (ht : registered t = true) (hfn : ctx.sched.fn (.app t) = some .dispatch)
    (hne : nqueueItems (ctx.queue t) ≠ []) :
    ∃ m', m.next (.pass t (nqueueGet (ctx.queue t)).1) = some m' ∧
      EpaInv cfg (epaDispatchStart ctx t) registered m' := by
  have hs : m.started t = true := by
    rcases h.phase t ht with ⟨hf, _⟩ | ⟨_, hs⟩
    · rw [hfn] at hf
      cases hf
    · exact hs
  have hitems := h.items t
  cases hp : m.pending t with
  | nil =>
    rw [hp] at hitems
    exact absurd hitems hne
  | cons x rest =>
    obtain ⟨i, e⟩ := x
    rw [hp, List.map_cons] at hitems
    obtain ⟨he, hok, hrest, _⟩ := nqueueGet_ok (h.queue t) hitems
    have hm : m.next (.pass t (nqueueGet (ctx.queue t)).1) = some { m with
        pending := Function.update m.pending t rest
        passed := i :: m.passed } := by
      rw [Mailbox.next, hp]
      exact if_pos ⟨he.symm, hs⟩
    have hloop : ∀ u, ctx.ctl.dispatches u = false := fun u => by rw [hctl]; rfl
    have hself : Function.update ctx.queue t (nqueueGet (ctx.queue t)).2 t
        = (nqueueGet (ctx.queue t)).2 := Function.update_self ..
    have hother : ∀ u, u ≠ t → Function.update ctx.queue t (nqueueGet (ctx.queue t)).2 u
        = ctx.queue u := fun u hu => Function.update_of_ne hu ..
    have hdis : ∀ u, (epaDispatchStart ctx t).ctl.dispatches u = decide (t = u) := fun _ => rfl
    refine ⟨_, hm, h.ready, queueOk_update h.queue hok, ?_, fun u => ?_, h.idle, fun u hu => ?_,
      h.unregistered, fun u hu => ?_, fun u hu => ?_, h.mail.next hm⟩
    · apply (Function.forall_update_iff ctx.queue fun u qu =>
        nqueueItems qu = (Function.update m.pending t rest u).map Prod.snd).mpr
      refine ⟨?_, fun u hut => ?_⟩
      · rw [Function.update_self]
        exact hrest
      · rw [Function.update_of_ne hut]
        exact h.items u
    · have href := h.ref u
      unfold wakeups at href ⊢
      rw [hdis u]
      rw [hloop u] at href
      show ctx.sched.ref (.app u)
        = (nqueueItems (Function.update ctx.queue t (nqueueGet (ctx.queue t)).2 u)).length +
          ((if registered u = true ∧ ctx.sched.fn (.app u) = some .init then 1 else 0) + _)
      rw [href]
      by_cases hut : u = t
      · rw [hut, hself, hrest, hitems, List.length_cons, decide_eq_true rfl, if_pos rfl,
          if_neg Bool.false_ne_true]
        omega
      · rw [hother u hut, decide_eq_false (fun hc => hut hc.symm)]
    · exact h.phase_of_loop hu hctl _
    · cases hu
    · rw [hdis u] at hu
      rw [← of_decide_eq_true hu]
      exact ⟨ht, hfn⟩

/-- **The loop chooses an agent**, passes it the front of its queue or starts it. -/
theorem schedule (h : EpaInv cfg ctx registered m) (hcfg : OneBucketPerLevel cfg) (fuel : ℕ)
    (saturates : Bool) (hctl : ctx.ctl = .loop)
    (hreg : ∀ t, nqueueIsEmpty (ctx.queue t) = false → registered t = true) :
    ∃ note ctx' m', runEpaStep cfg fuel saturates ctx .schedule = .ok (note, ctx') ∧
      m.follow note = some m' ∧ EpaInv cfg ctx' registered m' ∧
      ∀ t e, note = some (.pass t e) → nqueueIsEmpty (ctx.queue t) = false := by
  obtain ⟨q, hq⟩ := h.ready
  obtain ⟨p, u, rest, hqp, hmax⟩ := hq.exists_highest
  obtain ⟨sched, hsch, hready, href, _, _⟩ := schedScheduleI_ready hcfg fuel hq hqp hmax
  have hfn : sched.fn = ctx.sched.fn := schedScheduleI_fn hsch
  have h₁ := h.resched hready href hfn
  have hrun : runEpaStep cfg fuel saturates ctx .schedule
      = vfDispatchI { ctx with sched := sched } (.thread u) := by
    rw [runEpaStep, hsch, ok_bind]
  rw [hrun]
  cases u with
  | idle =>
    refine ⟨none, _, m, ?_, rfl, h₁, fun t e hn => by cases hn⟩
    unfold vfDispatchI
    simp only [h₁.idle]
  | app t =>
    have hpos : 0 < ctx.sched.ref (.app t) := by
      have hm : ThreadId.app t ∈ q p := by rw [hqp]; exact List.mem_cons_self ..
      exact ((hq.mem p _).mp hm).2.2
    have hlen := h.ref t
    have hdis : ctx.ctl.dispatches t = false := by rw [hctl]; rfl
    unfold wakeups at hlen
    rw [hdis] at hlen
    have hempty : nqueueItems (ctx.queue t) ≠ [] → nqueueIsEmpty (ctx.queue t) = false := by
      intro hne
      exact Bool.eq_false_of_not_eq_true (mt (h.queue t).isEmpty_iff.mp hne)
    have ht : registered t = true := by
      by_contra hnr
      rw [if_neg (fun hc => hnr hc.1)] at hlen
      refine hnr (hreg t (hempty fun hnil => ?_))
      rw [hnil] at hlen
      simp at hlen
      omega
    rcases h.phase t ht with ⟨hini, _⟩ | ⟨hdisp, _⟩
    · have hini₁ : sched.fn (.app t) = some .init := by rw [hfn]; exact hini
      obtain ⟨m', hm', h'⟩ := h₁.start hctl ht hini₁
      refine ⟨some (.start t), _, m', ?_, hm', h', fun t' e hn => by cases hn⟩
      unfold vfDispatchI
      simp only [hini₁]
    · have hdisp₁ : sched.fn (.app t) = some .dispatch := by rw [hfn]; exact hdisp
      have hne : nqueueItems (ctx.queue t) ≠ [] := by
        intro hnil
        rw [if_neg (fun hc => by rw [hdisp] at hc; cases hc.2), hnil] at hlen
        simp at hlen
        omega
      obtain ⟨m', hm', h'⟩ := h₁.pass hctl ht hdisp₁ hne
      refine ⟨some (.pass t (nqueueGet (ctx.queue t)).1), _, m', ?_, hm', h', fun t' e hn => ?_⟩
      · unfold vfDispatchI
        simp only [hdisp₁]
      · obtain ⟨rfl, -⟩ := Note.pass.inj (Option.some.inj hn)
        exact hempty hne

theorem returns (h : EpaInv cfg ctx registered m) (saturates : Bool) {t : T} {e : E}
    (hctl : ctx.ctl = .dispatching t e) :
    EpaInv cfg (epaDispatchRefDown saturates ctx t e) registered m := by
  have hdis : ∀ u, (epaDispatchRefDown saturates ctx t e).ctl.dispatches u
      = ctx.ctl.dispatches u := by
    intro u
    rw [hctl]
    rfl
  have hw : ∀ u, wakeups (epaDispatchRefDown saturates ctx t e) registered u
      = wakeups ctx registered u := wakeups_congr rfl hdis
  refine ⟨h.ready, h.queue, h.items, fun u => ?_, h.idle, fun u hu => ?_, h.unregistered,
    fun u hu => absurd hu (by simp [epaDispatchRefDown]),
    fun u hu => h.dispatches u ((hdis u).symm.trans hu), h.mail⟩
  · rw [hw]
    exact h.ref u
  · exact h.phase_of_ne hu (by rw [hctl]; nofun) _

theorem removeI (h : EpaInv cfg ctx registered m) (hcfg : OneBucketPerLevel cfg) (fuel : ℕ) {t : T}
    (hw : 0 < wakeups ctx registered t) :
    ∃ sched q, (edsScheduler cfg fuel).removeI ctx.sched t = .ok sched ∧
      Ready cfg sched (fun _ => true) q ∧ sched.fn = ctx.sched.fn ∧
      sched.ref = Function.update ctx.sched.ref (.app t) (ctx.sched.ref (.app t) - 1) := by
  obtain ⟨q, hq⟩ := h.ready
  have href := h.ref t
  have hlt := h.ref_lt hcfg t
  obtain ⟨sched, q', hrem, hready, href', _⟩ :=
    nthreadRemoveI_ready hcfg hq (t := t) rfl (by omega) (by omega)
  exact ⟨sched, q', hrem, hready, nthreadRemoveI_fn hrem, href'⟩

theorem finish (h : EpaInv cfg ctx registered m) (hcfg : OneBucketPerLevel cfg) (fuel : ℕ) {t : T}
    {e : E} (hctl : ctx.ctl = .dispatched t e) :
    ∃ ctx', epaDispatchEnd (edsScheduler cfg fuel) ctx t e = .ok ctx' ∧
      EpaInv cfg ctx' registered m := by
  have hdis : ∀ u, ctx.ctl.dispatches u = decide (t = u) := fun u => by rw [hctl]; rfl
  have hfn_t := (h.dispatches t (by rw [hdis]; exact decide_eq_true rfl)).2
  have hwt : wakeups ctx registered t = 1 := by
    unfold wakeups
    rw [hdis, decide_eq_true rfl, if_pos rfl, if_neg (fun hc => by rw [hfn_t] at hc; cases hc.2)]
  obtain ⟨sched, q, hrem, hready, hfn, href⟩ := h.removeI hcfg fuel (t := t) (by omega)
  let ctx₁ : EpaSys T D E M := ctx.withMem (neventDestroyI ctx.toEventMem e)
  refine ⟨{ ctx₁ with sched := sched, ctl := .loop }, ?_, ⟨q, hready⟩, h.queue, h.items,
    fun u => ?_, ?_, fun u hu => ?_, h.unregistered, fun u hu => absurd hu (by simp),
    fun u hu => absurd hu Bool.false_ne_true, h.mail⟩
  · unfold epaDispatchEnd
    show ((edsScheduler cfg fuel).removeI ctx.sched t >>= _) = _
    rw [hrem, ok_bind]
    rfl
  · show sched.ref (.app u) = (nqueueItems (ctx.queue u)).length +
      ((if registered u = true ∧ sched.fn (.app u) = some .init then 1 else 0) + 0)
    have href' := h.ref u
    rw [href]
    by_cases hut : u = t
    · rw [hut] at href' ⊢
      rw [Function.update_self, hfn, if_neg (fun hc => by rw [hfn_t] at hc; cases hc.2)]
      omega
    · unfold wakeups at href'
      rw [hdis u, decide_eq_false (fun hc => hut hc.symm), if_neg Bool.false_ne_true] at href'
      rw [Function.update_of_ne (fun hc => hut (ThreadId.app.inj hc)), hfn]
      exact href'
  · show sched.fn .idle = _
    rw [hfn]
    exact h.idle
  · show (sched.fn (.app u) = _ ∧ _) ∨ sched.fn (.app u) = _ ∧ _
    rw [hfn]
    exact h.phase_of_ne hu (by rw [hctl]; nofun) _

theorem finishInit (h : EpaInv cfg ctx registered m) (hcfg : OneBucketPerLevel cfg) (fuel : ℕ) {t : T}
    (hctl : ctx.ctl = .initialising t) :
    ∃ ctx', epaInitEnd (edsScheduler cfg fuel) ctx t = .ok ctx' ∧
      EpaInv cfg ctx' registered m := by
  obtain ⟨hreg, hfn_t, hstart⟩ := h.initialising t hctl
  have hdis : ∀ u, ctx.ctl.dispatches u = false := fun u => by rw [hctl]; rfl
  have hwt : wakeups ctx registered t = 1 := by
    unfold wakeups
    rw [hdis, if_pos ⟨hreg, hfn_t⟩, if_neg Bool.false_ne_true]
  obtain ⟨sched, q, hrem, hready, hfn, href⟩ := h.removeI hcfg fuel (t := t) (by omega)
  let sched₁ := (edsScheduler cfg fuel).setDispatch sched t .dispatch
  have hfn₁ : sched₁.fn = Function.update ctx.sched.fn (.app t) (some .dispatch) := by
    rw [← hfn]
    exact setDispatch_fn ..
  have hself : sched₁.fn (.app t) = some .dispatch := by rw [hfn₁, Function.update_self]
  have hother : ∀ u, u ≠ t → sched₁.fn (.app u) = ctx.sched.fn (.app u) := by
    intro u hu
    rw [hfn₁, Function.update_of_ne (fun hc => hu (ThreadId.app.inj hc))]
  have href₁ : sched₁.ref = Function.update ctx.sched.ref (.app t) (ctx.sched.ref (.app t) - 1) :=
    (setDispatch_ref ..).trans href
  refine ⟨{ ctx with sched := sched₁, ctl := .loop }, ?_,
    ⟨q, setDispatch_ready fuel hready t .dispatch⟩, h.queue, h.items, fun u => ?_, ?_,
    fun u hu => ?_, h.unregistered, fun u hu => absurd hu (by simp),
    fun u hu => absurd hu Bool.false_ne_true, h.mail⟩
  · unfold epaInitEnd
    rw [hrem, ok_bind]
    rfl
  · show sched₁.ref (.app u) = (nqueueItems (ctx.queue u)).length +
      ((if registered u = true ∧ sched₁.fn (.app u) = some .init then 1 else 0) + 0)
    have href' := h.ref u
    rw [href₁]
    by_cases hut : u = t
    · rw [hut] at href' ⊢
      rw [Function.update_self, hself, if_neg (fun hc => by cases hc.2)]
      omega
    · unfold wakeups at href'
      rw [hdis u, if_neg Bool.false_ne_true] at href'
      rw [Function.update_of_ne (fun hc => hut (ThreadId.app.inj hc)), hother u hut]
      exact href'
  · show sched₁.fn .idle = _
    rw [hfn₁, Function.update_of_ne (by simp)]
    exact h.idle
  · show (sched₁.fn (.app u) = _ ∧ _) ∨ sched₁.fn (.app u) = _ ∧ _
    by_cases hut : u = t
    · rw [hut]
      exact Or.inr ⟨hself, hstart⟩
    · rw [hother u hut]
      refine h.phase_of_ne hu ?_ _
      rw [hctl]
      exact fun hc => hut (EpaCtl.initialising.inj hc).symm

/-- **A send** puts the event to one end of the mailbox, or leaves all queues as they are. -/
theorem send (h : EpaInv cfg ctx registered m) (hcfg : OneBucketPerLevel cfg) (fuel : ℕ)
    (saturates : Bool) (t : T) (e : E) :
    ∃ error ctx' m', nepaSendEventI (edsScheduler cfg fuel) saturates ctx t e
        = .ok (error, ctx') ∧
      m.follow (noteOf (.put t e) error) = some m' ∧ EpaInv cfg ctx' registered m' := by
  unfold nepaSendEventI
  by_cases hlim : neventRef (ctx.event e) < neventRefLimit
  · rw [if_pos hlim]
    by_cases hfull : nqueueIsFull (ctx.queue t) = false
    · obtain ⟨hok, hitems, _⟩ := nqueuePutFifo_ok (h.queue t) hfull e
      have hm : m.next (.put t e) = some { m with
          sent := m.sent ++ [(t, e)]
          pending := Function.update m.pending t (m.pending t ++ [(m.sent.length, e)]) } := rfl
      have hpend : nqueueItems (nqueuePutFifo (ctx.queue t) e) = (Function.update m.pending t
          (m.pending t ++ [(m.sent.length, e)]) t).map Prod.snd := by
        rw [hitems, h.items t, Function.update_self, List.map_append, List.map_singleton]
      obtain ⟨sched, hins, h'⟩ := h.accept hcfg fuel (ctx.refUp saturates e) hok hm
        (fun u hu => Function.update_of_ne hu ..) rfl hpend
        (by rw [hitems, List.length_append]; rfl)
      refine ⟨.none, _, _, ?_, hm, h'⟩
      show (if nqueueIsFull (ctx.queue t) = false then _ else _) = _
      rw [if_pos hfull]
      show ((edsScheduler cfg fuel).insertI ctx.sched t >>= _) = _
      rw [hins, ok_bind]
      rfl
    · exact ⟨.noResource, ctx.withMem (neventDestroyI
        (EventMem.refDown saturates (ctx.refUp saturates e) e) e), m, if_neg hfull, rfl,
        h.memory rfl rfl rfl⟩
  · rw [if_neg hlim]
    exact ⟨.noReference, ctx, m, rfl, rfl, h⟩

theorem sendAhead (h : EpaInv cfg ctx registered m) (hcfg : OneBucketPerLevel cfg) (fuel : ℕ)
    (saturates : Bool) (t : T) (e : E) :
    ∃ error ctx' m', nepaSendEventAheadI (edsScheduler cfg fuel) saturates ctx t e
        = .ok (error, ctx') ∧
      m.follow (noteOf (.putAhead t e) error) = some m' ∧ EpaInv cfg ctx' registered m' := by
  unfold nepaSendEventAheadI
  by_cases hlim : neventRef (ctx.event e) < neventRefLimit
  · rw [if_pos hlim]
    by_cases hfull : nqueueIsFull (ctx.queue t) = false
    · obtain ⟨hok, hitems, _⟩ := nqueuePutLifo_ok (h.queue t) hfull e
      have hm : m.next (.putAhead t e) = some { m with
          sent := m.sent ++ [(t, e)]
          pending := Function.update m.pending t ((m.sent.length, e) :: m.pending t) } := rfl
      have hpend : nqueueItems (nqueuePutLifo (ctx.queue t) e) = (Function.update m.pending t
          ((m.sent.length, e) :: m.pending t) t).map Prod.snd := by
        rw [hitems, h.items t, Function.update_self, List.map_cons]
      obtain ⟨sched, hins, h'⟩ := h.accept hcfg fuel (ctx.refUp saturates e) hok hm
        (fun u hu => Function.update_of_ne hu ..) rfl hpend (by rw [hitems, List.length_cons])
      refine ⟨.none, _, _, ?_, hm, h'⟩
      show (if nqueueIsFull (ctx.queue t) = false then _ else _) = _
      rw [if_pos hfull]
      show ((edsScheduler cfg fuel).insertI ctx.sched t >>= _) = _
      rw [hins, ok_bind]
      rfl
    · exact ⟨.noResource, ctx.withMem (neventDestroyI (ctx.refUp saturates e) e), m, if_neg hfull,
        rfl, h.memory rfl rfl rfl⟩
  · rw [if_neg hlim]
    exact ⟨.noReference, ctx, m, rfl, rfl, h⟩

theorem step (h : EpaInv cfg ctx registered m) (hcfg : OneBucketPerLevel cfg) (fuel : ℕ)
    (saturates : Bool) {step : EpaStep T D E M} (hl : LegalEpaStep ctx registered step) :
    ∃ note ctx' m', runEpaStep cfg fuel saturates ctx step = .ok (note, ctx') ∧
      m.follow note = some m' ∧ EpaInv cfg ctx' (registeredAfter registered step) m' ∧
      ∀ t e, note = some (.pass t e) → nqueueIsEmpty (ctx.queue t) = false := by
  have hput : ∀ (error : Nerror) (note : Note T E), (∀ t e, note ≠ .pass t e) →
      ∀ t e, noteOf note error = some (.pass t e) → nqueueIsEmpty (ctx.queue t) = false := by
    intro error note hnote t e hn
    cases error with
    | none => exact absurd (Option.some.inj hn) (hnote t e)
    | noMemory => cases hn
    | noResource => cases hn
    | noReference => cases hn
  cases step with
  | register t =>
    obtain ⟨ctx', hrun, h'⟩ := h.register hcfg fuel hl
    refine ⟨none, ctx', m, ?_, rfl, h', fun _ _ hn => by cases hn⟩
    rw [runEpaStep, hrun, ok_bind]
    rfl
  | send t e =>
    obtain ⟨error, ctx', m', hrun, hm, h'⟩ := h.send hcfg fuel saturates t e
    refine ⟨_, ctx', m', ?_, hm, h', hput error _ (fun _ _ => by simp)⟩
    rw [runEpaStep, hrun, ok_bind]
    rfl
  | sendAhead t e =>
    obtain ⟨error, ctx', m', hrun, hm, h'⟩ := h.sendAhead hcfg fuel saturates t e
    refine ⟨_, ctx', m', ?_, hm, h', hput error _ (fun _ _ => by simp)⟩
    rw [runEpaStep, hrun, ok_bind]
    rfl
  | schedule => exact h.schedule hcfg fuel saturates hl.1 hl.2
  | returns =>
    obtain ⟨t, e, hctl⟩ := hl
    refine ⟨none, _, m, ?_, rfl, h.returns saturates hctl, fun _ _ hn => by cases hn⟩
    unfold runEpaStep
    simp only [hctl]
  | finish =>
    rcases hl with ⟨t, hctl⟩ | ⟨t, e, hctl⟩
    · obtain ⟨ctx', hrun, h'⟩ := h.finishInit hcfg fuel hctl
      refine ⟨none, ctx', m, ?_, rfl, h', fun _ _ hn => by cases hn⟩
      unfold runEpaStep
      simp only [hctl, hrun, ok_bind, pure_eq]
    · obtain ⟨ctx', hrun, h'⟩ := h.finish hcfg fuel hctl
      refine ⟨none, ctx', m, ?_, rfl, h', fun _ _ hn => by cases hn⟩
      unfold runEpaStep
      simp only [hctl, hrun, ok_bind, pure_eq]
  | memory mem deferred =>
    exact ⟨none, _, m, rfl, rfl, h.memory rfl rfl rfl, fun _ _ hn => by cases hn⟩

end EpaInv

end

/-! ## runs -/

section
variable (cfg : SchedConfig) (fuel : ℕ) (saturates : Bool)

def LegalEpaRun : EpaSys T D E M → (T → Bool) → List (EpaStep T D E M) → Prop
  | _, _, [] => True
  | ctx, registered, step :: steps => LegalEpaStep ctx registered step ∧
      ∀ note ctx', runEpaStep cfg fuel saturates ctx step = .ok (note, ctx') →
        LegalEpaRun ctx' (registeredAfter registered step) steps

/-- the agent `t` is in the run queue -/
def InRunQueue (ctx : EpaSys T D E M) (t : T) : Prop :=
  ∃ q, Ready cfg ctx.sched (fun _ => true) q ∧ .app t ∈ q (ctx.sched.prio (.app t))

def DeliverySound : EpaSys T D E M → (T → Bool) → Mailbox T E → List (EpaStep T D E M) → Prop
  | _, _, _, [] => True
  | ctx, registered, m, step :: steps => ∃ note ctx' m',
      runEpaStep cfg fuel saturates ctx step = .ok (note, ctx') ∧
      (∀ t e, note = some (.pass t e) → nqueueIsEmpty (ctx.queue t) = false) ∧
      m.follow note = some m' ∧ m'.ExactlyOnce ∧
      (∀ t, nqueueItems (ctx'.queue t) = (m'.pending t).map Prod.snd) ∧
      (∀ t, registeredAfter registered step t = true → nqueueIsEmpty (ctx'.queue t) = false →
        InRunQueue cfg ctx' t) ∧
      DeliverySound ctx' (registeredAfter registered step) m' steps

end

/-- the run queue is initialised, the agents are set up, and nothing is sent or registered yet -/
structure EpaStart (cfg : SchedConfig) (ctx : EpaSys T D E M) : Prop where
  ready : ∃ q, Ready cfg ctx.sched (fun _ => true) q
  queue : ∀ t, QueueOk (ctx.queue t) ∧ nqueueItems (ctx.queue t) = []
  ref : ∀ t, ctx.sched.ref (.app t) = 0
  idle : ctx.sched.fn .idle = some .idle
  ctl : ctx.ctl = .loop

section
variable {cfg : SchedConfig}

theorem EpaStart.inv {ctx : EpaSys T D E M} (h : EpaStart cfg ctx) :
    EpaInv cfg ctx (fun _ => false) Mailbox.empty := by
  refine ⟨h.ready, fun t => (h.queue t).1, fun t => (h.queue t).2, fun t => ?_, h.idle,
    fun t ht => absurd ht Bool.false_ne_true, fun _ _ => rfl, fun t ht => ?_, fun t ht => ?_,
    exactlyOnce_empty⟩
  · unfold wakeups
    rw [h.ref, (h.queue t).2, h.ctl]
    rfl
  · rw [h.ctl] at ht
    cases ht
  · rw [h.ctl] at ht
    cases ht

theorem EpaInv.run (hcfg : OneBucketPerLevel cfg) (fuel : ℕ) (saturates : Bool)
    (steps : List (EpaStep T D E M)) :
    ∀ {ctx : EpaSys T D E M} {registered : T → Bool} {m : Mailbox T E},
      EpaInv cfg ctx registered m → LegalEpaRun cfg fuel saturates ctx registered steps →
      DeliverySound cfg fuel saturates ctx registered m steps := by
  induction steps with
  | nil => exact fun _ _ => trivial
  | cons step steps ih =>
    intro ctx registered m h hl
    obtain ⟨note, ctx', m', hrun, hm, h', hne⟩ := h.step hcfg fuel saturates hl.1
    exact ⟨note, ctx', m', hrun, hne, hm, h'.mail, h'.items, fun t _ ht => h'.mem_runQueue ht,
      ih h' (hl.2 note ctx' hrun)⟩

/-- **Every event is delivered once and in order.** -/
theorem deliverySound (hcfg : OneBucketPerLevel cfg) (fuel : ℕ) (saturates : Bool)
    {ctx : EpaSys T D E M} (hctx : EpaStart cfg ctx) (steps : List (EpaStep T D E M))
    (hl : LegalEpaRun cfg fuel saturates ctx (fun _ => false) steps) :
    DeliverySound cfg fuel saturates ctx (fun _ => false) Mailbox.empty steps :=
  EpaInv.run hcfg fuel saturates steps hctx.inv hl

end

/-! ## one agent, one event -/

/-- the run queue after the `nthread_init` of one thread -/
def oneThread : SchedCtx 32 Unit EpaFn :=
  match nthreadInit cfg32 0 .idle SchedCtx.init (.app ()) 3 .init with
  | .ok sched => sched
  | .error _ => SchedCtx.init

/-- an agent with a queue of two events, and one static event -/
def oneAgent : EpaSys Unit Unit Unit Unit where
  event := fun _ => { mem := none, id := 0, attrib := 0#32, ref := 0#32 }
  frees := []
  sched := oneThread
  queue := fun _ => nqueueInit 2 (fun _ => ())
  deferred := fun _ => nqueueInit 2 (fun _ => ())
  ctl := .loop

theorem oneAgent_start : EpaStart cfg32 oneAgent := by
  have hstate : SchedState cfg32 (SchedCtx.init : SchedCtx 32 Unit EpaFn) (fun _ => false) :=
    Or.inl ⟨rfl, rfl⟩
  obtain ⟨sched, hrun, ⟨q, hq⟩, _⟩ := hstate.init cfg32_oneBucketPerLevel 0 .idle (t := ()) rfl
    (show 3 < 32 by decide) (by decide) .init
  have hsched : oneThread = sched := by
    unfold oneThread
    rw [hrun]
  have hlive : liveAfter (fun _ => false) (.init () 3 EpaFn.init) = (fun _ => true) := by
    funext u
    cases u <;> rfl
  rw [hlive, ← hsched] at hq
  exact ⟨⟨q, hq⟩, fun _ => nqueueInit_ok (k := 1) (le_refl 1) (by decide) _, fun _ => rfl, rfl, rfl⟩

/-- the agent is registered, gets an event, starts and handles it -/
def oneEvent : List (EpaStep Unit Unit Unit Unit) :=
  [.register (), .send () (), .schedule, .finish, .schedule, .returns, .finish]

theorem oneEvent_legal : LegalEpaRun cfg32 0 false oneAgent (fun _ => false) oneEvent := by
  refine ⟨rfl, fun n₁ ctx₁ h₁ => ⟨trivial, fun n₂ ctx₂ h₂ => ?_⟩⟩
  have hc₁ := (Prod.mk.inj (Except.ok.inj h₁)).2
  subst hc₁
  have hc₂ := (Prod.mk.inj (Except.ok.inj h₂)).2
  subst hc₂
  refine ⟨⟨rfl, fun _ _ => rfl⟩, fun n₃ ctx₃ h₃ => ?_⟩
  have hc₃ := (Prod.mk.inj (Except.ok.inj h₃)).2
  subst hc₃
  refine ⟨Or.inl ⟨(), rfl⟩, fun n₄ ctx₄ h₄ => ?_⟩
  have hc₄ := (Prod.mk.inj (Except.ok.inj h₄)).2
  subst hc₄
  refine ⟨⟨rfl, fun _ _ => rfl⟩, fun n₅ ctx₅ h₅ => ?_⟩
  have hc₅ := (Prod.mk.inj (Except.ok.inj h₅)).2
  subst hc₅
  refine ⟨⟨(), (), rfl⟩, fun n₆ ctx₆ h₆ => ?_⟩
  have hc₆ := (Prod.mk.inj (Except.ok.inj h₆)).2
  subst hc₆
  exact ⟨Or.inr ⟨(), (), rfl⟩, fun _ _ _ => trivial⟩

theorem deliverySound_oneEvent :
    DeliverySound cfg32 0 false oneAgent (fun _ => false) Mailbox.empty oneEvent :=
  deliverySound cfg32_oneBucketPerLevel 0 false oneAgent_start oneEvent oneEvent_legal

end NeonEds
