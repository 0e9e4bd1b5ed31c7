import Mathlib.Algebra.Order.BigOperators.Group.Finset
import NeonEds.Ep.Drain
import NeonEds.Sched.Fairness

/-!
# How long an event waits

An event waits for the dispatches of greater priority, and for one round of the agents of its own priority
with every event in front of it.  Meanwhile agents are registered and events are sent at any place.

* `EpaInv.turn`          what a step does to the run queue: who is chosen has its turn, others join or leave;
* `waitRank`             the choices of the loop that an event may wait for;
* `EpaInv.waitStep`      every choice of the loop takes one from it, work for others adds to it;
* `epaRun_response`      after so many choices the event is passed.
-/

set_option linter.unusedSectionVars false

namespace NeonEds
open Exec Mailbox

variable {T D E M : Type} [DecidableEq T] [DecidableEq D] [DecidableEq E]

/-- what the choice of a thread is noted as -/
def ChosenNote (u : ThreadId T) (note : Option (Note T E)) : Prop :=
  u = .idle ∧ note = none ∨ ∃ t, u = .app t ∧ (note = some (.start t) ∨ ∃ e, note = some (.pass t e))

/-- the run queue after a step, in which the loop has chosen the thread `chosen` -/
structure TakesTurn (cfg : SchedConfig) (ctx ctx' : EpaSys T D E M) (q q' : ℕ → List (ThreadId T))
    (chosen : Option (ThreadId T)) : Prop where
  ready : Ready cfg ctx'.sched (fun _ => true) q'
  prio : ctx'.sched.prio = ctx.sched.prio
  turn : ∀ p, TurnStep (q p) (turnOf ctx.sched.prio p (chosen.map .thread)) (q' p)

section
variable {cfg : SchedConfig} {fuel : ℕ} {saturates : Bool} {ctx ctx' : EpaSys T D E M}
  {registered : T → Bool} {m : Mailbox T E} {q : ℕ → List (ThreadId T)}

/-! ### the run queue -/

theorem TakesTurn.same (hq : Ready cfg ctx.sched (fun _ => true) q) (hsched : ctx'.sched = ctx.sched) :
    TakesTurn cfg ctx ctx' q q none := by
  refine ⟨?_, by rw [hsched], fun p => .keep _⟩
  rw [hsched]
  exact hq

theorem TakesTurn.insert (hcfg : OneBucketPerLevel cfg) {sched : SchedCtx 32 T EpaFn}
    (hq : Ready cfg sched (fun _ => true) q) (hprio : sched.prio = ctx.sched.prio) {t : T}
    (hlt : sched.ref (.app t) + 1 < 2 ^ cfg.fast32)
    (hins : (edsScheduler cfg fuel).insertI sched t = .ok ctx'.sched) :
    ∃ q', TakesTurn cfg ctx ctx' q q' none := by
  obtain ⟨sched', q', hins', hready, _, hprio', hq'⟩ :=
    nthreadInsertI_ready hcfg fuel hq (t := .app t) rfl hlt
  obtain rfl := Except.ok.inj (hins'.symm.trans hins)
  refine ⟨q', hready, hprio'.trans hprio, fun p => ?_⟩
  rcases hq' p with hp | ⟨hnm, hp⟩
  · rw [hp]
    exact .keep _
  · rw [hp]
    exact .join hnm

theorem EpaInv.turnSchedule (hcfg : OneBucketPerLevel cfg)
    (hq : Ready cfg ctx.sched (fun _ => true) q) {note : Option (Note T E)}
    (hrun : runEpaStep cfg fuel saturates ctx .schedule = .ok (note, ctx')) :
    ∃ u q', TakesTurn cfg ctx ctx' q q' (some u) ∧ ChosenNote u note ∧
      ∀ p, q p ≠ [] → p ≤ ctx.sched.prio u := by
  obtain ⟨p₀, u, rest, hqp, hmax⟩ := hq.exists_highest
  obtain ⟨sched, hsch, hready, _, hprio, _⟩ := schedScheduleI_ready hcfg fuel hq hqp hmax
  have hu : ctx.sched.prio u = p₀ := ((hq.mem p₀ u).mp (hqp ▸ List.mem_cons_self)).2.1
  have hvf : vfDispatchI { ctx with sched := sched } (.thread u) = .ok (note, ctx') := by
    rw [runEpaStep, hsch, ok_bind] at hrun
    exact hrun
  have hctx' : ctx'.sched = sched ∧ ChosenNote u note := by
    rcases vfDispatchI_cases hvf with ⟨hu, hn, rfl⟩ | ⟨t, hu, _, hn, rfl⟩ | ⟨t, hu, _, hn, rfl⟩
    · exact ⟨rfl, .inl ⟨hu, hn⟩⟩
    · exact ⟨rfl, .inr ⟨t, hu, .inl hn⟩⟩
    · exact ⟨rfl, .inr ⟨t, hu, .inr ⟨_, hn⟩⟩⟩
  refine ⟨u, _, ⟨hctx'.1 ▸ hready, by rw [hctx'.1]; exact hprio, fun p => ?_⟩, hctx'.2, fun p hp => ?_⟩
  · by_cases hp : p = p₀
    · rw [hp, Function.update_self, hqp, Option.map_some, turnOf_eq_some.mpr ⟨rfl, hu⟩]
      exact .serve u rest
    · rw [Function.update_of_ne hp, Option.map_some, turnOf, if_neg fun e => hp (e.symm.trans hu)]
      exact .keep _
  · rw [hu]
    exact hmax p hp

/-- **What a step does to the run queue.** -/
theorem EpaInv.turn (h : EpaInv cfg ctx registered m) (hcfg : OneBucketPerLevel cfg)
    (hq : Ready cfg ctx.sched (fun _ => true) q) {step : EpaStep T D E M}
    (hl : LegalEpaStep ctx registered step) (hstep : step.isSchedule = false)
    {note : Option (Note T E)} (hrun : runEpaStep cfg fuel saturates ctx step = .ok (note, ctx')) :
    ∃ q', TakesTurn cfg ctx ctx' q q' none := by
  cases step with
  | schedule => cases hstep
  | register t =>
    obtain ⟨ctx₁, hreg, hrun⟩ := bind_eq_ok.mp hrun
    obtain ⟨sched, hins, hreg⟩ := bind_eq_ok.mp hreg
    obtain ⟨_, rfl⟩ := Prod.mk.inj (Except.ok.inj hrun)
    rw [← Except.ok.inj hreg]
    refine TakesTurn.insert hcfg (setDispatch_ready fuel hq t .init) rfl ?_ hins
    rw [setDispatch_ref]
    exact h.ref_lt hcfg t
  | send t e =>
    obtain ⟨⟨error, ctx₁⟩, hsend, hrun⟩ := bind_eq_ok.mp hrun
    obtain ⟨_, rfl⟩ := Prod.mk.inj (Except.ok.inj hrun)
    rcases (nepaSendEventI_sched hsend).2 with hins | hsame
    · exact TakesTurn.insert hcfg hq rfl (h.ref_lt hcfg t) hins
    · exact ⟨q, .same hq hsame⟩
  | sendAhead t e =>
    obtain ⟨⟨error, ctx₁⟩, hsend, hrun⟩ := bind_eq_ok.mp hrun
    obtain ⟨_, rfl⟩ := Prod.mk.inj (Except.ok.inj hrun)
    rcases (nepaSendEventAheadI_sched hsend).2 with hins | hsame
    · exact TakesTurn.insert hcfg hq rfl (h.ref_lt hcfg t) hins
    · exact ⟨q, .same hq hsame⟩
  | returns =>
    obtain ⟨t, e, hctl⟩ := hl
    unfold runEpaStep at hrun
    simp only [hctl] at hrun
    obtain ⟨_, rfl⟩ := Prod.mk.inj (Except.ok.inj hrun)
    exact ⟨q, .same hq rfl⟩
  | finish =>
    obtain ⟨t, sched, hrem, hends, _, _, _, hcases⟩ := finish_cases hl hrun
    obtain ⟨sched', q', hrem', hready, _, hprio, hq'⟩ := nthreadRemoveI_ready hcfg hq (t := t) rfl
      (h.of_endsFor hends).2.2 (Nat.lt_of_succ_lt (h.ref_lt hcfg t))
    obtain rfl := Except.ok.inj (hrem.symm.trans hrem')
    have hturn : ∀ p, TurnStep (q p) none (q' p) := by
      intro p
      rcases hq' p with hp | hp
      · rw [hp]
        exact .keep _
      · rw [hp]
        exact .leave _ _
    rcases hcases with ⟨_, hsched⟩ | ⟨_, hsched⟩
    · refine ⟨q', ?_, by rw [hsched]; exact hprio, hturn⟩
      rw [hsched]
      exact setDispatch_ready fuel hready t .dispatch
    · exact ⟨q', hsched ▸ hready, by rw [hsched]; exact hprio, hturn⟩
  | memory mem deferred =>
    obtain ⟨_, rfl⟩ := Prod.mk.inj (Except.ok.inj hrun)
    exact ⟨q, .same hq rfl⟩

/-! ### what is due -/

/-- the `NSM_INIT` of `t` is still to be dispatched -/
def initDue (ctx : EpaSys T D E M) (registered : T → Bool) (t : T) : ℕ :=
  if registered t = true ∧ ctx.sched.fn (.app t) = some .init ∧ ctx.ctl.initialises t = false
  then 1 else 0

theorem backlogOf_eq (ctx : EpaSys T D E M) (registered : T → Bool) (t : T) :
    backlogOf ctx registered t = (nqueueItems (ctx.queue t)).length + initDue ctx registered t := rfl

theorem initDue_congr {t : T} (hfn : ctx'.sched.fn (.app t) = ctx.sched.fn (.app t))
    (hctl : ctx'.ctl = ctx.ctl) : initDue ctx' registered t = initDue ctx registered t := by
  unfold initDue
  rw [hfn, hctl]

/-- the agent that a step gives work to -/
def EpaStep.worksFor : EpaStep T D E M → Option T
  | .register t => some t
  | .send t _ => some t
  | .sendAhead t _ => some t
  | _ => none

theorem EpaInv.length_items (h : EpaInv cfg ctx registered m) {registered' : T → Bool}
    {m' : Mailbox T E} (h' : EpaInv cfg ctx' registered' m') {note : Option (Note T E)}
    (hm : m.follow note = some m') (t : T) :
    (nqueueItems (ctx.queue t)).length + (note.bind (Note.put? t)).toList.length
      = (note.bind (Note.pass? t)).toList.length + (nqueueItems (ctx'.queue t)).length := by
  rw [h.items, h'.items, List.length_map, List.length_map]
  cases note with
  | none =>
    rw [← Option.some.inj hm]
    simp
  | some n => exact next_length hm t

/-- a step that is not quiet makes no dispatch; one agent may be due one more -/
structure AddStep (ctx ctx' : EpaSys T D E M) (registered : T → Bool) (step : EpaStep T D E M)
    (note : Option (Note T E)) : Prop where
  isSchedule : step.isSchedule = false
  pass : ∀ t, note.bind (Note.pass? t) = none
  /-- only `nepa_send_event_ahead_i` puts an event ahead -/
  ahead : ∀ t e, note = some (.putAhead t e) → step = .sendAhead t e
  init : ∀ t, registered t = true →
    initDue ctx' (registeredAfter registered step) t = initDue ctx registered t
  added : ∀ t, backlogOf ctx' (registeredAfter registered step) t
    ≤ backlogOf ctx registered t + if step.worksFor = some t then 1 else 0

theorem EpaInv.addSend (h : EpaInv cfg ctx registered m) {m' : Mailbox T E}
    (h' : EpaInv cfg ctx' registered m') {step : EpaStep T D E M} {t : T} {e : E}
    (hstep : step = .send t e ∨ step = .sendAhead t e) {note : Option (Note T E)}
    (hnote : note = none ∨ note = some (.put t e) ∨
      note = some (.putAhead t e) ∧ step = .sendAhead t e)
    (hm : m.follow note = some m') (hfn : ctx'.sched.fn = ctx.sched.fn) (hctl : ctx'.ctl = ctx.ctl) :
    AddStep ctx ctx' registered step note := by
  have hreg : registeredAfter registered step = registered := by
    rcases hstep with rfl | rfl <;> rfl
  have hpass : ∀ u, note.bind (Note.pass? u) = none := by
    intro u
    rcases hnote with rfl | rfl | ⟨rfl, _⟩ <;> rfl
  have hinit : ∀ u, initDue ctx' registered u = initDue ctx registered u :=
    fun u => initDue_congr (congrFun hfn _) hctl
  refine ⟨?_, hpass, fun u x hn => ?_, fun u _ => ?_, fun u => ?_⟩
  · rcases hstep with rfl | rfl <;> rfl
  · rcases hnote with rfl | rfl | ⟨rfl, hahead⟩
    · cases hn
    · cases hn
    · obtain ⟨rfl, rfl⟩ := Note.putAhead.inj (Option.some.inj hn)
      exact hahead
  · rw [hreg]
    exact hinit u
  · have hput : (note.bind (Note.put? u)).toList.length ≤ if step.worksFor = some u then 1 else 0 := by
      rcases hstep with rfl | rfl <;> rcases hnote with rfl | rfl | ⟨rfl, _⟩ <;>
        by_cases hu : t = u <;> simp [Note.put?, EpaStep.worksFor, hu]
    have hlen := h.length_items h' hm u
    rw [hpass, Option.toList_none, List.length_nil, Nat.zero_add] at hlen
    rw [hreg, backlogOf_eq, backlogOf_eq, hinit, ← hlen]
    omega

theorem noteOf_cases (note : Note T E) (error : Nerror) :
    noteOf note error = none ∨ noteOf note error = some note := by
  cases error <;> simp [noteOf]

theorem EpaInv.addStep (h : EpaInv cfg ctx registered m) {step : EpaStep T D E M}
    (hq : ¬ step.Quiet) (hl : LegalEpaStep ctx registered step) {note : Option (Note T E)}
    {m' : Mailbox T E} (hrun : runEpaStep cfg fuel saturates ctx step = .ok (note, ctx'))
    (hm : m.follow note = some m') (h' : EpaInv cfg ctx' (registeredAfter registered step) m') :
    AddStep ctx ctx' registered step note := by
  cases step with
  | register t =>
    obtain ⟨ctx₁, hreg, hrun⟩ := bind_eq_ok.mp hrun
    obtain ⟨sched, hins, hreg⟩ := bind_eq_ok.mp hreg
    obtain ⟨rfl, rfl⟩ := Prod.mk.inj (Except.ok.inj hrun)
    have hctx₁ := Except.ok.inj hreg
    have hfn : ctx₁.sched.fn = Function.update ctx.sched.fn (.app t) (some .init) := by
      rw [← hctx₁]
      exact (nthreadInsertI_fn hins).trans (setDispatch_fn ..)
    have hother : ∀ u, u ≠ t →
        initDue ctx₁ (Function.update registered t true) u = initDue ctx registered u := by
      intro u hu
      unfold initDue
      rw [Function.update_of_ne hu, hfn, Function.update_of_ne fun hc => hu (ThreadId.app.inj hc),
        ← hctx₁]
    refine ⟨rfl, fun _ => rfl, fun _ _ hn => (by cases hn), fun u hu => hother u ?_, fun u => ?_⟩
    · rintro rfl
      rw [show registered u = false from hl] at hu
      cases hu
    · have hlen : nqueueItems (ctx₁.queue u) = nqueueItems (ctx.queue u) := by rw [← hctx₁]
      show backlogOf ctx₁ (Function.update registered t true) u ≤ _
      rw [backlogOf_eq, backlogOf_eq, hlen]
      by_cases hu : u = t
      · have hle : initDue ctx₁ (Function.update registered t true) u ≤ 1 := by
          unfold initDue
          split
          · exact Nat.le_refl 1
          · exact Nat.zero_le 1
        have hworks : (.register t : EpaStep T D E M).worksFor = some u := congrArg some hu.symm
        rw [if_pos hworks]
        omega
      · rw [hother u hu]
        exact Nat.le_add_right ..
  | send t e =>
    obtain ⟨⟨error, ctx₁⟩, hsend, hrun⟩ := bind_eq_ok.mp hrun
    obtain ⟨rfl, rfl⟩ := Prod.mk.inj (Except.ok.inj hrun)
    obtain ⟨hctl, hsched⟩ := nepaSendEventI_sched hsend
    refine h.addSend h' (.inl rfl) ((noteOf_cases _ _).imp_right .inl) hm ?_ hctl
    rcases hsched with hins | hsame
    · exact nthreadInsertI_fn hins
    · rw [hsame]
  | sendAhead t e =>
    obtain ⟨⟨error, ctx₁⟩, hsend, hrun⟩ := bind_eq_ok.mp hrun
    obtain ⟨rfl, rfl⟩ := Prod.mk.inj (Except.ok.inj hrun)
    obtain ⟨hctl, hsched⟩ := nepaSendEventAheadI_sched hsend
    refine h.addSend h' (.inr rfl) ((noteOf_cases _ _).imp_right fun hn => .inr ⟨hn, rfl⟩) hm ?_ hctl
    rcases hsched with hins | hsame
    · exact nthreadInsertI_fn hins
    · rw [hsame]
  | _ => exact absurd trivial hq

end

/-! ### the rank of an event -/

section
variable [Fintype T]

/-- what is due above the priority `p` -/
def workAbove (ctx : EpaSys T D E M) (registered : T → Bool) (p : ℕ) : ℕ :=
  ∑ t with p < ctx.sched.prio (.app t), backlogOf ctx registered t

/-- the threads of priority `p`; the idle thread is at the level 0 -/
def peers (ctx : EpaSys T D E M) (p : ℕ) : ℕ :=
  (Finset.univ.filter fun t => ctx.sched.prio (.app t) = p).card + if p = 0 then 1 else 0

/-- the step gives work to an agent above the priority `p` -/
def EpaStep.loads (ctx : EpaSys T D E M) (p : ℕ) (step : EpaStep T D E M) : Bool :=
  step.worksFor.any fun t => decide (p < ctx.sched.prio (.app t))

/-- the choices of the loop that an event of `a` with `n` events in front of it may wait for -/
def waitRank (ctx : EpaSys T D E M) (registered : T → Bool) (q : ℕ → List (ThreadId T)) (a : T)
    (n : ℕ) : ℕ :=
  workAbove ctx registered (ctx.sched.prio (.app a)) +
    peers ctx (ctx.sched.prio (.app a)) * (n + initDue ctx registered a) +
    (q (ctx.sched.prio (.app a))).idxOf (.app a)

variable {cfg : SchedConfig} {fuel : ℕ} {saturates : Bool} {ctx ctx' : EpaSys T D E M}
  {registered : T → Bool} {m : Mailbox T E} {q q' : ℕ → List (ThreadId T)} {p : ℕ}

theorem Ready.length_le_peers (hq : Ready cfg ctx.sched (fun _ => true) q) (p : ℕ) :
    (q p).length ≤ peers ctx p := by
  have hsub : (q p).toFinset ⊆
      (Finset.univ.filter fun t => ctx.sched.prio (.app t) = p).image ThreadId.app ∪
        if p = 0 then {.idle} else ∅ := by
    intro u hu
    obtain ⟨_, hprio, _⟩ := (hq.mem p u).mp (List.mem_toFinset.mp hu)
    rw [Finset.mem_union]
    cases u with
    | idle =>
      right
      rw [if_pos (hprio.symm.trans hq.idle.2.1)]
      exact Finset.mem_singleton_self _
    | app t => exact .inl (Finset.mem_image_of_mem _ (Finset.mem_filter.mpr ⟨Finset.mem_univ t, hprio⟩))
  have hidle : (if p = 0 then {.idle} else ∅ : Finset (ThreadId T)).card = if p = 0 then 1 else 0 := by
    split <;> rfl
  rw [← List.toFinset_card_of_nodup (hq.nodup p)]
  refine (Finset.card_le_card hsub).trans ((Finset.card_union_le _ _).trans ?_)
  rw [hidle]
  exact Nat.add_le_add_right Finset.card_image_le _

theorem EpaInv.mem_ready (h : EpaInv cfg ctx registered m)
    (hq : Ready cfg ctx.sched (fun _ => true) q) {a : T} (hne : nqueueItems (ctx.queue a) ≠ []) :
    .app a ∈ q (ctx.sched.prio (.app a)) := by
  have hpos := List.length_pos_of_ne_nil hne
  have href := h.ref a
  exact (hq.mem _ _).mpr ⟨rfl, rfl, by omega⟩

theorem peers_congr (hprio : ctx'.sched.prio = ctx.sched.prio) (p : ℕ) : peers ctx' p = peers ctx p := by
  unfold peers
  rw [hprio]

/-- the dispatches above the priority `p` that a note tells -/
def madeAbove (ctx : EpaSys T D E M) (p : ℕ) (note : Option (Note T E)) : ℕ :=
  note.elim 0 fun n => if p < ctx.sched.prio (.app (noteAgent n)) then 1 else 0

theorem QuietStep.workAbove_eq {step : EpaStep T D E M} {note : Option (Note T E)}
    (h : QuietStep cfg ctx ctx' registered step note) (p : ℕ) :
    workAbove ctx' registered p + madeAbove ctx p note = workAbove ctx registered p := by
  have hmade : ∑ t with p < ctx.sched.prio (.app t), madeFor t note = madeAbove ctx p note := by
    cases note with
    | none => exact Finset.sum_const_zero
    | some n =>
      refine (Finset.sum_ite_eq _ _ _).trans ?_
      simp [madeAbove]
  unfold workAbove
  rw [h.prio, ← hmade, ← Finset.sum_add_distrib]
  exact Finset.sum_congr rfl fun t _ => h.remaining t

theorem AddStep.workAbove_le {step : EpaStep T D E M} {note : Option (Note T E)}
    (h : AddStep ctx ctx' registered step note) (hprio : ctx'.sched.prio = ctx.sched.prio) (p : ℕ) :
    workAbove ctx' (registeredAfter registered step) p
      ≤ workAbove ctx registered p + if step.loads ctx p = true then 1 else 0 := by
  have hload : ∑ t with p < ctx.sched.prio (.app t), (if step.worksFor = some t then 1 else 0)
      = if step.loads ctx p = true then 1 else 0 := by
    unfold EpaStep.loads
    cases step.worksFor with
    | none => simp
    | some w => simp [Finset.sum_ite_eq]
  unfold workAbove
  rw [hprio, ← hload, ← Finset.sum_add_distrib]
  exact Finset.sum_le_sum fun t _ => h.added t

theorem waitRank_eq (hprio : ctx'.sched.prio = ctx.sched.prio) (registered : T → Bool) (a : T) (n : ℕ) :
    waitRank ctx' registered q' a n = workAbove ctx' registered (ctx.sched.prio (.app a)) +
      peers ctx (ctx.sched.prio (.app a)) * (n + initDue ctx' registered a) +
      (q' (ctx.sched.prio (.app a))).idxOf (.app a) := by
  unfold waitRank
  rw [hprio, peers_congr hprio]

theorem EpaInv.fifo_items (h : EpaInv cfg ctx registered m) {registered' : T → Bool}
    {m' : Mailbox T E} (h' : EpaInv cfg ctx' registered' m') {note : Option (Note T E)}
    (hm : m.follow note = some m') {t : T} (hahead : ∀ e, note ≠ some (.putAhead t e)) :
    nqueueItems (ctx.queue t) ++ (note.bind (Note.put? t)).toList
      = (note.bind (Note.pass? t)).toList ++ nqueueItems (ctx'.queue t) := by
  rw [h.items, h'.items]
  cases note with
  | none =>
    rw [← Option.some.inj hm]
    simp
  | some n => exact next_fifo hm t fun e hn => hahead e (congrArg some hn)

/-! ### one step -/

variable {a : T} {e : E} {front rest : List E}

/-- what a step makes of an event of `a` that waits behind `front`: it is passed, or it comes nearer -/
def ComesNearer (cfg : SchedConfig) (ctx ctx' : EpaSys T D E M) (registered : T → Bool)
    (q : ℕ → List (ThreadId T)) (a : T) (front : List E) (e : E) (step : EpaStep T D E M)
    (note : Option (Note T E)) : Prop :=
  front = [] ∧ note.bind (Note.pass? a) = some e ∨
    ∃ q' front' rest', Ready cfg ctx'.sched (fun _ => true) q' ∧ ctx'.sched.prio = ctx.sched.prio ∧
      nqueueItems (ctx'.queue a) = front' ++ e :: rest' ∧
      front = (note.bind (Note.pass? a)).toList ++ front' ∧
      waitRank ctx' (registeredAfter registered step) q' a front'.length +
          (if step.isSchedule = true then 1 else 0)
        ≤ waitRank ctx registered q a front.length +
          if step.loads ctx (ctx.sched.prio (.app a)) = true then 1 else 0

theorem EpaInv.waitOther (h : EpaInv cfg ctx registered m) (hcfg : OneBucketPerLevel cfg)
    (hq : Ready cfg ctx.sched (fun _ => true) q)
    (hitems : nqueueItems (ctx.queue a) = front ++ e :: rest) {step : EpaStep T D E M}
    (hstep : step.isSchedule = false) (hl : LegalEpaStep ctx registered step)
    {note : Option (Note T E)} {m' : Mailbox T E}
    (hrun : runEpaStep cfg fuel saturates ctx step = .ok (note, ctx'))
    (hm : m.follow note = some m') (h' : EpaInv cfg ctx' (registeredAfter registered step) m')
    (hahead : ∀ x, note ≠ some (.putAhead a x)) (hpass : note.bind (Note.pass? a) = none)
    (hinit : initDue ctx' (registeredAfter registered step) a = initDue ctx registered a)
    (hwork : workAbove ctx' (registeredAfter registered step) (ctx.sched.prio (.app a))
      ≤ workAbove ctx registered (ctx.sched.prio (.app a)) +
        if step.loads ctx (ctx.sched.prio (.app a)) = true then 1 else 0) :
    ComesNearer cfg ctx ctx' registered q a front e step note := by
  obtain ⟨q', hturn⟩ := h.turn hcfg hq hl hstep hrun
  have hfifo := h.fifo_items h' hm hahead
  rw [hitems, hpass, Option.toList_none, List.nil_append, List.append_assoc, List.cons_append] at hfifo
  have hmem := h.mem_ready hq (a := a) (by rw [hitems]; simp)
  have hmem' := h'.mem_ready hturn.ready (a := a) (by rw [← hfifo]; simp)
  rw [hturn.prio] at hmem'
  have hidx := (hturn.turn _).idxOf_le (hq.nodup _) hmem hmem'
  refine Or.inr ⟨q', front, _, hturn.ready, hturn.prio, hfifo.symm, by rw [hpass]; rfl, ?_⟩
  rw [waitRank_eq hturn.prio, hinit, hstep]
  unfold waitRank
  simp only [Bool.false_eq_true, if_false]
  omega

/-- a choice of the loop -/
structure Choice (cfg : SchedConfig) (ctx ctx' : EpaSys T D E M) (registered : T → Bool)
    (q q' : ℕ → List (ThreadId T)) (u : ThreadId T) (note : Option (Note T E)) : Prop where
  quiet : QuietStep cfg ctx ctx' registered .schedule note
  turn : TakesTurn cfg ctx ctx' q q' (some u)
  chosen : ChosenNote u note
  highest : ∀ p, q p ≠ [] → p ≤ ctx.sched.prio u
  fifo : ∀ t, nqueueItems (ctx.queue t)
    = (note.bind (Note.pass? t)).toList ++ nqueueItems (ctx'.queue t)

theorem EpaInv.choice (h : EpaInv cfg ctx registered m) (hcfg : OneBucketPerLevel cfg)
    (hq : Ready cfg ctx.sched (fun _ => true) q) (hctl : ctx.ctl = .loop) {note : Option (Note T E)}
    {m' : Mailbox T E} (hrun : runEpaStep cfg fuel saturates ctx .schedule = .ok (note, ctx'))
    (hm : m.follow note = some m') (h' : EpaInv cfg ctx' registered m') :
    ∃ u q', Choice cfg ctx ctx' registered q q' u note := by
  have hquiet := h.quietSchedule hcfg hctl hrun hm h'
  obtain ⟨u, q', hturn, hchosen, hmax⟩ := EpaInv.turnSchedule hcfg hq hrun
  refine ⟨u, q', hquiet, hturn, hchosen, hmax, fun t => ?_⟩
  have hput : note.bind (Note.put? t) = none := by
    rcases hchosen with ⟨_, rfl⟩ | ⟨t, _, rfl | ⟨x, rfl⟩⟩ <;> rfl
  have hfifo := h.fifo_items h' hm (t := t) fun x hn => (hquiet.isDispatch _ hn).1.elim
  rw [hput, Option.toList_none, List.append_nil] at hfifo
  exact hfifo

theorem ChosenNote.madeAbove_eq {u : ThreadId T} {note : Option (Note T E)} (h : ChosenNote u note)
    (hidle : ctx.sched.prio .idle = 0) (p : ℕ) :
    madeAbove ctx p note = if p < ctx.sched.prio u then 1 else 0 := by
  rcases h with ⟨rfl, rfl⟩ | ⟨t, rfl, rfl | ⟨x, rfl⟩⟩
  · rw [if_neg (by omega)]
    rfl
  · rfl
  · rfl

namespace Choice
variable {u : ThreadId T} {note : Option (Note T E)}

theorem rank_other (c : Choice cfg ctx ctx' registered q q' u note)
    (hq : Ready cfg ctx.sched (fun _ => true) q) (hne : u ≠ .app a)
    (hmem : .app a ∈ q (ctx.sched.prio (.app a))) (hmem' : .app a ∈ q' (ctx.sched.prio (.app a)))
    (hinit : initDue ctx' registered a = initDue ctx registered a) (n : ℕ) :
    waitRank ctx' registered q' a n + 1 ≤ waitRank ctx registered q a n := by
  have hwork := c.quiet.workAbove_eq (ctx.sched.prio (.app a))
  have hserved := c.turn.turn (ctx.sched.prio (.app a))
  rw [Option.map_some] at hserved
  rw [c.chosen.madeAbove_eq hq.idle.2.1] at hwork
  rw [waitRank_eq c.turn.prio, hinit]
  unfold waitRank
  rcases Nat.lt_or_eq_of_le (c.highest _ (List.ne_nil_of_mem hmem)) with hlt | heq
  · rw [turnOf, if_neg (Nat.ne_of_gt hlt)] at hserved
    have hidx := hserved.idxOf_le (hq.nodup _) hmem hmem'
    rw [if_pos hlt] at hwork
    omega
  · rw [turnOf_eq_some.mpr ⟨rfl, heq.symm⟩] at hserved
    have hidx := hserved.idxOf_succ hmem hne
    rw [if_neg (Nat.not_lt.mpr (Nat.le_of_eq heq.symm))] at hwork
    omega

theorem rank_self (c : Choice cfg ctx ctx' registered q q' (.app a) note)
    (hq : Ready cfg ctx.sched (fun _ => true) q) (hmem' : .app a ∈ q' (ctx.sched.prio (.app a)))
    {n n' : ℕ} (hdue : n' + initDue ctx' registered a + 1 = n + initDue ctx registered a) :
    waitRank ctx' registered q' a n' + 1 ≤ waitRank ctx registered q a n := by
  have hwork := c.quiet.workAbove_eq (ctx.sched.prio (.app a))
  rw [c.chosen.madeAbove_eq hq.idle.2.1, if_neg (lt_irrefl _), Nat.add_zero] at hwork
  have hserved := c.turn.turn (ctx.sched.prio (.app a))
  rw [Option.map_some, turnOf_eq_some.mpr ⟨rfl, rfl⟩] at hserved
  have hidx := hserved.idxOf_self
  -- one round at most
  have hround : (q' (ctx.sched.prio (.app a))).idxOf (.app a) < peers ctx (ctx.sched.prio (.app a)) := by
    rw [← peers_congr c.turn.prio]
    exact (List.idxOf_lt_length_of_mem hmem').trans_le (c.turn.ready.length_le_peers _)
  rw [waitRank_eq c.turn.prio, hwork]
  unfold waitRank
  rw [← hdue, Nat.mul_succ, hidx]
  omega

end Choice

/-- **A choice of the loop** is a dispatch of greater priority, a turn of a peer, or a turn of `a`. -/
theorem EpaInv.waitSchedule (h : EpaInv cfg ctx registered m) (hcfg : OneBucketPerLevel cfg)
    (hq : Ready cfg ctx.sched (fun _ => true) q)
    (hitems : nqueueItems (ctx.queue a) = front ++ e :: rest) (hctl : ctx.ctl = .loop)
    {note : Option (Note T E)} {m' : Mailbox T E}
    (hrun : runEpaStep cfg fuel saturates ctx .schedule = .ok (note, ctx'))
    (hm : m.follow note = some m') (h' : EpaInv cfg ctx' registered m') :
    ComesNearer cfg ctx ctx' registered q a front e .schedule note := by
  obtain ⟨u, q', c⟩ := h.choice hcfg hq hctl hrun hm h'
  have hmem := h.mem_ready hq (a := a) (by rw [hitems]; simp)
  have hfifo := c.fifo a
  have hdue := c.quiet.remaining a
  rw [backlogOf_eq, backlogOf_eq] at hdue
  -- unless the event is passed, it is enough that the rank falls
  have hnear : ∀ front', front = (note.bind (Note.pass? a)).toList ++ front' →
      nqueueItems (ctx'.queue a) = front' ++ e :: rest →
      (.app a ∈ q' (ctx.sched.prio (.app a)) → waitRank ctx' registered q' a front'.length + 1
        ≤ waitRank ctx registered q a front.length) →
      ComesNearer cfg ctx ctx' registered q a front e .schedule note := by
    intro front' hfront hitems' hrank
    have hmem' := h'.mem_ready c.turn.ready (a := a) (by rw [hitems']; simp)
    rw [c.turn.prio] at hmem'
    exact Or.inr ⟨q', front', rest, c.turn.ready, c.turn.prio, hitems', hfront,
      (hrank hmem').trans (Nat.le_add_right ..)⟩
  by_cases hu : u = .app a
  · subst hu
    obtain ⟨t, ht, hnote⟩ := c.chosen.resolve_left fun hc => (by cases hc.1)
    obtain rfl := ThreadId.app.inj ht
    rcases hnote with rfl | ⟨x, rfl⟩
    · have hsame : nqueueItems (ctx.queue a) = nqueueItems (ctx'.queue a) := hfifo
      rw [madeFor_start, ← hsame, hitems] at hdue
      refine hnear front rfl (hsame.symm.trans hitems) fun hmem' => c.rank_self hq hmem' ?_
      omega
    · have hpass : (some (Note.pass a x)).bind (Note.pass? a) = some x := if_pos rfl
      rw [hpass, Option.toList_some, List.singleton_append, hitems] at hfifo
      rw [madeFor_pass, hitems] at hdue
      cases front with
      | nil =>
        left
        rw [hpass, (List.cons.inj hfifo).1]
        exact ⟨rfl, rfl⟩
      | cons y front' =>
        have hrest : front' ++ e :: rest = nqueueItems (ctx'.queue a) := (List.cons.inj hfifo).2
        obtain rfl : y = x := (List.cons.inj hfifo).1
        rw [← hrest, List.cons_append, List.length_cons] at hdue
        refine hnear front' (by rw [hpass]; rfl) hrest.symm fun hmem' => c.rank_self hq hmem' ?_
        rw [List.length_cons]
        omega
  · have hnone : madeFor a note = 0 ∧ note.bind (Note.pass? a) = none := by
      rcases c.chosen with ⟨_, rfl⟩ | ⟨t, rfl, rfl | ⟨x, rfl⟩⟩
      · exact ⟨rfl, rfl⟩
      · exact ⟨madeFor_of_ne fun ht => hu (congrArg ThreadId.app ht), rfl⟩
      · exact ⟨madeFor_of_ne fun ht => hu (congrArg ThreadId.app ht),
          if_neg fun ht => hu (congrArg ThreadId.app ht)⟩
    rw [hnone.2, Option.toList_none, List.nil_append] at hfifo
    rw [hnone.1, ← hfifo] at hdue
    refine hnear front (by rw [hnone.2]; rfl) (hfifo.symm.trans hitems) fun hmem' =>
      c.rank_other hq hu hmem hmem' ?_ _
    omega

theorem EpaInv.waitStep (h : EpaInv cfg ctx registered m) (hcfg : OneBucketPerLevel cfg)
    (hq : Ready cfg ctx.sched (fun _ => true) q) (hreg : registered a = true)
    (hitems : nqueueItems (ctx.queue a) = front ++ e :: rest) {step : EpaStep T D E M}
    (hahead : ∀ x, step ≠ .sendAhead a x) (hl : LegalEpaStep ctx registered step)
    {note : Option (Note T E)} {m' : Mailbox T E}
    (hrun : runEpaStep cfg fuel saturates ctx step = .ok (note, ctx'))
    (hm : m.follow note = some m') (h' : EpaInv cfg ctx' (registeredAfter registered step) m') :
    ComesNearer cfg ctx ctx' registered q a front e step note := by
  by_cases hquiet : step.Quiet
  · have hs := h.quietStep hcfg hquiet hl hrun hm h'
    cases hstep : step.isSchedule with
    | true =>
      cases step with
      | schedule => exact h.waitSchedule hcfg hq hitems hl.1 hrun hm h'
      | _ => cases hstep
    | false =>
      have hnote : note = none := by
        cases hn : note with
        | none => rfl
        | some n =>
          rw [(hs.isDispatch n hn).2] at hstep
          cases hstep
      subst hnote
      have hlen := h.length_items h' hm a
      have hdue := hs.remaining a
      have hwork := hs.workAbove_eq (ctx.sched.prio (.app a))
      rw [backlogOf_eq, backlogOf_eq, madeFor_none] at hdue
      simp only [Option.bind_none, Option.toList_none, List.length_nil, Nat.add_zero, Nat.zero_add]
        at hlen
      refine h.waitOther hcfg hq hitems hstep hl hrun hm h' (fun x hn => (by cases hn)) rfl ?_ ?_
      · rw [registeredAfter_quiet hquiet]
        omega
      · rw [registeredAfter_quiet hquiet, ← hwork]
        exact Nat.le_add_right_of_le (Nat.le_add_right ..)
  · have hs := h.addStep hquiet hl hrun hm h'
    obtain ⟨q', hturn⟩ := h.turn hcfg hq hl hs.isSchedule hrun
    exact h.waitOther hcfg hq hitems hs.isSchedule hl hrun hm h'
      (fun x hn => hahead x (hs.ahead a x hn)) (hs.pass a) (hs.init a hreg)
      (hs.workAbove_le hturn.prio _)

/-! ### runs -/

/-- the steps of a run that give work to agents above the priority `p` -/
def loadAbove (ctx : EpaSys T D E M) (p : ℕ) (steps : List (EpaStep T D E M)) : ℕ :=
  steps.countP (EpaStep.loads ctx p)

theorem loads_congr (hprio : ctx'.sched.prio = ctx.sched.prio) (p : ℕ) (step : EpaStep T D E M) :
    step.loads ctx' p = step.loads ctx p := by
  unfold EpaStep.loads
  rw [hprio]

theorem registeredAfter_of_registered {step : EpaStep T D E M} (h : registered a = true) :
    registeredAfter registered step a = true := by
  cases step with
  | register t =>
    show Function.update registered t true a = true
    by_cases ht : a = t
    · rw [ht, Function.update_self]
    · rw [Function.update_of_ne ht]
      exact h
  | _ => exact h

theorem passedTo_cons (a : T) (note : Option (Note T E)) (notes : List (Note T E)) :
    passedTo a (note.toList ++ notes) = (note.bind (Note.pass? a)).toList ++ passedTo a notes := by
  cases note with
  | none => rfl
  | some n => exact filterMap_toList _ n notes

theorem EpaInv.waitRun (hcfg : OneBucketPerLevel cfg) (hreg : registered a = true)
    (steps : List (EpaStep T D E M)) (h : EpaInv cfg ctx registered m)
    (hq : Ready cfg ctx.sched (fun _ => true) q)
    (hitems : nqueueItems (ctx.queue a) = front ++ e :: rest)
    (hahead : ∀ x, .sendAhead a x ∉ steps) (hl : LegalEpaRun cfg fuel saturates ctx registered steps)
    (hlong : waitRank ctx registered q a front.length +
      loadAbove ctx (ctx.sched.prio (.app a)) steps < schedules steps) :
    ∃ notes ctx', epaRun cfg fuel saturates ctx steps = .ok (notes, ctx') ∧
      front ++ [e] <+: passedTo a notes := by
  induction steps generalizing ctx registered m q front rest with
  | nil => exact absurd hlong (Nat.not_lt_zero _)
  | cons step steps ih =>
    obtain ⟨note, ctx₁, m₁, hrun, hm, h₁, _⟩ := h.step hcfg fuel saturates hl.1
    have hl₁ := hl.2 note ctx₁ hrun
    have hstep := h.waitStep hcfg hq hreg hitems (fun x hx => hahead x (hx ▸ List.mem_cons_self))
      hl.1 hrun hm h₁
    rcases hstep with ⟨rfl, hpass⟩ | ⟨q₁, front₁, rest₁, hq₁, hprio, hitems₁, hfront, hrank⟩
    · obtain ⟨notes, ctx', _, hrun', _⟩ := h₁.notes hcfg fuel saturates steps hl₁
      refine ⟨note.toList ++ notes, ctx', ?_, ?_⟩
      · rw [epaRun_cons hrun, hrun', ok_bind]
      · rw [passedTo_cons, hpass]
        exact List.prefix_append [e] _
    · have hload : loadAbove ctx₁ (ctx₁.sched.prio (.app a)) steps
          = loadAbove ctx (ctx.sched.prio (.app a)) steps := by
        rw [hprio]
        exact List.countP_congr fun s _ => by rw [loads_congr hprio]
      have hscheds : schedules (step :: steps)
          = schedules steps + if step.isSchedule = true then 1 else 0 := List.countP_cons
      have hloads : loadAbove ctx (ctx.sched.prio (.app a)) (step :: steps)
          = loadAbove ctx (ctx.sched.prio (.app a)) steps +
            if step.loads ctx (ctx.sched.prio (.app a)) = true then 1 else 0 := List.countP_cons
      obtain ⟨notes, ctx', hrun', hpassed⟩ := ih (registeredAfter_of_registered hreg) h₁ hq₁ hitems₁
        (fun x hx => hahead x (List.mem_cons_of_mem _ hx)) hl₁ (by rw [hload]; omega)
      refine ⟨note.toList ++ notes, ctx', ?_, ?_⟩
      · rw [epaRun_cons hrun, hrun', ok_bind]
      · rw [passedTo_cons, hfront, List.append_assoc]
        exact (List.prefix_append_right_inj _).mpr hpassed

/-- **How long an event waits.**  An event of the agent `a` that has `front` in front of it is passed, after
these, once the loop has made as many choices as there are dispatches due above the priority of `a` and
events that come for agents above it, and one round of the agents of this priority for each event up to
this one, and one for the initial dispatch if that is due. -/
theorem epaRun_response (hcfg : OneBucketPerLevel cfg)
    (hreach : EpaReach cfg fuel saturates ctx registered) (hreg : registered a = true)
    (hitems : nqueueItems (ctx.queue a) = front ++ e :: rest) (steps : List (EpaStep T D E M))
    (hahead : ∀ x, .sendAhead a x ∉ steps) (hl : LegalEpaRun cfg fuel saturates ctx registered steps)
    (hlong : workAbove ctx registered (ctx.sched.prio (.app a)) +
        loadAbove ctx (ctx.sched.prio (.app a)) steps +
        peers ctx (ctx.sched.prio (.app a)) * (front.length + 1 + initDue ctx registered a)
      ≤ schedules steps) :
    ∃ notes ctx', epaRun cfg fuel saturates ctx steps = .ok (notes, ctx') ∧
      front ++ [e] <+: passedTo a notes := by
  obtain ⟨m, h⟩ := hreach.inv hcfg
  obtain ⟨q, hq⟩ := h.ready
  have hmem := h.mem_ready hq (a := a) (by rw [hitems]; simp)
  have hidx := (List.idxOf_lt_length_of_mem hmem).trans_le (hq.length_le_peers _)
  refine h.waitRun hcfg hreg steps hq hitems hahead hl ?_
  rw [Nat.add_right_comm front.length, Nat.mul_succ] at hlong
  unfold waitRank
  omega

end

/-- the initial dispatch and the event are two rounds of one -/
theorem epaRun_response_oneAgent : ∃ notes ctx',
    epaRun cfg32 0 false oneAgentDue oneAgentTurns = .ok (notes, ctx') ∧
      [] ++ [()] <+: passedTo () notes := by
  have hlong : workAbove oneAgentDue (Function.update (fun _ => false) () true)
        (oneAgentDue.sched.prio (.app ())) +
      loadAbove oneAgentDue (oneAgentDue.sched.prio (.app ())) oneAgentTurns +
      peers oneAgentDue (oneAgentDue.sched.prio (.app ())) *
        (0 + 1 + initDue oneAgentDue (Function.update (fun _ => false) () true) ())
      ≤ schedules oneAgentTurns := by decide +kernel
  have hitems : nqueueItems (oneAgentDue.queue ()) = [] ++ () :: [] := rfl
  exact epaRun_response cfg32_oneBucketPerLevel oneAgentDue_reach rfl hitems oneAgentTurns
    (by simp [oneAgentTurns]) oneAgentTurns_legal hlong

end NeonEds
