import NeonEds.Ep.Epa
import NeonEds.Lib.SlotPromise
import NeonEds.Timer.Model

/-!
# Event timers (source/etimer.c)

A `struct netimer` is a timer, its agent and its event (`Netimers`); the timers `N` of the program are
event timers.  `EtimerSys` is the timer module with the agents.  The scheduler is a parameter, of which
nothing is assumed but that it dispatches no agent whose queue is empty.

The steps are the critical sections.  `netimer_cancel` writes the id of the event before its critical
section, so it is two steps, `cancelId` and `cancelTimer`.  `epa_dispatch_i` takes the event out of the
queue (`dispatch`), its state machine calls state functions with the event (`call`, as often as it does),
the reference is given up (`returns`), and the second critical section ends the dispatch (`finish`).  The
event is handed on by its address, so a state function sees the id that is there when it is called.

* `StaleFree`          what `Promise` says of the event of every timer is kept by every call;
* `FreshArms`          no timer is armed while its event is in a queue, while its dispatch has calls to
                       make, or while it is being cancelled;
* `EtimerInv.step`     a step keeps what makes the promises safe;
* `staleFree_of_freshArms`   so such a run delivers nothing stale;
* `rearmRun_not_staleFree`   and one that arms a timer with its event in the queue may.
-/

set_option linter.unusedSectionVars false

namespace NeonEds
open Exec

def nsmNull : ℕ := 14

def neventUserId : ℕ := 15

/-- the callback of a timer; its argument is the timer -/
inductive EtimerFn where
  | etimerHandler
  deriving DecidableEq

/-- the members `epa` and `event` of the event timers -/
structure Netimers (N A E : Type) where
  epa : N → A
  event : N → E
  event_injective : Function.Injective event

structure EtimerSys (N S A D E M : Type) where
  timers : TimerCtx N EtimerFn
  epas : EpaCtx S A D E M

/-- the constants of a run -/
structure EtimerPort (N S A E : Type) where
  net : Netimers N A E
  sch : Scheduler S A
  apiValidation : Bool
  saturates : Bool
  fuel : ℕ

section
variable {N S A D E M : Type} [DecidableEq N] [DecidableEq A] [DecidableEq D] [DecidableEq E]

namespace EtimerSys

def id (sys : EtimerSys N S A D E M) (e : E) : ℕ := (sys.epas.event e).id

/-- `timer->event.id = id` -/
def setId (sys : EtimerSys N S A D E M) (e : E) (id : ℕ) : EtimerSys N S A D E M :=
  { sys with epas := sys.epas.withMem (sys.epas.setEvent e { sys.epas.event e with id := id }) }

end EtimerSys

variable (P : EtimerPort N S A E)

def etimerHandler (sys : EtimerSys N S A D E M) (n : N) : Exec (EtimerSys N S A D E M) := do
  let (_, epas) ← nepaSendEventI P.sch P.saturates sys.epas (P.net.epa n) (P.net.event n)
  return { sys with epas := epas }

/-- the callbacks that the ISR makes, in order; they leave the timers alone -/
def runHandlers : EtimerSys N S A D E M → List (N × EtimerFn) → Exec (EtimerSys N S A D E M)
  | sys, [] => .ok sys
  | sys, (n, .etimerHandler) :: fired => do
    let sys ← etimerHandler P sys n
    runHandlers sys fired

/-- `ncore_timer_isr`: the timers that have expired, and the state it leaves -/
def etimerIsr (sys : EtimerSys N S A D E M) : Exec (List N × EtimerSys N S A D E M) := do
  let (timers, fired) ← ncoreTimerIsr P.apiValidation P.fuel (fun _ _ => []) sys.timers
  let sys ← runHandlers P { sys with timers := timers } fired
  return (fired.map Prod.fst, sys)

/-- `netimer_after` and `netimer_every`, which differ by the attribute -/
def netimerArm (sys : EtimerSys N S A D E M) (n : N) (tick eventId flags : ℕ) :
    Exec (EtimerSys N S A D E M) := do
  let timers ← ntimerCancelI P.apiValidation sys.timers n
  let sys := { sys with timers := timers }.setId (P.net.event n) eventId
  let timers ← ntimerStartI P.apiValidation P.fuel sys.timers n tick .etimerHandler flags
  return { sys with timers := timers }

def netimerAfter (sys : EtimerSys N S A D E M) (n : N) (tick eventId : ℕ) :
    Exec (EtimerSys N S A D E M) := netimerArm P sys n tick eventId ntimerAttrOneShot

def netimerEvery (sys : EtimerSys N S A D E M) (n : N) (tick eventId : ℕ) :
    Exec (EtimerSys N S A D E M) := netimerArm P sys n tick eventId ntimerAttrRepeat

/-- `netimer_cancel` up to its call of `ntimer_cancel` -/
def netimerCancelId (sys : EtimerSys N S A D E M) (n : N) : EtimerSys N S A D E M :=
  sys.setId (P.net.event n) nsmNull

/-- the call of `ntimer_cancel` in `netimer_cancel` -/
def netimerCancelTimer (sys : EtimerSys N S A D E M) (n : N) : Exec (EtimerSys N S A D E M) := do
  let timers ← ntimerCancelI P.apiValidation sys.timers n
  return { sys with timers := timers }

/-! ## runs -/

inductive EtimerStep (N S A D E M : Type) where
  | isr
  | after (n : N) (tick eventId : ℕ)
  | every (n : N) (tick eventId : ℕ)
  | cancelId (n : N)
  | cancelTimer (n : N)
  /-- the first critical section of `epa_dispatch_i` -/
  | dispatch (a : A)
  /-- the state machine calls a state function with the event, which reads its id (one step a reading) -/
  | call
  /-- the state machine has returned, and `nevent_ref_down` -/
  | returns
  /-- the second critical section of `epa_dispatch_i` -/
  | finish
  | send (a : A) (e : E)
  | sendAhead (a : A) (e : E)
  /-- others change the events, the deferred queues and the state of the scheduler -/
  | others (m : EventMem E M) (deferred : D → Nqueue E) (sched : S)

/-- the timers that a step has let expire, the event with its id that a state function is called with -/
structure EtimerOut (N E : Type) where
  fired : List N
  passed : Option (E × ℕ)

def runEtimerStep (sys : EtimerSys N S A D E M) :
    EtimerStep N S A D E M → Exec (EtimerOut N E × EtimerSys N S A D E M)
  | .isr => do
    let (fired, sys) ← etimerIsr P sys
    return (⟨fired, none⟩, sys)
  | .after n tick eventId => do
    let sys ← netimerAfter P sys n tick eventId
    return (⟨[], none⟩, sys)
  | .every n tick eventId => do
    let sys ← netimerEvery P sys n tick eventId
    return (⟨[], none⟩, sys)
  | .cancelId n => .ok (⟨[], none⟩, netimerCancelId P sys n)
  | .cancelTimer n => do
    let sys ← netimerCancelTimer P sys n
    return (⟨[], none⟩, sys)
  | .dispatch a => .ok (⟨[], none⟩, { sys with epas := epaDispatchStart sys.epas a })
  | .call =>
    match sys.epas.ctl with
    | .dispatching _ e => .ok (⟨[], some (e, sys.id e)⟩, sys)
    | _ => .ok (⟨[], none⟩, sys)
  | .returns =>
    match sys.epas.ctl with
    | .dispatching a e =>
      .ok (⟨[], none⟩, { sys with epas := epaDispatchRefDown P.saturates sys.epas a e })
    | _ => .ok (⟨[], none⟩, sys)
  | .finish =>
    match sys.epas.ctl with
    | .dispatched a e => do
      let epas ← epaDispatchEnd P.sch sys.epas a e
      return (⟨[], none⟩, { sys with epas := epas })
    | _ => .ok (⟨[], none⟩, sys)
  | .send a e => do
    let (_, epas) ← nepaSendEventI P.sch P.saturates sys.epas a e
    return (⟨[], none⟩, { sys with epas := epas })
  | .sendAhead a e => do
    let (_, epas) ← nepaSendEventAheadI P.sch P.saturates sys.epas a e
    return (⟨[], none⟩, { sys with epas := epas })
  | .others m deferred sched =>
    .ok (⟨[], none⟩, { sys with
      epas := { sys.epas.withMem m with deferred := deferred, sched := sched } })

/-- the event of the timer is in the queue of an agent -/
def EtimerSys.Queued (net : Netimers N A E) (sys : EtimerSys N S A D E M) (n : N) : Prop :=
  ∃ a, net.event n ∈ nqueueItems (sys.epas.queue a)

/-- the state machine that is running calls a state function before it returns -/
def CallsAgain : List (EtimerStep N S A D E M) → Prop
  | [] => False
  | .call :: _ => True
  | .returns :: _ => False
  | _ :: steps => CallsAgain steps

/-- the event of the timer is being dispatched, and a state function is still to be called with it -/
def EtimerSys.Handed (net : Netimers N A E) (sys : EtimerSys N S A D E M)
    (steps : List (EtimerStep N S A D E M)) (n : N) : Prop :=
  (∃ a, sys.epas.ctl = .dispatching a (net.event n)) ∧ CallsAgain steps

/-- the event of the timer is on its way to an agent, when the steps `steps` are still to come -/
def EtimerSys.Pending (net : Netimers N A E) (sys : EtimerSys N S A D E M)
    (steps : List (EtimerStep N S A D E M)) (n : N) : Prop :=
  sys.Queued net n ∨ sys.Handed net steps n

/-- the number of calls of `netimer_cancel` that a timer is in -/
def cancellingAfter (cancelling : N → ℕ) : EtimerStep N S A D E M → N → ℕ
  | .cancelId n => Function.update cancelling n (cancelling n + 1)
  | .cancelTimer n => Function.update cancelling n (cancelling n - 1)
  | _ => cancelling

/-- a `netimer_cancel` runs in the order of its steps; only an agent with events is dispatched; others
neither send the events of the timers nor change their ids -/
def LegalEtimerStep (net : Netimers N A E) (sys : EtimerSys N S A D E M) (cancelling : N → ℕ) :
    EtimerStep N S A D E M → Prop
  | .cancelTimer n => 0 < cancelling n
  | .dispatch a => sys.epas.ctl = .loop ∧ nqueueIsEmpty (sys.epas.queue a) = false
  | .send _ e => ∀ n, net.event n ≠ e
  | .sendAhead _ e => ∀ n, net.event n ≠ e
  | .others m _ _ => ∀ n, (m.event (net.event n)).id = sys.id (net.event n)
  | _ => True

/-- a timer that is armed is not being cancelled, and its event is not on its way to an agent -/
def FreshArm (net : Netimers N A E) (sys : EtimerSys N S A D E M) (cancelling : N → ℕ)
    (steps : List (EtimerStep N S A D E M)) : EtimerStep N S A D E M → Prop
  | .after n _ _ => cancelling n = 0 ∧ ¬ sys.Pending net steps n
  | .every n _ _ => cancelling n = 0 ∧ ¬ sys.Pending net steps n
  | _ => True

/-- what is promised of the event of the timer `n` after a step -/
def promiseAfter (n : N) (p : Promise ℕ) (step : EtimerStep N S A D E M) (fired : List N) :
    Promise ℕ :=
  match step with
  | .isr => if n ∈ fired then p.expire else p
  | .after n' _ eventId => if n' = n then p.arm eventId else p
  | .every n' _ eventId => if n' = n then p.arm eventId else p
  | .cancelTimer n' => if n' = n then p.stop else p
  | _ => p

def LegalEtimerRun : EtimerSys N S A D E M → (N → ℕ) → List (EtimerStep N S A D E M) → Prop
  | _, _, [] => True
  | sys, cancelling, step :: steps => LegalEtimerStep P.net sys cancelling step ∧
      ∀ out sys', runEtimerStep P sys step = .ok (out, sys') →
        LegalEtimerRun sys' (cancellingAfter cancelling step) steps

def FreshArms : EtimerSys N S A D E M → (N → ℕ) → List (EtimerStep N S A D E M) → Prop
  | _, _, [] => True
  | sys, cancelling, step :: steps => FreshArm P.net sys cancelling steps step ∧
      ∀ out sys', runEtimerStep P sys step = .ok (out, sys') →
        FreshArms sys' (cancellingAfter cancelling step) steps

def StaleFree : EtimerSys N S A D E M → (N → Promise ℕ) → List (EtimerStep N S A D E M) → Prop
  | _, _, [] => True
  | sys, p, step :: steps => ∀ out sys', runEtimerStep P sys step = .ok (out, sys') →
      (∀ n id, out.passed = some (P.net.event n, id) →
        (p n).Kept nsmNull (neventUserId ≤ ·) id) ∧
      StaleFree sys' (fun n => promiseAfter n (p n) step out.fired) steps

end

/-! ## what a step does to the queues and the ids -/

section
variable {N S A D E M : Type} [DecidableEq N] [DecidableEq A] [DecidableEq D] [DecidableEq E]

/-- at most the events `sent` come into a queue; no id and no dispatch changes -/
structure Accepts (ctx ctx' : EpaCtx S A D E M) (sent : List E) : Prop where
  queue : ∀ a, QueueOk (ctx'.queue a)
  items : ∀ a x, x ∈ nqueueItems (ctx'.queue a) → x ∈ nqueueItems (ctx.queue a) ∨ x ∈ sent
  ctl : ctx'.ctl = ctx.ctl
  id : ∀ x, (ctx'.event x).id = (ctx.event x).id

variable {sch : Scheduler S A} {saturates : Bool} {ctx ctx' ctx'' : EpaCtx S A D E M} {a : A} {e : E}
  {sent sent' : List E} {error : Nerror}

theorem Accepts.of_queue (hq : ∀ b, QueueOk (ctx.queue b)) (hsame : ctx'.queue = ctx.queue)
    (hctl : ctx'.ctl = ctx.ctl) (hid : ∀ x, (ctx'.event x).id = (ctx.event x).id) :
    Accepts ctx ctx' sent := by
  refine ⟨?_, fun b x hx => ?_, hctl, hid⟩
  · rw [hsame]
    exact hq
  · rw [hsame] at hx
    exact Or.inl hx

theorem Accepts.of_queueAt (hq : ∀ b, QueueOk (ctx.queue b)) {qu : Nqueue E} (hqu : QueueOk qu)
    (hitems : ∀ x, x ∈ nqueueItems qu → x ∈ nqueueItems (ctx.queue a) ∨ x ∈ sent)
    (hsame : ctx'.queue = Function.update ctx.queue a qu) (hctl : ctx'.ctl = ctx.ctl)
    (hid : ∀ x, (ctx'.event x).id = (ctx.event x).id) : Accepts ctx ctx' sent := by
  refine ⟨?_, fun b x hx => ?_, hctl, hid⟩
  · rw [hsame]
    exact queueOk_update hq hqu
  · rw [hsame] at hx
    by_cases hb : b = a
    · rw [hb] at hx ⊢
      rw [Function.update_self] at hx
      exact hitems x hx
    · rw [Function.update_of_ne hb] at hx
      exact Or.inl hx

theorem Accepts.trans (h : Accepts ctx ctx' sent) (h' : Accepts ctx' ctx'' sent') :
    Accepts ctx ctx'' (sent ++ sent') := by
  refine ⟨h'.queue, fun b x hx => ?_, h'.ctl.trans h.ctl, fun x => (h'.id x).trans (h.id x)⟩
  rcases h'.items b x hx with hx' | hx'
  · exact (h.items b x hx').imp_right (List.mem_append_left sent')
  · exact Or.inr (List.mem_append_right sent hx')

theorem nepaSendEventI_accepts (hq : ∀ b, QueueOk (ctx.queue b))
    (h : nepaSendEventI sch saturates ctx a e = .ok (error, ctx')) : Accepts ctx ctx' [e] := by
  unfold nepaSendEventI at h
  split at h
  · dsimp only at h
    split at h
    · obtain ⟨sched, _, h⟩ := bind_eq_ok.mp h
      obtain ⟨_, rfl⟩ := Prod.mk.inj (Except.ok.inj h)
      obtain ⟨hqu, hitems, _⟩ := nqueuePutFifo_ok (hq a) ‹_› e
      refine .of_queueAt hq hqu (fun x hx => ?_) rfl rfl (EventMem.refUp_id saturates ctx.toEventMem e)
      rw [hitems, List.mem_append] at hx
      exact hx
    · obtain ⟨_, rfl⟩ := Prod.mk.inj (Except.ok.inj h)
      refine .of_queue hq rfl rfl fun x => ?_
      show ((neventDestroyI _ e).event x).id = _
      rw [neventDestroyI_event, EventMem.refDown_id]
      exact EventMem.refUp_id saturates ctx.toEventMem e x
  · obtain ⟨_, rfl⟩ := Prod.mk.inj (Except.ok.inj h)
    exact .of_queue hq rfl rfl fun _ => rfl

theorem nepaSendEventAheadI_accepts (hq : ∀ b, QueueOk (ctx.queue b))
    (h : nepaSendEventAheadI sch saturates ctx a e = .ok (error, ctx')) : Accepts ctx ctx' [e] := by
  unfold nepaSendEventAheadI at h
  split at h
  · dsimp only at h
    split at h
    · obtain ⟨sched, _, h⟩ := bind_eq_ok.mp h
      obtain ⟨_, rfl⟩ := Prod.mk.inj (Except.ok.inj h)
      obtain ⟨hqu, hitems, _⟩ := nqueuePutLifo_ok (hq a) ‹_› e
      refine .of_queueAt hq hqu (fun x hx => ?_) rfl rfl (EventMem.refUp_id saturates ctx.toEventMem e)
      rw [hitems, List.mem_cons] at hx
      exact hx.symm.imp_right List.mem_singleton.mpr
    · obtain ⟨_, rfl⟩ := Prod.mk.inj (Except.ok.inj h)
      refine .of_queue hq rfl rfl fun x => ?_
      show ((neventDestroyI _ e).event x).id = _
      rw [neventDestroyI_event]
      exact EventMem.refUp_id saturates ctx.toEventMem e x
  · obtain ⟨_, rfl⟩ := Prod.mk.inj (Except.ok.inj h)
    exact .of_queue hq rfl rfl fun _ => rfl

theorem epaDispatchStart_takes (hq : ∀ b, QueueOk (ctx.queue b))
    (hne : nqueueIsEmpty (ctx.queue a) = false) :
    (∀ b, QueueOk ((epaDispatchStart ctx a).queue b)) ∧
      (∀ b x, x ∈ nqueueItems ((epaDispatchStart ctx a).queue b) → x ∈ nqueueItems (ctx.queue b)) ∧
      ∃ e, (epaDispatchStart ctx a).ctl = .dispatching a e ∧ e ∈ nqueueItems (ctx.queue a) := by
  obtain ⟨front, rest, hitems⟩ : ∃ front rest, nqueueItems (ctx.queue a) = front :: rest := by
    apply List.exists_cons_of_ne_nil
    rw [Ne, ← (hq a).isEmpty_iff, hne]
    exact Bool.false_ne_true
  obtain ⟨hfront, hqu, hrest, _⟩ := nqueueGet_ok (hq a) hitems
  have hqueue : (epaDispatchStart ctx a).queue
      = Function.update ctx.queue a (nqueueGet (ctx.queue a)).2 := rfl
  refine ⟨?_, fun b x hx => ?_, _, rfl, ?_⟩
  · rw [hqueue]
    exact queueOk_update hq hqu
  · rw [hqueue] at hx
    by_cases hb : b = a
    · rw [hb, Function.update_self, hrest] at hx
      rw [hb, hitems]
      exact List.mem_cons_of_mem front hx
    · rw [Function.update_of_ne hb] at hx
      exact hx
  · show (nqueueGet (ctx.queue a)).1 ∈ _
    rw [hfront, hitems]
    exact List.mem_cons_self

theorem epaDispatchEnd_keeps (h : epaDispatchEnd sch ctx a e = .ok ctx') :
    ctx'.queue = ctx.queue ∧ ctx'.ctl = .loop ∧ ∀ x, (ctx'.event x).id = (ctx.event x).id := by
  obtain ⟨sched, _, h⟩ := bind_eq_ok.mp h
  obtain rfl := Except.ok.inj h
  refine ⟨rfl, rfl, fun x => ?_⟩
  show ((neventDestroyI _ e).event x).id = _
  rw [neventDestroyI_event]

variable {P : EtimerPort N S A E} {sys sys' : EtimerSys N S A D E M} {n : N}

theorem etimerHandler_accepts (hq : ∀ b, QueueOk (sys.epas.queue b))
    (h : etimerHandler P sys n = .ok sys') : Accepts sys.epas sys'.epas [P.net.event n] := by
  obtain ⟨⟨error, epas⟩, hsend, h⟩ := bind_eq_ok.mp h
  obtain rfl := Except.ok.inj h
  exact nepaSendEventI_accepts hq hsend

theorem runHandlers_accepts {fired : List (N × EtimerFn)} (hq : ∀ b, QueueOk (sys.epas.queue b))
    (h : runHandlers P sys fired = .ok sys') :
    Accepts sys.epas sys'.epas (fired.map fun f => P.net.event f.1) := by
  induction fired generalizing sys with
  | nil =>
    obtain rfl := Except.ok.inj h
    exact .of_queue hq rfl rfl fun _ => rfl
  | cons f fired ih =>
    obtain ⟨n, fn⟩ := f
    cases fn
    obtain ⟨sys1, hsend, hrest⟩ := bind_eq_ok.mp h
    have hacc := etimerHandler_accepts hq hsend
    exact hacc.trans (ih hacc.queue hrest)

theorem etimerIsr_accepts {fired : List N} (hq : ∀ b, QueueOk (sys.epas.queue b))
    (h : etimerIsr P sys = .ok (fired, sys')) :
    Accepts sys.epas sys'.epas (fired.map P.net.event) := by
  obtain ⟨⟨timers, calls⟩, _, h⟩ := bind_eq_ok.mp h
  obtain ⟨sys1, hrun, h⟩ := bind_eq_ok.mp h
  obtain ⟨rfl, rfl⟩ := Prod.mk.inj (Except.ok.inj h)
  rw [List.map_map]
  have hacc := runHandlers_accepts (by exact hq) hrun
  exact hacc

theorem runEtimerStep_ends {s : EtimerStep N S A D E M} {out : EtimerOut N E}
    (hs : s = .returns ∨ s = .finish) (h : runEtimerStep P sys s = .ok (out, sys')) :
    out = ⟨[], none⟩ ∧ sys'.epas.queue = sys.epas.queue ∧ (∀ e, sys'.id e = sys.id e) ∧
      ∀ steps m, sys'.Handed P.net steps m → sys.Handed P.net (s :: steps) m := by
  rcases hs with rfl | rfl <;> simp only [runEtimerStep] at h <;> split at h
  · obtain ⟨rfl, rfl⟩ := Prod.mk.inj (Except.ok.inj h)
    refine ⟨rfl, rfl, EventMem.refDown_id P.saturates sys.epas.toEventMem _, ?_⟩
    rintro steps m ⟨⟨a, hctl⟩, _⟩
    cases hctl
  · rename_i hother
    obtain ⟨rfl, rfl⟩ := Prod.mk.inj (Except.ok.inj h)
    refine ⟨rfl, rfl, fun _ => rfl, ?_⟩
    rintro steps m ⟨⟨a, hctl⟩, _⟩
    exact absurd hctl (hother a _)
  · obtain ⟨epas, hend, h⟩ := bind_eq_ok.mp h
    obtain ⟨rfl, rfl⟩ := Prod.mk.inj (Except.ok.inj h)
    obtain ⟨hqueue, hloop, hid⟩ := epaDispatchEnd_keeps hend
    refine ⟨rfl, hqueue, hid, ?_⟩
    rintro steps m ⟨⟨a, hctl⟩, _⟩
    rw [hloop] at hctl
    cases hctl
  · obtain ⟨rfl, rfl⟩ := Prod.mk.inj (Except.ok.inj h)
    exact ⟨rfl, rfl, fun _ => rfl, fun _ _ hm => hm⟩

theorem netimerArm_epas {tick eventId flags : ℕ}
    (h : netimerArm P sys n tick eventId flags = .ok sys') :
    sys'.epas = (sys.setId (P.net.event n) eventId).epas := by
  obtain ⟨timers, _, h⟩ := bind_eq_ok.mp h
  obtain ⟨timers', _, h⟩ := bind_eq_ok.mp h
  obtain rfl := Except.ok.inj h
  rfl

theorem netimerCancelTimer_epas (h : netimerCancelTimer P sys n = .ok sys') :
    sys'.epas = sys.epas := by
  obtain ⟨timers, _, h⟩ := bind_eq_ok.mp h
  obtain rfl := Except.ok.inj h
  rfl

theorem EtimerSys.setId_id (sys : EtimerSys N S A D E M) (e x : E) (id : ℕ) :
    (sys.setId e id).id x = if x = e then id else sys.id x := by
  show (Function.update sys.epas.event e { sys.epas.event e with id := id } x).id = _
  by_cases hx : x = e
  · rw [hx, Function.update_self, if_pos rfl]
  · rw [Function.update_of_ne hx, if_neg hx]
    rfl

theorem setId_event_id (net : Netimers N A E) (sys : EtimerSys N S A D E M) (n m : N) (id : ℕ) :
    (sys.setId (net.event n) id).id (net.event m) = if m = n then id else sys.id (net.event m) := by
  rw [sys.setId_id]
  by_cases hm : m = n
  · rw [if_pos (congrArg net.event hm), if_pos hm]
  · rw [if_neg fun h => hm (net.event_injective h), if_neg hm]

end

/-! ## the invariant -/

section
variable {N S A D E M : Type} [DecidableEq N] [DecidableEq A] [DecidableEq D] [DecidableEq E]

/-- the promises are safe when the steps `steps` are still to come; while a timer is being cancelled its
event is the null event -/
structure EtimerInv (net : Netimers N A E) (sys : EtimerSys N S A D E M) (cancelling : N → ℕ)
    (p : N → Promise ℕ) (steps : List (EtimerStep N S A D E M)) : Prop where
  queue : ∀ a, QueueOk (sys.epas.queue a)
  safe : ∀ n, (p n).Safe nsmNull (sys.Pending net steps n) (sys.id (net.event n))
  null : ∀ n, 0 < cancelling n → sys.id (net.event n) = nsmNull

namespace EtimerInv
variable {net : Netimers N A E} {sys sys' : EtimerSys N S A D E M} {cancelling : N → ℕ}
  {p : N → Promise ℕ} {n : N} {steps steps' : List (EtimerStep N S A D E M)}

theorem move (h : EtimerInv net sys cancelling p steps) (hq : ∀ a, QueueOk (sys'.epas.queue a))
    (hid : ∀ e, sys'.id e = sys.id e)
    (hpending : ∀ m, sys'.Pending net steps' m → sys.Pending net steps m) :
    EtimerInv net sys' cancelling p steps' := by
  refine ⟨hq, fun m => ?_, fun m hm => (hid _).trans (h.null m hm)⟩
  rw [hid]
  exact (h.safe m).mono (hpending m)

theorem rest {s : EtimerStep N S A D E M} (h : EtimerInv net sys cancelling p (s :: steps))
    (hcalls : CallsAgain steps → CallsAgain (s :: steps)) : EtimerInv net sys cancelling p steps :=
  h.move h.queue (fun _ => rfl) fun _ hm => hm.imp_right fun hhand => ⟨hhand.1, hcalls hhand.2⟩

theorem write (h : EtimerInv net sys cancelling p steps) (hqueue : sys'.epas.queue = sys.epas.queue)
    (hctl : sys'.epas.ctl = sys.epas.ctl) {cancelling' : N → ℕ} {p' : N → Promise ℕ}
    (hsafe : ∀ m, (p' m).Safe nsmNull (sys.Pending net steps m) (sys'.id (net.event m)))
    (hnull : ∀ m, 0 < cancelling' m → sys'.id (net.event m) = nsmNull) :
    EtimerInv net sys' cancelling' p' steps := by
  refine ⟨?_, fun m => (hsafe m).mono fun hm => ?_, hnull⟩
  · rw [hqueue]
    exact h.queue
  · unfold EtimerSys.Pending EtimerSys.Queued EtimerSys.Handed at hm
    rw [hqueue, hctl] at hm
    exact hm

theorem pending_of_accepts {sent : List E} (hacc : Accepts sys.epas sys'.epas sent)
    (hsent : net.event n ∉ sent) (hm : sys'.Pending net steps n) : sys.Pending net steps n := by
  rcases hm with ⟨a, ha⟩ | hhand
  · exact Or.inl ⟨a, (hacc.items a _ ha).resolve_right hsent⟩
  · unfold EtimerSys.Handed at hhand
    rw [hacc.ctl] at hhand
    exact Or.inr hhand

theorem deliver (h : EtimerInv net sys cancelling p steps) {fired : List N}
    (hacc : Accepts sys.epas sys'.epas (fired.map net.event)) :
    EtimerInv net sys' cancelling (fun m => if m ∈ fired then (p m).expire else p m) steps := by
  have hid : ∀ m, sys'.id (net.event m) = sys.id (net.event m) := fun m => hacc.id (net.event m)
  refine ⟨hacc.queue, fun m => ?_, fun m hm => (hid m).trans (h.null m hm)⟩
  rw [hid]
  by_cases hm : m ∈ fired
  · rw [if_pos hm]
    exact (h.safe m).expire _
  · rw [if_neg hm]
    refine (h.safe m).mono (pending_of_accepts hacc fun hsent => ?_)
    obtain ⟨m', hm', heq⟩ := List.mem_map.mp hsent
    exact hm (net.event_injective heq ▸ hm')

theorem accepts (h : EtimerInv net sys cancelling p steps) {sent : List E}
    (hacc : Accepts sys.epas sys'.epas sent) (hsent : ∀ m, net.event m ∉ sent) :
    EtimerInv net sys' cancelling p steps :=
  h.move hacc.queue hacc.id fun m => pending_of_accepts hacc (hsent m)

theorem arm (h : EtimerInv net sys cancelling p steps) {eventId : ℕ}
    (hepas : sys'.epas = (sys.setId (net.event n) eventId).epas) (hcancel : cancelling n = 0)
    (hfresh : ¬ sys.Pending net steps n) :
    EtimerInv net sys' cancelling (fun m => if n = m then (p m).arm eventId else p m) steps := by
  have hid : ∀ m, sys'.id (net.event m) = if m = n then eventId else sys.id (net.event m) := by
    intro m
    rw [← setId_event_id, EtimerSys.id, hepas]
    rfl
  refine h.write (by rw [hepas]; rfl) (by rw [hepas]; rfl) (fun m => ?_) fun m hm => ?_
  · rw [hid]
    by_cases hm : m = n
    · subst hm
      rw [if_pos rfl, if_pos rfl]
      exact Promise.Safe.arm hfresh eventId (p m)
    · rw [if_neg hm, if_neg (Ne.symm hm)]
      exact h.safe m
  · rw [hid, if_neg]
    · exact h.null m hm
    · rintro rfl
      exact absurd hcancel hm.ne'

theorem cancelId (h : EtimerInv net sys cancelling p steps) (n : N) :
    EtimerInv net (sys.setId (net.event n) nsmNull)
      (Function.update cancelling n (cancelling n + 1)) p steps := by
  have hqueue : (sys.setId (net.event n) nsmNull).epas.queue = sys.epas.queue := rfl
  have hctl : (sys.setId (net.event n) nsmNull).epas.ctl = sys.epas.ctl := rfl
  apply h.write hqueue hctl
  · intro m
    rw [setId_event_id]
    by_cases hm : m = n
    · rw [if_pos hm]
      exact (h.safe m).clear
    · rw [if_neg hm]
      exact h.safe m
  · intro m hm
    rw [setId_event_id]
    by_cases hmn : m = n
    · rw [if_pos hmn]
    · rw [Function.update_of_ne hmn] at hm
      rw [if_neg hmn]
      exact h.null m hm

theorem cancelTimer (h : EtimerInv net sys cancelling p steps) (hepas : sys'.epas = sys.epas)
    (hcancel : 0 < cancelling n) :
    EtimerInv net sys' (Function.update cancelling n (cancelling n - 1))
      (fun m => if n = m then (p m).stop else p m) steps := by
  have hid : ∀ e, sys'.id e = sys.id e := by
    intro e
    rw [EtimerSys.id, hepas]
    rfl
  refine h.write (congrArg EpaCtx.queue hepas) (congrArg EpaCtx.ctl hepas) (fun m => ?_)
    fun m hm => ?_
  · rw [hid]
    by_cases hm : n = m
    · subst hm
      have hsafe := h.safe n
      rw [h.null n hcancel] at hsafe ⊢
      rw [if_pos rfl]
      exact hsafe.stop
    · rw [if_neg hm]
      exact h.safe m
  · rw [hid]
    by_cases hmn : m = n
    · rw [hmn]
      exact h.null n hcancel
    · rw [Function.update_of_ne hmn] at hm
      exact h.null m hm

variable {P : EtimerPort N S A E} {out : EtimerOut N E} {s : EtimerStep N S A D E M}

theorem dispatch {a : A} (h : EtimerInv net sys cancelling p (.dispatch a :: steps))
    (hne : nqueueIsEmpty (sys.epas.queue a) = false) :
    EtimerInv net { sys with epas := epaDispatchStart sys.epas a } cancelling p steps := by
  obtain ⟨hq, hitems, e, hctl, hfront⟩ := epaDispatchStart_takes h.queue hne
  refine h.move hq (fun _ => rfl) ?_
  rintro m (⟨b, hb⟩ | ⟨⟨b, hb⟩, _⟩)
  · exact Or.inl ⟨b, hitems b _ hb⟩
  · obtain ⟨rfl, rfl⟩ := EpaCtl.dispatching.inj (hctl.symm.trans hb)
    exact Or.inl ⟨a, hfront⟩

theorem ends (h : EtimerInv P.net sys cancelling p (s :: steps)) (hs : s = .returns ∨ s = .finish)
    (hrun : runEtimerStep P sys s = .ok (out, sys')) : EtimerInv P.net sys' cancelling p steps := by
  obtain ⟨_, hqueue, hid, hhand⟩ := runEtimerStep_ends hs hrun
  refine h.move (by rw [hqueue]; exact h.queue) hid fun m hm => hm.imp (fun hqueued => ?_) (hhand steps m)
  unfold EtimerSys.Queued at hqueued
  rw [hqueue] at hqueued
  exact hqueued

theorem runEtimerStep_call (hrun : runEtimerStep P sys .call = .ok (out, sys')) :
    sys' = sys ∧ out.fired = [] ∧ ∀ e id, out.passed = some (e, id) →
      (∃ a, sys.epas.ctl = .dispatching a e) ∧ id = sys.id e := by
  simp only [runEtimerStep] at hrun
  split at hrun
  · rename_i a e hctl
    obtain ⟨rfl, rfl⟩ := Prod.mk.inj (Except.ok.inj hrun)
    refine ⟨rfl, rfl, fun e' id hpassed => ?_⟩
    obtain ⟨rfl, rfl⟩ := Prod.mk.inj (Option.some.inj hpassed)
    exact ⟨⟨a, hctl⟩, rfl⟩
  · obtain ⟨rfl, rfl⟩ := Prod.mk.inj (Except.ok.inj hrun)
    exact ⟨rfl, rfl, fun _ _ hpassed => nomatch hpassed⟩

theorem step (h : EtimerInv P.net sys cancelling p (s :: steps))
    (hlegal : LegalEtimerStep P.net sys cancelling s)
    (hfresh : FreshArm P.net sys cancelling steps s)
    (hrun : runEtimerStep P sys s = .ok (out, sys')) :
    EtimerInv P.net sys' (cancellingAfter cancelling s)
      (fun n => promiseAfter n (p n) s out.fired) steps := by
  cases s with
  | isr =>
    obtain ⟨⟨fired, sys1⟩, hisr, hrun⟩ := bind_eq_ok.mp hrun
    obtain ⟨rfl, rfl⟩ := Prod.mk.inj (Except.ok.inj hrun)
    exact (h.rest id).deliver (etimerIsr_accepts h.queue hisr)
  | after n tick eventId =>
    obtain ⟨sys1, harm, hrun⟩ := bind_eq_ok.mp hrun
    obtain ⟨rfl, rfl⟩ := Prod.mk.inj (Except.ok.inj hrun)
    exact (h.rest id).arm (netimerArm_epas harm) hfresh.1 hfresh.2
  | every n tick eventId =>
    obtain ⟨sys1, harm, hrun⟩ := bind_eq_ok.mp hrun
    obtain ⟨rfl, rfl⟩ := Prod.mk.inj (Except.ok.inj hrun)
    exact (h.rest id).arm (netimerArm_epas harm) hfresh.1 hfresh.2
  | cancelId n =>
    obtain ⟨rfl, rfl⟩ := Prod.mk.inj (Except.ok.inj hrun)
    exact (h.rest id).cancelId n
  | cancelTimer n =>
    obtain ⟨sys1, hcancel, hrun⟩ := bind_eq_ok.mp hrun
    obtain ⟨rfl, rfl⟩ := Prod.mk.inj (Except.ok.inj hrun)
    exact (h.rest id).cancelTimer (netimerCancelTimer_epas hcancel) hlegal
  | dispatch a =>
    obtain ⟨rfl, rfl⟩ := Prod.mk.inj (Except.ok.inj hrun)
    exact h.dispatch hlegal.2
  | call =>
    obtain ⟨rfl, _, _⟩ := runEtimerStep_call hrun
    exact h.rest fun _ => trivial
  | returns => exact h.ends (Or.inl rfl) hrun
  | finish => exact h.ends (Or.inr rfl) hrun
  | send a e =>
    obtain ⟨⟨error, epas⟩, hsend, hrun⟩ := bind_eq_ok.mp hrun
    obtain ⟨rfl, rfl⟩ := Prod.mk.inj (Except.ok.inj hrun)
    exact (h.rest id).accepts (nepaSendEventI_accepts h.queue hsend)
      fun m hm => hlegal m (List.mem_singleton.mp hm)
  | sendAhead a e =>
    obtain ⟨⟨error, epas⟩, hsend, hrun⟩ := bind_eq_ok.mp hrun
    obtain ⟨rfl, rfl⟩ := Prod.mk.inj (Except.ok.inj hrun)
    exact (h.rest id).accepts (nepaSendEventAheadI_accepts h.queue hsend)
      fun m hm => hlegal m (List.mem_singleton.mp hm)
  | others m deferred sched =>
    obtain ⟨rfl, rfl⟩ := Prod.mk.inj (Except.ok.inj hrun)
    refine ⟨h.queue, fun n => ?_, fun n hn => (hlegal n).trans (h.null n hn)⟩
    have hsafe := (h.rest id).safe n
    rw [← hlegal n] at hsafe
    exact hsafe

theorem passed (h : EtimerInv P.net sys cancelling p (s :: steps))
    (hrun : runEtimerStep P sys s = .ok (out, sys')) {id : ℕ}
    (hpassed : out.passed = some (P.net.event n, id)) :
    (p n).Kept nsmNull (neventUserId ≤ ·) id := by
  cases s with
  | call =>
    obtain ⟨_, _, hcall⟩ := runEtimerStep_call hrun
    obtain ⟨hctl, rfl⟩ := hcall _ _ hpassed
    exact (h.safe n).kept _ (Or.inr ⟨hctl, trivial⟩)
  | returns =>
    obtain ⟨rfl, _⟩ := runEtimerStep_ends (Or.inl rfl) hrun
    cases hpassed
  | finish =>
    obtain ⟨rfl, _⟩ := runEtimerStep_ends (Or.inr rfl) hrun
    cases hpassed
  | dispatch a =>
    obtain ⟨rfl, rfl⟩ := Prod.mk.inj (Except.ok.inj hrun)
    cases hpassed
  | cancelId n' =>
    obtain ⟨rfl, rfl⟩ := Prod.mk.inj (Except.ok.inj hrun)
    cases hpassed
  | others m deferred sched =>
    obtain ⟨rfl, rfl⟩ := Prod.mk.inj (Except.ok.inj hrun)
    cases hpassed
  | _ =>
    obtain ⟨_, _, hrun⟩ := bind_eq_ok.mp hrun
    obtain ⟨rfl, rfl⟩ := Prod.mk.inj (Except.ok.inj hrun)
    cases hpassed

end EtimerInv

/-- before any call no promise is made -/
theorem etimerInv_start (net : Netimers N A E) {sys : EtimerSys N S A D E M}
    (hq : ∀ a, QueueOk (sys.epas.queue a)) (steps : List (EtimerStep N S A D E M)) :
    EtimerInv net sys (fun _ => 0) (fun _ => Promise.nothing) steps :=
  ⟨hq, fun _ => Promise.safe_nothing _ _ _, fun _ h => absurd h (Nat.lt_irrefl 0)⟩

theorem EtimerInv.run {P : EtimerPort N S A E} {sys : EtimerSys N S A D E M} {cancelling : N → ℕ}
    {p : N → Promise ℕ} {steps : List (EtimerStep N S A D E M)}
    (h : EtimerInv P.net sys cancelling p steps) (hlegal : LegalEtimerRun P sys cancelling steps)
    (hfresh : FreshArms P sys cancelling steps) : StaleFree P sys p steps := by
  induction steps generalizing sys cancelling p with
  | nil => trivial
  | cons step steps ih =>
    intro out sys' hrun
    constructor
    · intro n id hpassed
      exact h.passed hrun hpassed
    · exact ih (h.step hlegal.1 hfresh.1 hrun) (hlegal.2 out sys' hrun) (hfresh.2 out sys' hrun)

/-- **A run that arms a timer only while its event is in no queue, no state function is to be called with it
and no call cancels it delivers no stale event.** -/
theorem staleFree_of_freshArms (P : EtimerPort N S A E) (sys : EtimerSys N S A D E M)
    (hq : ∀ a, QueueOk (sys.epas.queue a)) (steps : List (EtimerStep N S A D E M))
    (hlegal : LegalEtimerRun P sys (fun _ => 0) steps)
    (hfresh : FreshArms P sys (fun _ => 0) steps) :
    StaleFree P sys (fun _ => Promise.nothing) steps :=
  (etimerInv_start P.net hq steps).run hlegal hfresh

end

/-! ## one timer with one agent -/

def oneEtimer : EtimerPort Unit Unit Unit Unit where
  net := ⟨id, id, Function.injective_id⟩
  sch := ⟨fun s _ => .ok s, fun s _ => .ok s, fun s _ _ => s⟩
  apiValidation := false
  saturates := false
  fuel := 8

def oneEtimerSys : EtimerSys Unit Unit Unit Unit Unit Unit where
  timers := .init
  epas :=
    { event := fun _ => ⟨none, nsmNull, 0#32, 0#32⟩
      frees := []
      sched := ()
      queue := fun _ => nqueueInit 2 fun _ => ()
      deferred := fun _ => nqueueInit 2 fun _ => ()
      ctl := .loop }

/-- the timer is cancelled with its event in the queue, and armed again by the state function that gets the
null event -/
def cancelRun : List (EtimerStep Unit Unit Unit Unit Unit Unit) :=
  [.after () 1 20, .isr, .isr, .cancelId (), .cancelTimer (), .dispatch (), .call, .after () 5 21,
    .returns, .finish]

/-- the timer is armed again with its event in the queue -/
def rearmRun : List (EtimerStep Unit Unit Unit Unit Unit Unit) :=
  [.after () 1 20, .isr, .isr, .after () 5 21, .dispatch (), .call]

theorem oneEtimerSys_queue : ∀ a, QueueOk (oneEtimerSys.epas.queue a) :=
  fun _ => (nqueueInit_ok (le_refl 1) (by decide) _).1

theorem forall_of_runEtimerStep {sys sys' : EtimerSys Unit Unit Unit Unit Unit Unit}
    {s : EtimerStep Unit Unit Unit Unit Unit Unit} {out : EtimerOut Unit Unit}
    {Q : EtimerSys Unit Unit Unit Unit Unit Unit → Prop}
    (h : runEtimerStep oneEtimer sys s = .ok (out, sys')) (hQ : Q sys') :
    ∀ out' sys'', runEtimerStep oneEtimer sys s = .ok (out', sys'') → Q sys'' := by
  intro out' sys'' h'
  obtain ⟨_, rfl⟩ := Prod.mk.inj (Except.ok.inj (h.symm.trans h'))
  exact hQ

theorem cancelRun_staleFree :
    StaleFree oneEtimer oneEtimerSys (fun _ => Promise.nothing) cancelRun := by
  apply staleFree_of_freshArms oneEtimer oneEtimerSys oneEtimerSys_queue cancelRun
  · refine ⟨trivial, forall_of_runEtimerStep rfl ?_⟩
    refine ⟨trivial, forall_of_runEtimerStep rfl ?_⟩
    refine ⟨trivial, forall_of_runEtimerStep rfl ?_⟩
    refine ⟨trivial, forall_of_runEtimerStep rfl ?_⟩
    refine ⟨Nat.one_pos, forall_of_runEtimerStep rfl ?_⟩
    exact ⟨⟨rfl, rfl⟩, fun _ _ _ => ⟨trivial, fun _ _ _ => ⟨trivial, fun _ _ _ =>
      ⟨trivial, fun _ _ _ => ⟨trivial, fun _ _ _ => trivial⟩⟩⟩⟩⟩
  · refine ⟨⟨rfl, ?_⟩, forall_of_runEtimerStep rfl ?_⟩
    · exact not_or.mpr ⟨not_exists.mpr fun _ => List.not_mem_nil, fun h => nomatch h.1⟩
    refine ⟨trivial, forall_of_runEtimerStep rfl ?_⟩
    refine ⟨trivial, forall_of_runEtimerStep rfl ?_⟩
    refine ⟨trivial, forall_of_runEtimerStep rfl ?_⟩
    refine ⟨trivial, forall_of_runEtimerStep rfl ?_⟩
    refine ⟨trivial, forall_of_runEtimerStep rfl ?_⟩
    refine ⟨trivial, forall_of_runEtimerStep rfl ?_⟩
    -- the state machine returns without another call
    refine ⟨⟨rfl, ?_⟩, fun _ _ _ => ⟨trivial, fun _ _ _ => ⟨trivial, fun _ _ _ => trivial⟩⟩⟩
    exact not_or.mpr ⟨not_exists.mpr fun _ => List.not_mem_nil, fun h => h.2⟩

theorem rearmRun_not_staleFree : (∀ a, QueueOk (oneEtimerSys.epas.queue a)) ∧
    LegalEtimerRun oneEtimer oneEtimerSys (fun _ => 0) rearmRun ∧
    ¬ StaleFree oneEtimer oneEtimerSys (fun _ => Promise.nothing) rearmRun := by
  refine ⟨oneEtimerSys_queue, ?_, fun h => ?_⟩
  · refine ⟨trivial, forall_of_runEtimerStep rfl ?_⟩
    refine ⟨trivial, forall_of_runEtimerStep rfl ?_⟩
    refine ⟨trivial, forall_of_runEtimerStep rfl ?_⟩
    refine ⟨trivial, forall_of_runEtimerStep rfl ?_⟩
    exact ⟨⟨rfl, rfl⟩, fun _ _ _ => ⟨trivial, fun _ _ _ => trivial⟩⟩
  · have hlast := ((((((h _ _ rfl).2 _ _ rfl).2 _ _ rfl).2 _ _ rfl).2 _ _ rfl).2 _ _ rfl).1
    have hpassed := hlast () 21 rfl
    exact Promise.not_kept_of_armed (by decide) hpassed

end NeonEds
