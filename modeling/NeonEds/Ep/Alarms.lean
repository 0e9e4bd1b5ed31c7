import NeonEds.Ep.Etimer
import NeonEds.Lib.Boxes
import NeonEds.Lib.Ends
import NeonEds.Timer.Refine

/-!
# Event timers are alarm clocks

What event timers are for, over the whole of `etimer.c`, `timer.c` and the queues of `epa.c`.  In `Alarms`
every event timer is a countdown of its own and every agent has a mailbox of bounded size; a countdown
that ends puts the event of its timer at the back of the mailbox of its agent, if there is room.  A
dispatch takes the front of a mailbox in hand, and every call of a state function gets it with the id that
it then has.

* `AlarmStep`              what each step may do to the alarms, and what it gives out;
* `EpasShow`, `AlarmsShown`  the agents show the mailboxes, the timer list shows the countdowns;
* `EpasShow.runHandlers`   the callbacks of one ISR put the events into the mailboxes, in order;
* `AlarmsShown.step`       one step;
* `etimers_refine_alarms`  a whole run, which faults only where the scheduler does.
-/

set_option linter.unusedSectionVars false

namespace NeonEds
open Exec Boxes

/-- `NEVENT_INITIALIZER` -/
def neventInitializer {M : Type} (eventId : ℕ) : Nevent M where
  mem := none
  id := eventId
  attrib := 0#32
  ref := 0#32

/-- a fault of the scheduler -/
def Scheduler.Faults {S T : Type} (sch : Scheduler S T) (f : Fault) : Prop :=
  ∃ s t, sch.insertI s t = .error f ∨ sch.removeI s t = .error f

/-- the event that a running state machine handles -/
def EpaCtl.handled {T E : Type} : EpaCtl T E → Option E
  | .dispatching _ e => some e
  | _ => none

theorem EpaCtl.handled_eq_none {T E : Type} {ctl : EpaCtl T E}
    (h : ∀ t e, ctl = .dispatching t e → False) : ctl.handled = none := by
  cases ctl with
  | dispatching t e => exact (h t e rfl).elim
  | _ => rfl

structure Alarms (N A E : Type) where
  countdowns : Countdowns N EtimerFn
  mailbox : A → List E
  hand : Option E
  id : N → ℕ

section
variable {N S A D E M : Type} [DecidableEq N] [DecidableEq A] [DecidableEq D] [DecidableEq E]

def netimerIsRunningI (sys : EtimerSys N S A D E M) (n : N) : Bool := ntimerIsRunningI sys.timers n

def netimerRemaining (fuel : ℕ) (sys : EtimerSys N S A D E M) (n : N) :
    Exec (ℕ × EtimerSys N S A D E M) := do
  let (tick, timers) ← ntimerRemaining fuel sys.timers n
  return (tick, { sys with timers := timers })

def runEtimerSteps (P : EtimerPort N S A E) : EtimerSys N S A D E M → List (EtimerStep N S A D E M) →
    Exec (List (EtimerOut N E) × EtimerSys N S A D E M)
  | sys, [] => .ok ([], sys)
  | sys, step :: steps => do
    let (out, sys) ← runEtimerStep P sys step
    let (outs, sys) ← runEtimerSteps P sys steps
    return (out :: outs, sys)

/-! ## alarms -/

namespace Alarms

/-- before the first step no timer runs -/
def ofSys (net : Netimers N A E) (sys : EtimerSys N S A D E M) : Alarms N A E where
  countdowns := .stopped
  mailbox := fun a => nqueueItems (sys.epas.queue a)
  hand := sys.epas.ctl.handled
  id := fun n => sys.id (net.event n)

/-- the timer counts from `tick` on, whatever it did before -/
def arm (al : Alarms N A E) (n : N) (tick eventId flags : ℕ) : Alarms N A E :=
  { al with
    countdowns := al.countdowns.start n tick .etimerHandler flags
    id := Function.update al.id n eventId }

/-- a tick; the events of the timers `fired` go into the mailboxes of their agents -/
def ring (net : Netimers N A E) (size : A → ℕ) (al : Alarms N A E) (fired : List N) : Alarms N A E :=
  { al with
    countdowns := al.countdowns.isr
    mailbox := fun a => al.mailbox a ++
      ((fired.filter fun n => net.epa n = a).map net.event).take (size a - (al.mailbox a).length) }

end Alarms

/-- A step of the alarms.  The timers that ring are those with one tick left, each once; the order of
timers that ring together is left open, and so is which sends of other events are refused for the
references to the event. -/
inductive AlarmStep (net : Netimers N A E) (size : A → ℕ) (al : Alarms N A E) :
    EtimerStep N S A D E M → EtimerOut N E → Alarms N A E → Prop
  | isr {fired : List N} (hnd : fired.Nodup)
      (hdue : ∀ n, n ∈ fired ↔ ∃ c, al.countdowns n = some c ∧ c.left = 1) :
      AlarmStep net size al .isr ⟨fired, none⟩ (al.ring net size fired)
  | after (n : N) (tick eventId : ℕ) :
      AlarmStep net size al (.after n tick eventId) ⟨[], none⟩
        (al.arm n tick eventId ntimerAttrOneShot)
  | every (n : N) (tick eventId : ℕ) :
      AlarmStep net size al (.every n tick eventId) ⟨[], none⟩
        (al.arm n tick eventId ntimerAttrRepeat)
  | cancelId (n : N) :
      AlarmStep net size al (.cancelId n) ⟨[], none⟩
        { al with id := Function.update al.id n nsmNull }
  | cancelTimer (n : N) :
      AlarmStep net size al (.cancelTimer n) ⟨[], none⟩
        { al with countdowns := al.countdowns.cancel n }
  | dispatch {a : A} {e : E} {rest : List E} (hfront : al.mailbox a = e :: rest) :
      AlarmStep net size al (.dispatch a) ⟨[], none⟩
        { al with mailbox := Function.update al.mailbox a rest, hand := some e }
  | call {e : E} {id : ℕ} (hhand : al.hand = some e) (hid : ∀ n, net.event n = e → id = al.id n) :
      AlarmStep net size al .call ⟨[], some (e, id)⟩ al
  | callNone (hhand : al.hand = none) : AlarmStep net size al .call ⟨[], none⟩ al
  | returns : AlarmStep net size al .returns ⟨[], none⟩ { al with hand := none }
  | finish : AlarmStep net size al .finish ⟨[], none⟩ al
  | send (a : A) (e : E) :
      AlarmStep net size al (.send a e) ⟨[], none⟩
        { al with mailbox := post size al.mailbox (a, e) }
  | sendRefused {a : A} {e : E} (h : ∀ n, net.event n ≠ e) :
      AlarmStep net size al (.send a e) ⟨[], none⟩ al
  | sendAhead (a : A) (e : E) :
      AlarmStep net size al (.sendAhead a e) ⟨[], none⟩
        { al with mailbox := postAhead size al.mailbox (a, e) }
  | sendAheadRefused {a : A} {e : E} (h : ∀ n, net.event n ≠ e) :
      AlarmStep net size al (.sendAhead a e) ⟨[], none⟩ al
  | others (m : EventMem E M) (deferred : D → Nqueue E) (sched : S) :
      AlarmStep net size al (.others m deferred sched) ⟨[], none⟩ al

inductive AlarmRun (net : Netimers N A E) (size : A → ℕ) :
    Alarms N A E → List (EtimerStep N S A D E M) → List (EtimerOut N E) → Alarms N A E → Prop
  | nil (al : Alarms N A E) : AlarmRun net size al [] [] al
  | cons {al al₁ al' : Alarms N A E} {step : EtimerStep N S A D E M} {out : EtimerOut N E}
      {steps : List (EtimerStep N S A D E M)} {outs : List (EtimerOut N E)}
      (hstep : AlarmStep net size al step out al₁) (hrun : AlarmRun net size al₁ steps outs al') :
      AlarmRun net size al (step :: steps) (out :: outs) al'

/-- timers are armed with a tick from `1` to `UINT32_MAX - 1`, only an agent with events is dispatched, and
others leave the events of the timers alone -/
def LegalAlarmStep (net : Netimers N A E) (sys : EtimerSys N S A D E M) :
    EtimerStep N S A D E M → Prop
  | .after _ tick _ => 1 ≤ tick ∧ tick < uint32Max
  | .every _ tick _ => 1 ≤ tick ∧ tick < uint32Max
  | .dispatch a => nqueueIsEmpty (sys.epas.queue a) = false
  | .others m _ _ => ∀ n, m.event (net.event n) = sys.epas.event (net.event n)
  | _ => True

def LegalAlarmRun (P : EtimerPort N S A E) :
    EtimerSys N S A D E M → List (EtimerStep N S A D E M) → Prop
  | _, [] => True
  | sys, step :: steps => LegalAlarmStep P.net sys step ∧
      ∀ out sys', runEtimerStep P sys step = .ok (out, sys') → LegalAlarmRun P sys' steps

end

/-! ## the mailboxes -/

section
variable {N S A D E M : Type} [DecidableEq N] [DecidableEq A] [DecidableEq D] [DecidableEq E]

theorem neventRef_initializer (id : ℕ) :
    neventRef (neventInitializer id : Nevent M) < neventRefLimit := by
  show (0#32 ||| (0#32 ^^^ neventAttrDynamic)).toInt < neventRefLimit
  decide

theorem neventRefUp_initializer (saturates : Bool) (id : ℕ) :
    neventRefUp saturates (neventInitializer id : Nevent M) = neventInitializer id :=
  if_neg (not_not.mpr rfl)

theorem neventRefDown_initializer (saturates : Bool) (id : ℕ) :
    neventRefDown saturates (neventInitializer id : Nevent M) = neventInitializer id :=
  if_neg (not_not.mpr rfl)

/-- the queues of the agents are the mailboxes, the event that is dispatched is in hand, and the events of
the timers are static -/
structure EpasShow (net : Netimers N A E) (size : A → ℕ) (mailbox : A → List E) (hand : Option E)
    (id : N → ℕ) (ctx : EpaCtx S A D E M) : Prop where
  queue : ∀ a, QueueOk (ctx.queue a)
  size : ∀ a, nqueueSize (ctx.queue a) = size a
  mailbox : ∀ a, nqueueItems (ctx.queue a) = mailbox a
  hand : ctx.ctl.handled = hand
  event : ∀ n, ctx.event (net.event n) = neventInitializer (id n)

namespace EpasShow
variable {net : Netimers N A E} {size : A → ℕ} {mailbox : A → List E} {hand : Option E} {id : N → ℕ}
  {ctx ctx' : EpaCtx S A D E M} {a : A} {e : E} {sch : Scheduler S A} {saturates : Bool}

theorem room_iff (h : EpasShow net size mailbox hand id ctx) (a : A) :
    nqueueIsFull (ctx.queue a) = false ↔ (mailbox a).length < size a := by
  rw [← Bool.not_eq_true, (h.queue a).isFull_iff, h.mailbox, h.size]
  have hle := (h.queue a).length
  rw [h.mailbox, h.size] at hle
  omega

theorem refUp (h : EpasShow net size mailbox hand id ctx) (saturates : Bool) (e : E) (n : N) :
    (ctx.refUp saturates e).event (net.event n) = neventInitializer (id n) := by
  by_cases he : net.event n = e
  · rw [← he, EventMem.refUp_self, h.event]
    exact neventRefUp_initializer saturates (id n)
  · rw [EventMem.refUp_of_ne saturates _ he]
    exact h.event n

theorem refDown (h : EpasShow net size mailbox hand id ctx) (saturates : Bool) (e : E) (n : N) :
    (ctx.refDown saturates e).event (net.event n) = neventInitializer (id n) := by
  by_cases he : net.event n = e
  · rw [← he, EventMem.refDown_self, h.event]
    exact neventRefDown_initializer saturates (id n)
  · rw [EventMem.refDown_of_ne saturates _ he]
    exact h.event n

theorem of_queue (h : EpasShow net size mailbox hand id ctx) (hqueue : ctx'.queue = ctx.queue)
    {hand' : Option E} (hhand : ctx'.ctl.handled = hand') {id' : N → ℕ}
    (hevent : ∀ n, ctx'.event (net.event n) = neventInitializer (id' n)) :
    EpasShow net size mailbox hand' id' ctx' := by
  refine ⟨?_, ?_, ?_, hhand, hevent⟩
  · rw [hqueue]
    exact h.queue
  · rw [hqueue]
    exact h.size
  · rw [hqueue]
    exact h.mailbox

theorem of_queueAt (h : EpasShow net size mailbox hand id ctx) {qu : Nqueue E} (hqu : QueueOk qu)
    (hsize : nqueueSize qu = nqueueSize (ctx.queue a))
    (hqueue : ctx'.queue = Function.update ctx.queue a qu) {hand' : Option E}
    (hhand : ctx'.ctl.handled = hand')
    (hevent : ∀ n, ctx'.event (net.event n) = neventInitializer (id n)) :
    EpasShow net size (Function.update mailbox a (nqueueItems qu)) hand' id ctx' := by
  refine ⟨?_, fun b => ?_, fun b => ?_, hhand, hevent⟩
  · rw [hqueue]
    exact queueOk_update h.queue hqu
  · rw [hqueue]
    by_cases hb : b = a
    · rw [hb, Function.update_self, hsize]
      exact h.size a
    · rw [Function.update_of_ne hb]
      exact h.size b
  · rw [hqueue]
    by_cases hb : b = a
    · rw [hb, Function.update_self, Function.update_self]
    · rw [Function.update_of_ne hb, Function.update_of_ne hb]
      exact h.mailbox b

/-- **A send**: the event goes to the back of the mailbox, or it has too many references, which no event
of a timer has. -/
theorem send (h : EpasShow net size mailbox hand id ctx) (sch : Scheduler S A) (saturates : Bool) (a : A)
    (e : E) : Ends sch.Faults (nepaSendEventI sch saturates ctx a e) fun r =>
      EpasShow net size (post size mailbox (a, e)) hand id r.2 ∨
        EpasShow net size mailbox hand id r.2 ∧ ∀ n, net.event n ≠ e := by
  unfold nepaSendEventI
  by_cases hlimit : neventRef (ctx.event e) < neventRefLimit
  · rw [if_pos hlimit]
    dsimp only
    by_cases hfull : nqueueIsFull (ctx.queue a) = false
    · obtain ⟨hqu, hitems, hsize⟩ := nqueuePutFifo_ok (h.queue a) hfull e
      rw [if_pos (show nqueueIsFull ((ctx.withMem (ctx.refUp saturates e)).queue a) = false from hfull)]
      refine Ends.bind (Ends.of_error fun f hf => ⟨ctx.sched, a, Or.inl hf⟩) fun sched _ _ => Or.inl ?_
      rw [post_room ((h.room_iff a).mp hfull), ← h.mailbox, ← hitems]
      exact h.of_queueAt hqu hsize rfl h.hand (h.refUp saturates e)
    · rw [if_neg (show ¬ nqueueIsFull ((ctx.withMem (ctx.refUp saturates e)).queue a) = false from hfull)]
      left
      rw [post_full (Nat.not_lt.mp fun hroom => hfull ((h.room_iff a).mpr hroom))]
      apply h.of_queue
      · rfl
      · exact h.hand
      · intro n
        show (neventDestroyI _ e).event (net.event n) = _
        rw [neventDestroyI_event]
        have hup : EpasShow net size mailbox hand id (ctx.withMem (ctx.refUp saturates e)) :=
          ⟨h.queue, h.size, h.mailbox, h.hand, h.refUp saturates e⟩
        exact hup.refDown saturates e n
  · rw [if_neg hlimit]
    refine Or.inr ⟨h, fun n hn => hlimit ?_⟩
    rw [← hn, h.event]
    exact neventRef_initializer (id n)

theorem sendAhead (h : EpasShow net size mailbox hand id ctx) (sch : Scheduler S A) (saturates : Bool)
    (a : A) (e : E) : Ends sch.Faults (nepaSendEventAheadI sch saturates ctx a e) fun r =>
      EpasShow net size (postAhead size mailbox (a, e)) hand id r.2 ∨
        EpasShow net size mailbox hand id r.2 ∧ ∀ n, net.event n ≠ e := by
  unfold nepaSendEventAheadI
  by_cases hlimit : neventRef (ctx.event e) < neventRefLimit
  · rw [if_pos hlimit]
    dsimp only
    by_cases hfull : nqueueIsFull (ctx.queue a) = false
    · obtain ⟨hqu, hitems, hsize⟩ := nqueuePutLifo_ok (h.queue a) hfull e
      rw [if_pos (show nqueueIsFull ((ctx.withMem (ctx.refUp saturates e)).queue a) = false from hfull)]
      refine Ends.bind (Ends.of_error fun f hf => ⟨ctx.sched, a, Or.inl hf⟩) fun sched _ _ => Or.inl ?_
      rw [postAhead_room ((h.room_iff a).mp hfull), ← h.mailbox, ← hitems]
      exact h.of_queueAt hqu hsize rfl h.hand (h.refUp saturates e)
    · rw [if_neg (show ¬ nqueueIsFull ((ctx.withMem (ctx.refUp saturates e)).queue a) = false from hfull)]
      left
      rw [postAhead_full (Nat.not_lt.mp fun hroom => hfull ((h.room_iff a).mpr hroom))]
      apply h.of_queue
      · rfl
      · exact h.hand
      · intro n
        show (neventDestroyI _ e).event (net.event n) = _
        rw [neventDestroyI_event]
        exact h.refUp saturates e n
  · rw [if_neg hlimit]
    refine Or.inr ⟨h, fun n hn => hlimit ?_⟩
    rw [← hn, h.event]
    exact neventRef_initializer (id n)

theorem dispatchStart (h : EpasShow net size mailbox hand id ctx)
    (hne : nqueueIsEmpty (ctx.queue a) = false) :
    ∃ e rest, mailbox a = e :: rest ∧
      EpasShow net size (Function.update mailbox a rest) (some e) id (epaDispatchStart ctx a) := by
  obtain ⟨front, rest, hitems⟩ : ∃ front rest, nqueueItems (ctx.queue a) = front :: rest := by
    apply List.exists_cons_of_ne_nil
    rw [Ne, ← (h.queue a).isEmpty_iff, hne]
    exact Bool.false_ne_true
  obtain ⟨hfront, hqu, hrest, hsize⟩ := nqueueGet_ok (h.queue a) hitems
  refine ⟨front, rest, ?_, ?_⟩
  · rw [← h.mailbox, hitems]
  · rw [← hrest]
    exact h.of_queueAt hqu hsize rfl (congrArg some hfront) h.event

theorem dispatchRefDown (h : EpasShow net size mailbox hand id ctx) (saturates : Bool) (a : A) (e : E) :
    EpasShow net size mailbox none id (epaDispatchRefDown saturates ctx a e) := by
  apply h.of_queue
  · rfl
  · rfl
  · exact h.refDown saturates e

theorem dispatchEnd (h : EpasShow net size mailbox hand id ctx) (sch : Scheduler S A) (a : A) (e : E) :
    Ends sch.Faults (epaDispatchEnd sch ctx a e) (EpasShow net size mailbox none id) := by
  refine Ends.bind (Ends.of_error fun f hf => ⟨_, a, Or.inr hf⟩) fun sched _ _ => ?_
  apply h.of_queue
  · rfl
  · rfl
  · intro n
    show (neventDestroyI _ e).event (net.event n) = _
    rw [neventDestroyI_event]
    exact h.event n

/-- **The callbacks of one ISR put the events of the timers into the mailboxes, in order.** -/
theorem runHandlers {P : EtimerPort N S A E} {sys : EtimerSys N S A D E M}
    (h : EpasShow P.net size mailbox hand id sys.epas) (fired : List (N × EtimerFn)) :
    Ends P.sch.Faults (NeonEds.runHandlers P sys fired) fun sys' => sys'.timers = sys.timers ∧
      EpasShow P.net size (postAll size mailbox
        ((fired.map Prod.fst).map fun n => (P.net.epa n, P.net.event n))) hand id sys'.epas := by
  induction fired generalizing sys mailbox with
  | nil => exact ⟨rfl, h⟩
  | cons p fired ih =>
    obtain ⟨n, ⟨⟩⟩ := p
    have hsend := h.send P.sch P.saturates (P.net.epa n) (P.net.event n)
    have hhandler : Ends P.sch.Faults (etimerHandler P sys n) fun sys₁ => sys₁.timers = sys.timers ∧
        EpasShow P.net size (post size mailbox (P.net.epa n, P.net.event n)) hand id sys₁.epas := by
      refine hsend.bind fun r _ hr => ⟨rfl, ?_⟩
      exact hr.resolve_right fun hno => hno.2 n rfl
    refine hhandler.bind fun sys₁ _ h₁ => (ih h₁.2).mono fun sys' h' => ⟨?_, h'.2⟩
    exact h'.1.trans h₁.1

end EpasShow

end

/-! ## one step -/

section
variable {N S A D E M : Type} [DecidableEq N] [DecidableEq A] [DecidableEq D] [DecidableEq E]

/-- the timer list `D` counts the countdowns, and the agents show the mailboxes -/
structure AlarmsShown (net : Netimers N A E) (size : A → ℕ) (sys : EtimerSys N S A D E M)
    (D : List (N × ℕ)) (al : Alarms N A E) : Prop where
  sim : Sim sys.timers D al.countdowns
  settled : al.countdowns.Settled
  epas : EpasShow net size al.mailbox al.hand al.id sys.epas

theorem Countdowns.start_cancel (M : Countdowns N EtimerFn) (n : N) (tick flags : ℕ) (fn : EtimerFn) :
    (M.cancel n).start n tick fn flags = M.start n tick fn flags :=
  Function.update_idem ..

namespace AlarmsShown
variable {P : EtimerPort N S A E} {size : A → ℕ} {sys : EtimerSys N S A D E M} {D' : List (N × ℕ)}
  {al : Alarms N A E} {bad : Fault → Prop}

/-- the step of the alarms that a step with this result is, when `k` timers more may run after it -/
def StepsTo (net : Netimers N A E) (size : A → ℕ) (D' : List (N × ℕ)) (al : Alarms N A E)
    (s : EtimerStep N S A D E M) (r : EtimerOut N E × EtimerSys N S A D E M) : Prop :=
  ∃ al' D'', AlarmStep net size al s r.1 al' ∧ AlarmsShown net size r.2 D'' al' ∧
    D''.length ≤ D'.length + 1

theorem stepsTo_epas (h : AlarmsShown P.net size sys D' al) {s : EtimerStep N S A D E M}
    {out : EtimerOut N E} {mailbox : A → List E} {hand : Option E} {id : N → ℕ} {epas : EpaCtx S A D E M}
    (hstep : AlarmStep P.net size al s out { al with mailbox := mailbox, hand := hand, id := id })
    (hepas : EpasShow P.net size mailbox hand id epas) :
    StepsTo P.net size D' al s (out, { sys with epas := epas }) :=
  ⟨_, D', hstep, ⟨h.sim, h.settled, hepas⟩, Nat.le_succ _⟩

theorem setId (h : AlarmsShown P.net size sys D' al) (n : N) (id : ℕ) :
    EpasShow P.net size al.mailbox al.hand (Function.update al.id n id)
      (sys.setId (P.net.event n) id).epas := by
  refine ⟨h.epas.queue, h.epas.size, h.epas.mailbox, h.epas.hand, fun m => ?_⟩
  show Function.update sys.epas.event (P.net.event n) { sys.epas.event (P.net.event n) with id := id }
    (P.net.event m) = _
  by_cases hm : m = n
  · rw [hm, Function.update_self, Function.update_self, h.epas.event]
    rfl
  · rw [Function.update_of_ne (P.net.event_injective.ne hm), Function.update_of_ne hm]
    exact h.epas.event m

theorem arm (h : AlarmsShown P.net size sys D' al) (n : N) {tick : ℕ} (eventId flags : ℕ)
    (h1 : 1 ≤ tick) (h2 : tick < uint32Max) (hf : D'.length ≤ P.fuel) :
    Ends bad (netimerArm P sys n tick eventId flags) fun sys' => ∃ D'',
      AlarmsShown P.net size sys' D'' (al.arm n tick eventId flags) ∧ D''.length ≤ D'.length + 1 := by
  obtain ⟨timers₁, hcancel, hsim₁, _⟩ := h.sim.ntimerCancelI_sim P.apiValidation n
  have hlen : (DeltaList.erase n D').length ≤ D'.length := DeltaList.length_erase_le ..
  have hstopped : al.countdowns.cancel n n = none := Function.update_self ..
  obtain ⟨timers₂, hstart, hsim₂⟩ := hsim₁.ntimerStartI_sim P.apiValidation .etimerHandler flags hstopped
    h1 h2 (hlen.trans hf)
  rw [Countdowns.start_cancel] at hsim₂
  have hrun : netimerArm P sys n tick eventId flags
      = .ok { sys.setId (P.net.event n) eventId with timers := timers₂ } := by
    unfold netimerArm
    rw [hcancel, ok_bind]
    show (ntimerStartI P.apiValidation P.fuel timers₁ n tick .etimerHandler flags >>= _) = _
    rw [hstart]
    rfl
  refine Ends.of_eq hrun ⟨_, ⟨hsim₂, h.settled.start n tick .etimerHandler flags,
    h.setId n eventId⟩, ?_⟩
  rw [DeltaList.length_insert]
  exact Nat.succ_le_succ hlen

theorem cancelTimer (h : AlarmsShown P.net size sys D' al) (n : N) :
    Ends bad (netimerCancelTimer P sys n) fun sys' => ∃ D'',
      AlarmsShown P.net size sys' D'' { al with countdowns := al.countdowns.cancel n } ∧
      D''.length ≤ D'.length := by
  obtain ⟨timers, hcancel, hsim, _⟩ := h.sim.ntimerCancelI_sim P.apiValidation n
  have hrun : netimerCancelTimer P sys n = .ok { sys with timers := timers } := by
    unfold netimerCancelTimer
    rw [hcancel]
    rfl
  exact Ends.of_eq hrun
    ⟨_, ⟨hsim, h.settled.cancel n, h.epas⟩, DeltaList.length_erase_le ..⟩

/-- **An ISR call rings the timers that have one tick left.** -/
theorem isr (h : AlarmsShown P.net size sys D' al) (hf : D'.length ≤ P.fuel) :
    Ends P.sch.Faults (etimerIsr P sys) fun r => ∃ D'', r.1.Nodup ∧
      (∀ n, n ∈ r.1 ↔ ∃ c, al.countdowns n = some c ∧ c.left = 1) ∧
      AlarmsShown P.net size r.2 D'' (al.ring P.net size r.1) ∧ D''.length ≤ D'.length := by
  obtain ⟨out, timers, D'', hrun, hsim, hlen, hsettled, log, rfl, hnd, hmem⟩ :=
    h.sim.isrSilent_sim P.apiValidation h.settled (fun _ _ => rfl) hf
  obtain ⟨r, hisr, hr⟩ := bind_eq_ok.mp hrun
  obtain ⟨hlog, htimers⟩ := Prod.mk.inj (Except.ok.inj hr)
  obtain rfl : r = (timers, log) := Prod.ext htimers (TimerOut.fired.inj hlog)
  unfold etimerIsr
  rw [hisr, ok_bind]
  have hepas : EpasShow P.net size al.mailbox al.hand al.id { sys with timers := timers }.epas := h.epas
  refine (hepas.runHandlers log).bind fun sys' _ h' => ⟨D'', hnd, fun n => ?_, ?_, hlen⟩
  · constructor
    · intro hn
      obtain ⟨p, hp, rfl⟩ := List.mem_map.mp hn
      obtain ⟨c, hc, hleft, _⟩ := (hmem p.1 p.2).mp hp
      exact ⟨c, hc, hleft⟩
    · rintro ⟨c, hc, hleft⟩
      exact List.mem_map.mpr ⟨(n, c.fn), (hmem n c.fn).mpr ⟨c, hc, hleft, rfl⟩, rfl⟩
  · refine ⟨?_, hsettled, ?_⟩
    · rw [h'.1]
      exact hsim
    · have hbox : (al.ring P.net size (log.map Prod.fst)).mailbox
          = postAll size al.mailbox ((log.map Prod.fst).map fun n => (P.net.epa n, P.net.event n)) := by
        funext a
        rw [postAll_eq, lettersTo_map]
        rfl
      rw [hbox]
      exact h'.2

theorem step (h : AlarmsShown P.net size sys D' al) {s : EtimerStep N S A D E M}
    (hlegal : LegalAlarmStep P.net sys s) (hf : D'.length ≤ P.fuel) :
    Ends P.sch.Faults (runEtimerStep P sys s) (StepsTo P.net size D' al s) := by
  cases s with
  | isr =>
    refine (h.isr hf).bind fun r _ hr => ?_
    obtain ⟨D'', hnd, hdue, hshown, hlen⟩ := hr
    exact ⟨_, D'', .isr hnd hdue, hshown, hlen.trans (Nat.le_succ _)⟩
  | after n tick eventId =>
    refine (h.arm n eventId ntimerAttrOneShot hlegal.1 hlegal.2 hf).bind fun sys' _ hsys' => ?_
    obtain ⟨D'', hshown, hlen⟩ := hsys'
    exact ⟨_, D'', .after n tick eventId, hshown, hlen⟩
  | every n tick eventId =>
    refine (h.arm n eventId ntimerAttrRepeat hlegal.1 hlegal.2 hf).bind fun sys' _ hsys' => ?_
    obtain ⟨D'', hshown, hlen⟩ := hsys'
    exact ⟨_, D'', .every n tick eventId, hshown, hlen⟩
  | cancelId n => exact h.stepsTo_epas (.cancelId n) (h.setId n nsmNull)
  | cancelTimer n =>
    refine (h.cancelTimer n).bind fun sys' _ hsys' => ?_
    obtain ⟨D'', hshown, hlen⟩ := hsys'
    exact ⟨_, D'', .cancelTimer n, hshown, hlen.trans (Nat.le_succ _)⟩
  | dispatch a =>
    obtain ⟨e, rest, hfront, hepas⟩ := h.epas.dispatchStart hlegal
    exact h.stepsTo_epas (.dispatch hfront) hepas
  | call =>
    have hhand := h.epas.hand
    simp only [runEtimerStep]
    split
    · rename_i a e hctl
      rw [hctl] at hhand
      refine h.stepsTo_epas (.call hhand.symm fun n hn => ?_) h.epas
      rw [← hn]
      show (sys.epas.event (P.net.event n)).id = _
      rw [h.epas.event]
      rfl
    · rename_i hother
      rw [EpaCtl.handled_eq_none hother] at hhand
      exact h.stepsTo_epas (.callNone hhand.symm) h.epas
  | returns =>
    simp only [runEtimerStep]
    split
    · rename_i a e _
      exact h.stepsTo_epas .returns (h.epas.dispatchRefDown P.saturates a e)
    · rename_i hother
      exact h.stepsTo_epas .returns (h.epas.of_queue rfl (EpaCtl.handled_eq_none hother) h.epas.event)
  | finish =>
    simp only [runEtimerStep]
    split
    · rename_i a e hctl
      have hhand := h.epas.hand
      rw [hctl] at hhand
      refine (h.epas.dispatchEnd P.sch a e).bind fun epas _ hepas => ?_
      rw [show none = al.hand from hhand] at hepas
      exact h.stepsTo_epas .finish hepas
    · exact h.stepsTo_epas .finish h.epas
  | send a e =>
    refine (h.epas.send P.sch P.saturates a e).bind fun r _ hr => ?_
    rcases hr with hepas | ⟨hepas, hno⟩
    · exact h.stepsTo_epas (.send a e) hepas
    · exact h.stepsTo_epas (.sendRefused hno) hepas
  | sendAhead a e =>
    refine (h.epas.sendAhead P.sch P.saturates a e).bind fun r _ hr => ?_
    rcases hr with hepas | ⟨hepas, hno⟩
    · exact h.stepsTo_epas (.sendAhead a e) hepas
    · exact h.stepsTo_epas (.sendAheadRefused hno) hepas
  | others m deferred sched =>
    refine h.stepsTo_epas (.others m deferred sched) ⟨h.epas.queue, h.epas.size,
      h.epas.mailbox, h.epas.hand, ?_⟩
    intro n
    exact (hlegal n).trans (h.epas.event n)

theorem run (steps : List (EtimerStep N S A D E M)) (h : AlarmsShown P.net size sys D' al)
    (hlegal : LegalAlarmRun P sys steps) (hf : D'.length + steps.length ≤ P.fuel) :
    Ends P.sch.Faults (runEtimerSteps P sys steps) fun r => ∃ al' D'',
      AlarmRun P.net size al steps r.1 al' ∧ AlarmsShown P.net size r.2 D'' al' ∧
      D''.length ≤ P.fuel := by
  induction steps generalizing sys D' al with
  | nil => exact ⟨al, D', .nil al, h, hf⟩
  | cons s steps ih =>
    rw [List.length_cons] at hf
    refine (h.step hlegal.1 (by omega)).bind fun r hr hstep => ?_
    obtain ⟨al₁, D₁, hal₁, hshown₁, hlen₁⟩ := hstep
    refine (ih hshown₁ (hlegal.2 r.1 r.2 hr) (by omega)).bind fun r' _ hrun => ?_
    obtain ⟨al', D'', hal', hshown', hlen'⟩ := hrun
    exact ⟨al', D'', .cons hal₁ hal', hshown', hlen'⟩

end AlarmsShown

/-- **Event timers are alarm clocks.**  A legal run faults only where the scheduler does; otherwise it is a
run of independent countdowns and mailboxes, with the same timers ringing and the same events handled,
and at its end the queues, the running timers and their remaining ticks are those of the alarms. -/
theorem etimers_refine_alarms (P : EtimerPort N S A E) (sys : EtimerSys N S A D E M)
    (htimers : sys.timers = .init) (hq : ∀ a, QueueOk (sys.epas.queue a))
    (hevent : ∀ n, sys.epas.event (P.net.event n) = neventInitializer (sys.id (P.net.event n)))
    (steps : List (EtimerStep N S A D E M)) (hlegal : LegalAlarmRun P sys steps)
    (hf : steps.length ≤ P.fuel) :
    Ends P.sch.Faults (runEtimerSteps P sys steps) fun r => ∃ al',
      AlarmRun P.net (fun a => nqueueSize (sys.epas.queue a)) (.ofSys P.net sys) steps r.1 al' ∧
      (∀ a, nqueueItems (r.2.epas.queue a) = al'.mailbox a) ∧
      ∀ n, r.2.id (P.net.event n) = al'.id n ∧
        netimerIsRunningI r.2 n = (al'.countdowns n).isSome ∧
        netimerRemaining P.fuel r.2 n = .ok (al'.countdowns.left n, r.2) := by
  have hshown : AlarmsShown P.net (fun a => nqueueSize (sys.epas.queue a)) sys []
      (.ofSys P.net sys) := by
    refine ⟨?_, Countdowns.settled_stopped, hq, fun _ => rfl, fun _ => rfl, rfl, hevent⟩
    rw [htimers]
    exact Sim.init
  refine (hshown.run steps hlegal (by simpa using hf)).mono fun r hr => ?_
  obtain ⟨al', D', hrun, hshown', hlen⟩ := hr
  refine ⟨al', hrun, hshown'.epas.mailbox, fun n => ⟨?_, hshown'.sim.isRunning_eq n, ?_⟩⟩
  · show (r.2.epas.event (P.net.event n)).id = _
    rw [hshown'.epas.event]
    rfl
  · unfold netimerRemaining
    rw [hshown'.sim.ntimerRemaining_eq n hlen]
    rfl

end

/-- a repeating timer rings, and a state function is called with its event -/
def ringRun : List (EtimerStep Unit Unit Unit Unit Unit Unit) :=
  [.every () 1 20, .isr, .isr, .dispatch (), .call]

theorem etimers_refine_alarms_oneRing :
    Ends oneEtimer.sch.Faults (runEtimerSteps oneEtimer oneEtimerSys ringRun) fun r => ∃ al',
      AlarmRun oneEtimer.net (fun a => nqueueSize (oneEtimerSys.epas.queue a))
        (.ofSys oneEtimer.net oneEtimerSys) ringRun r.1 al' ∧
      (∀ a, nqueueItems (r.2.epas.queue a) = al'.mailbox a) ∧
      ∀ n, r.2.id (oneEtimer.net.event n) = al'.id n ∧
        netimerIsRunningI r.2 n = (al'.countdowns n).isSome ∧
        netimerRemaining oneEtimer.fuel r.2 n = .ok (al'.countdowns.left n, r.2) := by
  apply etimers_refine_alarms oneEtimer oneEtimerSys rfl oneEtimerSys_queue fun _ => rfl
  · refine ⟨⟨le_refl 1, by decide⟩, forall_of_runEtimerStep rfl ?_⟩
    refine ⟨trivial, forall_of_runEtimerStep rfl ?_⟩
    refine ⟨trivial, forall_of_runEtimerStep rfl ?_⟩
    exact ⟨rfl, fun _ _ _ => ⟨trivial, fun _ _ _ => trivial⟩⟩
  · exact Nat.le_add_right 5 3

end NeonEds
