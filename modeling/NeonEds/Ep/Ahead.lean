import NeonEds.Ep.Delivery

/-!
# Sending ahead

`SendsAgree`: `nepa_send_event_ahead_i` and `nepa_send_event_i`, called in one state, return the same
error and leave the same events, the same frees and the same scheduler; an event that was accepted is
at the front of the queue after the one call and at the back after the other.

A queue with a place takes the event in both functions, and the reference limit refuses it in both.  At
a full queue only `nepa_send_event_i` gives up the reference that was taken:

* `ncoreAtomicDec_inc`       one count up, one down;
* `refDown_eq_self_iff`      when nothing has to be given up;
* `sendsAgree_iff`           the two functions agree iff the full queue is not met with a count that
                             was raised.
-/

set_option linter.unusedSectionVars false

namespace NeonEds
open Exec

/-! ## the counter of one event -/

/-- a counter that was raised is lowered again, but for the one that goes round to zero and stays -/
theorem ncoreAtomicDec_inc (saturates : Bool) (value : BitVec 32) :
    ncoreAtomicDec saturates (ncoreAtomicInc saturates value) = ncoreAtomicInc saturates value ↔
      saturates = true ∧ value = 0xffffffff#32 := by
  have hone : ∀ x : BitVec 32, x - 1#32 ≠ x := by
    intro x
    bv_omega
  have hzero : ncoreAtomicInc saturates value = 0#32 ↔ value = 0xffffffff#32 := by
    unfold ncoreAtomicInc
    by_cases hmax : saturates = true ∧ value = int32Max
    · rw [if_pos hmax, hmax.2]
      exact iff_of_false (by decide) (by decide)
    · rw [if_neg hmax]
      bv_omega
  rw [← hzero]
  unfold ncoreAtomicDec
  by_cases hstay : saturates = true ∧ ncoreAtomicInc saturates value = 0#32
  · rw [if_pos hstay]
    exact iff_of_true rfl hstay
  · rw [if_neg hstay]
    exact iff_of_false (hone _) hstay

section
variable {M : Type}

/-- the reference that `neventRefUp` takes need not be given up -/
def NothingTaken (saturates : Bool) (event : Nevent M) : Prop :=
  event.attrib = 0#32 ∨ saturates = true ∧ event.ref = 0xffffffff#32

theorem refDown_eq_self_iff (saturates : Bool) (event : Nevent M) :
    neventRefDown saturates (neventRefUp saturates event) = neventRefUp saturates event ↔
      NothingTaken saturates event := by
  unfold NothingTaken
  by_cases ha : event.attrib = 0#32
  · have hup : neventRefUp saturates event = event := if_neg (fun hc => hc ha)
    have hdown : neventRefDown saturates event = event := if_neg (fun hc => hc ha)
    rw [hup, hdown]
    exact iff_of_true rfl (Or.inl ha)
  · have hup : neventRefUp saturates event
        = { event with ref := ncoreAtomicInc saturates event.ref } := if_pos ha
    have hdown : neventRefDown saturates { event with ref := ncoreAtomicInc saturates event.ref }
        = { event with ref := ncoreAtomicDec saturates (ncoreAtomicInc saturates event.ref) } :=
      if_pos ha
    rw [hup, hdown, Nevent.mk.injEq, ← ncoreAtomicDec_inc saturates event.ref]
    constructor
    · intro h
      exact Or.inr h.2.2.2
    · intro h
      exact ⟨rfl, rfl, rfl, h.resolve_left ha⟩

end

/-! ## the two functions -/

variable {S T D E M : Type} [DecidableEq T] [DecidableEq D] [DecidableEq E]

/-- the two states differ at most in the place of `e` in the queue of `t` -/
structure SameBut (ctx sent ahead : EpaCtx S T D E M) (t : T) (e : E) (error : Nerror) : Prop where
  mem : ahead.toEventMem = sent.toEventMem
  sched : ahead.sched = sent.sched
  deferred : ahead.deferred = sent.deferred
  ctl : ahead.ctl = sent.ctl
  others : ∀ u, u ≠ t → ahead.queue u = sent.queue u
  accepted : error = .none → QueueOk (sent.queue t) ∧ QueueOk (ahead.queue t) ∧
    nqueueItems (sent.queue t) = nqueueItems (ctx.queue t) ++ [e] ∧
    nqueueItems (ahead.queue t) = e :: nqueueItems (ctx.queue t)
  refused : error ≠ .none → sent.queue t = ctx.queue t ∧ ahead.queue t = ctx.queue t

/-- `nepa_send_event_ahead_i` does what `nepa_send_event_i` does, at the other end of the queue -/
def SendsAgree (sch : Scheduler S T) (saturates : Bool) (ctx : EpaCtx S T D E M) (t : T) (e : E) :
    Prop :=
  match nepaSendEventI sch saturates ctx t e, nepaSendEventAheadI sch saturates ctx t e with
  | .ok (error, sent), .ok (error', ahead) => error' = error ∧ SameBut ctx sent ahead t e error
  | .error fault, .error fault' => fault' = fault
  | _, _ => False

section
variable {sch : Scheduler S T} {saturates : Bool} {ctx : EpaCtx S T D E M} {t : T} {e : E}

theorem sendsAgree_noReference (hlim : ¬ neventRef (ctx.event e) < neventRefLimit) :
    SendsAgree sch saturates ctx t e := by
  have hsend : nepaSendEventI sch saturates ctx t e = .ok (.noReference, ctx) := if_neg hlim
  have hahead : nepaSendEventAheadI sch saturates ctx t e = .ok (.noReference, ctx) := if_neg hlim
  unfold SendsAgree
  rw [hsend, hahead]
  exact ⟨rfl, rfl, rfl, rfl, rfl, fun _ _ => rfl, nofun, fun _ => ⟨rfl, rfl⟩⟩

theorem sendsAgree_room (hq : QueueOk (ctx.queue t))
    (hlim : neventRef (ctx.event e) < neventRefLimit)
    (hroom : nqueueIsFull (ctx.queue t) = false) : SendsAgree sch saturates ctx t e := by
  have hsend : nepaSendEventI sch saturates ctx t e = (do
      let sched ← sch.insertI ctx.sched t
      return (.none, { (ctx.withMem (ctx.refUp saturates e)).setQueue t
        (nqueuePutFifo (ctx.queue t) e) with sched := sched })) :=
    (if_pos hlim).trans (if_pos hroom)
  have hahead : nepaSendEventAheadI sch saturates ctx t e = (do
      let sched ← sch.insertI ctx.sched t
      return (.none, { (ctx.withMem (ctx.refUp saturates e)).setQueue t
        (nqueuePutLifo (ctx.queue t) e) with sched := sched })) :=
    (if_pos hlim).trans (if_pos hroom)
  unfold SendsAgree
  rw [hsend, hahead]
  cases sch.insertI ctx.sched t with
  | error fault => exact rfl
  | ok sched =>
    obtain ⟨hok, hitems, _⟩ := nqueuePutFifo_ok hq hroom e
    obtain ⟨hok', hitems', _⟩ := nqueuePutLifo_ok hq hroom e
    refine ⟨rfl, rfl, rfl, rfl, rfl, fun u hu => ?_, fun _ => ?_, fun h => absurd rfl h⟩
    · show Function.update ctx.queue t _ u = Function.update ctx.queue t _ u
      rw [Function.update_of_ne hu, Function.update_of_ne hu]
    · show QueueOk (Function.update ctx.queue t _ t) ∧ QueueOk (Function.update ctx.queue t _ t) ∧
        nqueueItems (Function.update ctx.queue t _ t) = _ ∧
        nqueueItems (Function.update ctx.queue t _ t) = _
      rw [Function.update_self, Function.update_self]
      exact ⟨hok, hok', hitems, hitems'⟩

/-- the queue is full: only one of the two gives up the reference that was taken -/
theorem sendsAgree_full (hlim : neventRef (ctx.event e) < neventRefLimit)
    (hfull : nqueueIsFull (ctx.queue t) = true) :
    SendsAgree sch saturates ctx t e ↔ NothingTaken saturates (ctx.event e) := by
  have hne : ¬ nqueueIsFull (ctx.queue t) = false := by
    rw [hfull]
    exact Bool.noConfusion
  have hsend : nepaSendEventI sch saturates ctx t e = .ok (.noResource,
      ctx.withMem (neventDestroyI (EventMem.refDown saturates (ctx.refUp saturates e) e) e)) :=
    (if_pos hlim).trans (if_neg hne)
  have hahead : nepaSendEventAheadI sch saturates ctx t e = .ok (.noResource,
      ctx.withMem (neventDestroyI (ctx.refUp saturates e) e)) :=
    (if_pos hlim).trans (if_neg hne)
  rw [← refDown_eq_self_iff]
  unfold SendsAgree
  rw [hsend, hahead]
  constructor
  · intro h
    have hmem : (neventDestroyI (ctx.refUp saturates e) e).event e
        = (neventDestroyI (EventMem.refDown saturates (ctx.refUp saturates e) e) e).event e :=
      congrArg (fun m : EventMem E M => m.event e) h.2.mem
    rw [neventDestroyI_event, neventDestroyI_event, EventMem.refDown_self,
      EventMem.refUp_self] at hmem
    exact hmem.symm
  · intro h
    -- the reference that was taken is no reference, so both destroy the same event
    have hmem : EventMem.refDown saturates (ctx.refUp saturates e) e = ctx.refUp saturates e := by
      unfold EventMem.refDown EventMem.setEvent
      rw [EventMem.refUp_self, h, ← EventMem.refUp_self saturates ctx.toEventMem e,
        Function.update_eq_self]
    rw [hmem]
    exact ⟨rfl, rfl, rfl, rfl, rfl, fun _ _ => rfl, nofun, fun _ => ⟨rfl, rfl⟩⟩

/-- **Sending ahead agrees with sending** iff the event is refused for want of a reference, or the
queue has a place, or no reference was taken. -/
theorem sendsAgree_iff (hq : QueueOk (ctx.queue t)) :
    SendsAgree sch saturates ctx t e ↔ ¬ neventRef (ctx.event e) < neventRefLimit ∨
      nqueueIsFull (ctx.queue t) = false ∨ NothingTaken saturates (ctx.event e) := by
  by_cases hlim : neventRef (ctx.event e) < neventRefLimit
  · cases hroom : nqueueIsFull (ctx.queue t) with
    | false => exact iff_of_true (sendsAgree_room hq hlim hroom) (Or.inr (Or.inl rfl))
    | true =>
      rw [sendsAgree_full hlim hroom]
      constructor
      · intro h
        exact Or.inr (Or.inr h)
      · intro h
        exact (h.resolve_left (fun hc => hc hlim)).resolve_left Bool.noConfusion
  · exact iff_of_true (sendsAgree_noReference hlim) (Or.inl hlim)

end

/-- the agent of `oneAgent` before anything is sent to it -/
theorem sendsAgree_oneAgent : SendsAgree (edsScheduler cfg32 0) false oneAgent () () :=
  (sendsAgree_iff (oneAgent_start.queue ()).1).mpr (Or.inr (Or.inl rfl))

/-- the queue of the agent holds one dynamic event twice -/
def twiceQueued : EpaSys Unit Unit Unit Unit :=
  { oneAgent with
    event := fun _ => { mem := some (), id := 0, attrib := neventAttrDynamic, ref := 2#32 }
    queue := fun _ => nqueuePutFifo (nqueuePutFifo (nqueueInit 2 (fun _ => ())) ()) () }

/-- sent ahead a third time it keeps the reference that was taken -/
theorem twiceQueued_not_sendsAgree :
    ¬ SendsAgree (edsScheduler cfg32 0) false twiceQueued () () := by
  intro h
  have hmem : (3#32 : BitVec 32) = 2#32 :=
    congrArg (fun m : EventMem Unit Unit => (m.event ()).ref) h.2.mem
  exact absurd hmem (by decide)

end NeonEds
