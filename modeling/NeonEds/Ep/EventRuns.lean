import NeonEds.Ep.EventCalls

/-!
# The calls of the event functions

`EventOp` are the calls, cut where interrupts may come.  A dispatch is `start`, `returns` and `finish`;
each event that `nepa_defer_fetch_one` or `nepa_defer_fetch_all` takes is a `fetch` and a `fetchSend`; a
`nevent_unlock` is an `unlock`, an `unlockRead` and, when it gives the event back, an `unlockFree`.  In all
of them what is known of the reference counter is used in a later step; in between the event is in hand
(`EventSys.inHand`).  What the allocator answers is part of the call.

* `LegalEventOp`       the callers pass events that are static or have not been freed, the allocator
                       answers with memory that is not in use, the loop makes its steps in their order and
                       waits for the interrupts;
* `EventsSound`        the reference counts are right, and no event in hand has been freed;
* `EventOpFits`        no counter is raised at its end by `nepa_defer_event`, and no event is given back
                       while it is in hand or has come into a queue again;
* `EventsInv.step`     such a call keeps what holds between the calls, and what it gives back was live and
                       is given back once.
-/

set_option linter.unusedSectionVars false

namespace NeonEds
open Exec

variable {S T D E M : Type} [DecidableEq T] [DecidableEq D] [DecidableEq E] [Fintype T] [Fintype D]

structure EventSys (S T D E M : Type) extends EpaCtx S T D E M where
  /-- the event that was taken from a deferred queue, and the agent that it is sent to -/
  fetching : Option (T × E)
  /-- the calls of `nevent_unlock`, the latest first, and whether they have found the counter at zero -/
  unlocking : List (E × Bool)

inductive EventOp (T D E M : Type) where
  | create (id : ℕ) (mem : M) (answer : Option E)
  | send (t : T) (e : E)
  | signal (t : T) (eventId : ℕ) (mem : M) (answer : Option E)
  | defer (d : D) (e : E)
  /-- an event is taken from a deferred queue and its reference given up -/
  | fetch (t : T) (d : D)
  /-- the critical section in which it is sent -/
  | fetchSend
  | initStart (t : T)
  | initFinish
  | start (t : T)
  /-- the state machine returns, the reference to the event is given up -/
  | returns
  /-- the last critical section of a dispatch -/
  | finish
  | lock (e : E)
  /-- `nevent_unlock` ends the reservation -/
  | unlock (e : E)
  /-- the latest such call reads the counter -/
  | unlockRead
  /-- the critical section in which it gives its event back -/
  | unlockFree

def runEventOp (sch : Scheduler S T) (saturates : Bool) (sys : EventSys S T D E M) :
    EventOp T D E M → Exec (EventSys S T D E M)
  | .create id mem answer =>
    .ok { sys with toEpaCtx := sys.withMem (neventCreate sys.toEventMem id mem answer).2 }
  | .send t e => do
    let (_, ctx) ← nepaSendEventI sch saturates sys.toEpaCtx t e
    return { sys with toEpaCtx := ctx }
  | .signal t eventId mem answer => do
    let (_, ctx) ← nepaSendSignalI sch saturates sys.toEpaCtx t eventId mem answer
    return { sys with toEpaCtx := ctx }
  | .defer d e => .ok { sys with toEpaCtx := (nepaDeferEvent saturates sys.toEpaCtx d e).2 }
  | .fetch t d =>
    if nqueueIsEmpty (sys.deferred d) = false then
      let e := (nqueueGet (sys.deferred d)).1
      .ok { sys with toEpaCtx := deferTake saturates sys.toEpaCtx d e, fetching := some (t, e) }
    else .ok sys
  | .fetchSend =>
    match sys.fetching with
    | some (t, e) => do
      let (_, ctx) ← nepaSendEventI sch saturates sys.toEpaCtx t e
      return { sys with toEpaCtx := ctx, fetching := none }
    | none => .ok sys
  | .initStart t => .ok { sys with ctl := .initialising t }
  | .initFinish =>
    match sys.ctl with
    | .initialising t => do
      let ctx ← epaInitEnd sch sys.toEpaCtx t
      return { sys with toEpaCtx := ctx }
    | _ => .ok sys
  | .start t => .ok { sys with toEpaCtx := epaDispatchStart sys.toEpaCtx t }
  | .returns =>
    match sys.ctl with
    | .dispatching t e => .ok { sys with toEpaCtx := epaDispatchRefDown saturates sys.toEpaCtx t e }
    | _ => .ok sys
  | .finish =>
    match sys.ctl with
    | .dispatched t e => do
      let ctx ← epaDispatchEnd sch sys.toEpaCtx t e
      return { sys with toEpaCtx := ctx }
    | _ => .ok sys
  | .lock e => .ok { sys with toEpaCtx := sys.withMem (neventLock sys.toEventMem e) }
  | .unlock e =>
    if (sys.event e).attrib ≠ 0#32 then
      .ok { sys with
        toEpaCtx := sys.withMem (neventUnreserve sys.toEventMem e)
        unlocking := (e, false) :: sys.unlocking }
    else .ok sys
  | .unlockRead =>
    match sys.unlocking with
    | (e, false) :: us =>
      .ok { sys with unlocking := if (sys.event e).ref = 0#32 then (e, true) :: us else us }
    | _ => .ok sys
  | .unlockFree =>
    match sys.unlocking with
    | (e, true) :: us => .ok { sys with
        toEpaCtx := sys.withMem (sys.toEventMem.nmemFreeI e)
        unlocking := us }
    | _ => .ok sys

/-- the agent whose state machine runs -/
def EpaCtl.current : EpaCtl T E → Option T
  | .initialising t => some t
  | .dispatching t _ => some t
  | _ => none

/-- the event whose reference the loop gave up, and which it is still to destroy or to send -/
def EventSys.loopHand (sys : EventSys S T D E M) : Option E :=
  match sys.ctl with
  | .dispatched _ e => some e
  | _ => sys.fetching.map Prod.snd

def EventSys.inHand (sys : EventSys S T D E M) : List E :=
  sys.loopHand.toList ++ sys.unlocking.map Prod.fst

/-! ## what the watcher of a run keeps -/

def EventOp.creates : EventOp T D E M → Option E
  | .create _ _ answer => answer
  | .signal _ _ _ answer => answer
  | _ => none

/-- the events that a call gave back -/
def newFrees (sys sys' : EventSys S T D E M) : List E :=
  (sys'.frees.map Prod.snd).take (sys'.frees.length - sys.frees.length)

/-- the events that a call sends or unlocks -/
def EventOp.sends (sys : EventSys S T D E M) : EventOp T D E M → List E
  | .send _ e => [e]
  | .signal _ _ _ answer => answer.toList
  | .fetchSend => (sys.fetching.map Prod.snd).toList
  | .unlock e => [e]
  | _ => []

def madeBy (live : E → Bool) (op : EventOp T D E M) : E → Bool :=
  fun e => live e || decide (op.creates = some e)

def eventsLiveAfter (live : E → Bool) (op : EventOp T D E M) (sys sys' : EventSys S T D E M) :
    E → Bool := without (madeBy live op) (newFrees sys sys')

def eventsSentAfter (sent : E → Bool) (op : EventOp T D E M) (sys : EventSys S T D E M) : E → Bool :=
  fun e => (sent e && !decide (op.creates = some e)) || decide (e ∈ op.sends sys)

def LegalEventOp (static live : E → Bool) (sys : EventSys S T D E M) : EventOp T D E M → Prop
  | .create _ _ answer => ∀ e, answer = some e → static e = false ∧ live e = false
  | .signal _ _ _ answer => ∀ e, answer = some e → static e = false ∧ live e = false
  | .send _ e => static e = true ∨ live e = true
  | .defer _ e => static e = true ∨ live e = true
  | .lock e => static e = true ∨ live e = true
  | .unlock e => static e = true ∨ live e = true
  | .unlockRead => True
  | .unlockFree => True
  -- the steps of the loop, which no `nevent_unlock` is interrupted by
  | .fetch t _ => sys.ctl.current = some t ∧ sys.fetching = none ∧ sys.unlocking = []
  | .fetchSend => sys.unlocking = []
  | .initStart _ => sys.ctl = .loop ∧ sys.unlocking = []
  | .initFinish => sys.fetching = none ∧ sys.unlocking = []
  | .start t => sys.ctl = .loop ∧ nqueueIsEmpty (sys.queue t) = false ∧ sys.unlocking = []
  | .returns => sys.fetching = none ∧ sys.unlocking = []
  | .finish => sys.unlocking = []

/-- the events that were sent or unlocked, but for those in hand -/
def EventSys.outOfHand (sys : EventSys S T D E M) (sent : E → Bool) : E → Bool :=
  fun e => sent e && !decide (e ∈ sys.inHand)

structure EventsSound (sys : EventSys S T D E M) (static live sent : E → Bool) : Prop where
  counted : RefsCounted sys.toEpaCtx static live (sys.outOfHand sent)
  inHand : ∀ e ∈ sys.inHand, static e = true ∨ live e = true

structure EventOpFits (sys : EventSys S T D E M) (op : EventOp T D E M) : Prop where
  /-- no `nepa_defer_event` that finds room is called on a dynamic event whose counter is `INT32_MAX` -/
  defer : ∀ d e, op = .defer d e → nqueueIsFull (sys.deferred d) = false →
    (sys.event e).attrib ≠ 0#32 → (sys.event e).ref ≠ int32Max
  /-- no event in hand, in no queue and not reserved, is sent to an agent whose queue is full -/
  send : ∀ t e, op = .send t e → e ∈ sys.inHand → nqueueIsFull (sys.queue t) = true →
    neventRef (sys.event e) ≠ 0
  /-- the event that `nevent_unlock` gives back is in no queue again and in no other hand -/
  unlockFree : ∀ e us, op = .unlockFree → sys.unlocking = (e, true) :: us →
    (sys.event e).ref = 0#32 ∧ sys.loopHand ≠ some e ∧ e ∉ us.map Prod.fst

/-- what holds between the calls -/
structure EventsInv (sys : EventSys S T D E M) (static live sent : E → Bool) : Prop where
  ok : EventsOk sys.toEpaCtx static live (sys.outOfHand sent)
  loopHand : ∀ e, sys.loopHand = some e → static e = true ∨ live e = true
  unlocking : ∀ e ∈ sys.unlocking.map Prod.fst, live e = true
  /-- an event is fetched for the agent whose state machine runs -/
  fetching : ∀ t e, sys.fetching = some (t, e) → sys.ctl.current = some t

section
variable {sch : Scheduler S T} {saturates : Bool} {sys sys' : EventSys S T D E M}
  {static live sent : E → Bool} {op : EventOp T D E M} {t : T} {d : D} {e : E}

theorem EventSys.mem_inHand :
    e ∈ sys.inHand ↔ sys.loopHand = some e ∨ e ∈ sys.unlocking.map Prod.fst := by
  unfold EventSys.inHand
  rw [List.mem_append, Option.mem_toList]

theorem EventsInv.inHand (h : EventsInv sys static live sent) :
    ∀ e ∈ sys.inHand, static e = true ∨ live e = true := by
  intro e he
  rcases EventSys.mem_inHand.mp he with he | he
  · exact h.loopHand e he
  · exact .inr (h.unlocking e he)

theorem EventsInv.sound (h : EventsInv sys static live sent) : EventsSound sys static live sent :=
  ⟨h.ok.refs, h.inHand⟩

/-! ### what is in hand -/

namespace EventSys

theorem loopHand_dispatched (hctl : sys.ctl = .dispatched t e) : sys.loopHand = some e := by
  unfold loopHand
  rw [hctl]

theorem loopHand_none (hctl : ∀ t e, sys.ctl ≠ .dispatched t e) (hf : sys.fetching = none) :
    sys.loopHand = none := by
  unfold loopHand
  split
  · exact absurd ‹_› (hctl _ _)
  · rw [hf]
    rfl

theorem loopHand_fetching (hctl : ∀ t e, sys.ctl ≠ .dispatched t e)
    (hf : sys.fetching = some (t, e)) : sys.loopHand = some e := by
  unfold loopHand
  split
  · exact absurd ‹_› (hctl _ _)
  · rw [hf]
    rfl

theorem loopHand_congr (hctl : sys'.ctl = sys.ctl) (hf : sys'.fetching = sys.fetching) :
    sys'.loopHand = sys.loopHand := by
  unfold loopHand
  rw [hctl, hf]

theorem inHand_congr (hloop : sys'.loopHand = sys.loopHand)
    (hun : sys'.unlocking.map Prod.fst = sys.unlocking.map Prod.fst) : sys'.inHand = sys.inHand := by
  unfold inHand
  rw [hloop, hun]

theorem inHand_nil (hloop : sys.loopHand = none) (hun : sys.unlocking = []) : sys.inHand = [] := by
  unfold inHand
  rw [hloop, hun]
  rfl

theorem inHand_singleton (hloop : sys.loopHand = some e) (hun : sys.unlocking = []) :
    sys.inHand = [e] := by
  unfold inHand
  rw [hloop, hun]
  rfl

theorem outOfHand_nil (hnil : sys.inHand = []) (sent : E → Bool) : sys.outOfHand sent = sent := by
  funext e
  unfold outOfHand
  rw [hnil]
  simp

/-- the event in hand does not count as sent -/
theorem outOfHand_singleton (hone : sys.inHand = [e]) (sent : E → Bool) :
    sys.outOfHand sent = Function.update sent e false := by
  funext x
  unfold outOfHand
  rw [hone]
  by_cases hx : x = e
  · rw [hx, Function.update_self]
    simp
  · rw [Function.update_of_ne hx]
    simp [hx]

theorem outOfHand_congr (h : sys'.inHand = sys.inHand) (sent : E → Bool) :
    sys'.outOfHand sent = sys.outOfHand sent := by
  unfold outOfHand
  rw [h]

end EventSys

theorem EpaCtl.current_ne {ctl : EpaCtl T E} (h : ctl.current = some t) :
    ∀ t e, ctl ≠ .dispatched t e := by
  rintro t e rfl
  cases h

/-! ### what a call gives back -/

theorem Frees.newFrees_eq {fs : List E} (h : Frees sys.toEpaCtx sys'.toEpaCtx live fs) :
    newFrees sys sys' = fs := by
  have hlen := congrArg List.length h.frees
  rw [List.length_map, List.length_append, List.length_map] at hlen
  unfold newFrees
  rw [h.frees, List.take_append_of_le_length (by omega), List.take_of_length_le (by omega)]

theorem madeBy_of_none (live : E → Bool) (h : op.creates = none) : madeBy live op = live := by
  funext e
  unfold madeBy
  rw [h]
  simp

theorem madeBy_of_some (live : E → Bool) (h : op.creates = some e) :
    madeBy live op = Function.update live e true := by
  funext x
  unfold madeBy
  rw [h]
  by_cases hx : x = e
  · rw [hx, Function.update_self]
    simp
  · rw [Function.update_of_ne hx]
    simp [Ne.symm hx]

theorem eventsSentAfter_nil (sent : E → Bool) (hop : op.creates = none) (hs : op.sends sys = []) :
    eventsSentAfter sent op sys = sent := by
  funext x
  unfold eventsSentAfter
  rw [hop, hs]
  simp

theorem eventsSentAfter_singleton (sent : E → Bool) (hop : op.creates = none)
    (hs : op.sends sys = [e]) : eventsSentAfter sent op sys = Function.update sent e true := by
  funext x
  unfold eventsSentAfter
  rw [hop, hs]
  by_cases hx : x = e
  · rw [hx, Function.update_self]
    simp
  · rw [Function.update_of_ne hx]
    simp [hx]

theorem eventsSentAfter_create (sent : E → Bool) (hop : op.creates = some e)
    (hs : op.sends sys = [] ∨ op.sends sys = [e]) : eventsSentAfter sent op sys
      = Function.update sent e (decide (op.sends sys = [e])) := by
  funext x
  unfold eventsSentAfter
  rw [hop]
  by_cases hx : x = e
  · rw [hx, Function.update_self]
    rcases hs with hs | hs
    · rw [hs]
      simp
    · rw [hs]
      simp
  · rw [Function.update_of_ne hx]
    rcases hs with hs | hs
    · rw [hs]
      simp [Ne.symm hx]
    · rw [hs]
      simp [hx, Ne.symm hx]

/-! ## the calls -/

/-- a call that leaves the loop where it stands -/
def EventOp.isCall : EventOp T D E M → Bool
  | .create .. => true
  | .send .. => true
  | .signal .. => true
  | .defer .. => true
  | .lock .. => true
  | _ => false

/-- what such a call gives back -/
def EventOp.callFrees (sys : EventSys S T D E M) : EventOp T D E M → List E
  | .send t e => sendFrees sys.toEpaCtx t e
  | .signal t eventId mem (some e) =>
    sendFrees (sys.withMem (eventInit sys.toEventMem e eventId mem)) t e
  | _ => []

theorem mem_sendFrees {ctx : EpaCtx S T D E M} {x : E} (hx : x ∈ sendFrees ctx t e) :
    x = e ∧ nqueueIsFull (ctx.queue t) = true ∧ neventRef (ctx.event e) = 0 := by
  unfold sendFrees at hx
  split at hx
  · exact ⟨List.mem_singleton.mp hx, ‹_›⟩
  · cases hx

theorem mem_callFrees {x : E} (hx : x ∈ op.callFrees sys) : op.creates = some x ∨
    ∃ t, op = .send t x ∧ nqueueIsFull (sys.queue t) = true ∧ neventRef (sys.event x) = 0 := by
  cases op with
  | send t e =>
    obtain ⟨rfl, hfull, hzero⟩ := mem_sendFrees hx
    exact .inr ⟨t, rfl, hfull, hzero⟩
  | signal t eventId mem answer =>
    cases answer with
    | none => cases hx
    | some e =>
      obtain ⟨rfl, _⟩ := mem_sendFrees hx
      exact .inl rfl
  | _ => cases hx

/-- what is known after such a call -/
structure CallOk (sys sys' : EventSys S T D E M) (static live sent : E → Bool)
    (op : EventOp T D E M) : Prop where
  frees : Frees sys.toEpaCtx sys'.toEpaCtx (madeBy live op) (op.callFrees sys)
  ok : EventsOk sys'.toEpaCtx static (without (madeBy live op) (op.callFrees sys))
    (eventsSentAfter sent op sys)
  ctl : sys'.ctl = sys.ctl
  fetching : sys'.fetching = sys.fetching
  unlocking : sys'.unlocking = sys.unlocking

theorem update_false_le (sent : E → Bool) (x : E) (hx : Function.update sent e false x = true) :
    sent x = true := by
  by_cases hxe : x = e
  · rw [hxe, Function.update_self] at hx
    cases hx
  · rwa [Function.update_of_ne hxe] at hx

theorem update_true_ge (sent : E → Bool) (x : E) (hx : sent x = true) :
    Function.update sent e true x = true := by
  by_cases hxe : x = e
  · rw [hxe, Function.update_self]
  · rwa [Function.update_of_ne hxe]

namespace EventsOk

theorem call (h : EventsOk sys.toEpaCtx static live sent) (hcall : op.isCall = true)
    (hl : LegalEventOp static live sys op)
    (hfit : ∀ d e, op = .defer d e → nqueueIsFull (sys.deferred d) = false →
      (sys.event e).attrib ≠ 0#32 → (sys.event e).ref ≠ int32Max)
    (hrun : runEventOp sch saturates sys op = .ok sys') :
    CallOk sys sys' static live sent op := by
  cases op with
  | create id mem answer =>
    obtain rfl := Except.ok.inj hrun
    cases answer with
    | none =>
      refine ⟨Frees.refl _ rfl, ?_, rfl, rfl, rfl⟩
      show EventsOk _ _ (without _ []) _
      rw [madeBy_of_none live rfl, eventsSentAfter_nil sent rfl rfl, without_nil]
      exact h
    | some e =>
      obtain ⟨hs, hlive⟩ := hl e rfl
      refine ⟨Frees.refl _ rfl, ?_, rfl, rfl, rfl⟩
      show EventsOk _ _ (without _ []) _
      rw [madeBy_of_some live rfl, eventsSentAfter_create sent rfl (.inl rfl), without_nil]
      exact h.create hs hlive id mem
  | send t e =>
    obtain ⟨⟨error, ctx₁⟩, hsend, hrun⟩ := bind_eq_ok.mp hrun
    obtain rfl := Except.ok.inj hrun
    obtain ⟨hfrees, hok, _, hctl⟩ := (h.mono (update_false_le sent)).send hl hsend
    refine ⟨?_, ?_, hctl, rfl, rfl⟩
    · rw [madeBy_of_none live rfl]
      exact hfrees
    · rw [madeBy_of_none live rfl, eventsSentAfter_singleton sent rfl rfl]
      exact hok
  | signal t eventId mem answer =>
    cases answer with
    | none =>
      obtain rfl := Except.ok.inj hrun
      refine ⟨Frees.refl _ rfl, ?_, rfl, rfl, rfl⟩
      show EventsOk _ _ (without _ []) _
      rw [madeBy_of_none live rfl, eventsSentAfter_nil sent rfl rfl, without_nil]
      exact h
    | some e =>
      obtain ⟨⟨error, ctx₁⟩, hsend, hrun⟩ := bind_eq_ok.mp hrun
      obtain rfl := Except.ok.inj hrun
      obtain ⟨hs, hlive⟩ := hl e rfl
      obtain ⟨hfrees, hok, _, hctl⟩ := (h.create hs hlive eventId mem).send
        (.inr (Function.update_self ..)) hsend
      refine ⟨?_, ?_, hctl, rfl, rfl⟩
      · rw [madeBy_of_some live rfl]
        exact ⟨hfrees.frees, hfrees.nodup, hfrees.live⟩
      · rw [madeBy_of_some live rfl, eventsSentAfter_create sent rfl (.inr rfl),
          decide_eq_true (show EventOp.sends sys (.signal t eventId mem (some e)) = [e] from rfl)]
        exact hok
  | defer d e =>
    obtain rfl := Except.ok.inj hrun
    obtain ⟨hfrees, hok⟩ := h.deferEvent saturates hl (hfit d e rfl)
    refine ⟨?_, ?_, ?_, rfl, rfl⟩
    · rw [madeBy_of_none live rfl]
      exact hfrees
    · show EventsOk _ _ (without _ []) _
      rw [madeBy_of_none live rfl, eventsSentAfter_nil sent rfl rfl, without_nil]
      exact hok
    · show (nepaDeferEvent saturates sys.toEpaCtx d e).2.ctl = sys.ctl
      unfold nepaDeferEvent
      split <;> rfl
  | lock e =>
    obtain rfl := Except.ok.inj hrun
    obtain ⟨hfrees, hok⟩ := h.lock hl
    refine ⟨?_, ?_, rfl, rfl, rfl⟩
    · rw [madeBy_of_none live rfl]
      exact hfrees
    · show EventsOk _ _ (without _ []) _
      rw [madeBy_of_none live rfl, eventsSentAfter_nil sent rfl rfl, without_nil]
      exact hok
  | _ => cases hcall

theorem setCtl {ctx : EpaCtx S T D E M} (h : EventsOk ctx static live sent) {ctl : EpaCtl T E}
    {sched : S} (hc : ∀ e, ctl.holds e = ctx.ctl.holds e) :
    EventsOk { ctx with ctl := ctl, sched := sched } static live sent := by
  refine ⟨h.queue, h.deferred, fun e => ?_⟩
  have hpl : places { ctx with ctl := ctl, sched := sched } e = places ctx e := by
    unfold places
    show _ + _ + ctl.holds e = _
    rw [hc]
  rw [hpl]
  exact h.refs e

end EventsOk

/-! ## one step -/

/-- what a step that is made keeps -/
structure EventStepOk (sys sys' : EventSys S T D E M) (static live sent : E → Bool)
    (op : EventOp T D E M) : Prop where
  inv : EventsInv sys' static (eventsLiveAfter live op sys sys') (eventsSentAfter sent op sys)
  nodup : (newFrees sys sys').Nodup
  freed : ∀ e ∈ newFrees sys sys', static e = false ∧ madeBy live op e = true

namespace EventsInv

theorem static_of_live (h : EventsInv sys static live sent) (hl : live e = true) : static e = false :=
  Bool.eq_false_of_not_eq_true ((h.ok.refs e).not_static hl)

theorem fetching_none (h : EventsInv sys static live sent) (hctl : sys.ctl.current = none) :
    sys.fetching = none := by
  cases hf : sys.fetching with
  | none => rfl
  | some x =>
    rw [h.fetching x.1 x.2 hf] at hctl
    cases hctl

theorem step_out {fs : List E} (h : EventsInv sys static live sent) (hop : op.creates = none)
    (hf : Frees sys.toEpaCtx sys'.toEpaCtx live fs)
    (hok : EventsOk sys'.toEpaCtx static (without live fs) (eventsSentAfter sent op sys))
    (hctl : ∀ t e, sys'.ctl ≠ .dispatched t e) (hfetch : sys'.fetching = none)
    (hun : sys'.unlocking = []) : EventStepOk sys sys' static live sent op := by
  have hmade := madeBy_of_none live hop
  have hloop := EventSys.loopHand_none hctl hfetch
  refine ⟨⟨?_, fun e he => ?_, fun e he => ?_, fun t e he => ?_⟩, ?_, fun e he => ?_⟩
  · rw [EventSys.outOfHand_nil (EventSys.inHand_nil hloop hun), eventsLiveAfter, hmade, hf.newFrees_eq]
    exact hok
  · rw [hloop] at he
    cases he
  · rw [hun] at he
    cases he
  · rw [hfetch] at he
    cases he
  · rw [hf.newFrees_eq]
    exact hf.nodup
  · rw [hf.newFrees_eq] at he
    rw [hmade]
    exact ⟨h.static_of_live (hf.live e he), hf.live e he⟩

theorem step_kept (hop : op.creates = none) (hf : sys'.frees = sys.frees)
    (hinv : EventsInv sys' static live (eventsSentAfter sent op sys)) :
    EventStepOk sys sys' static live sent op := by
  have hfrees : Frees sys.toEpaCtx sys'.toEpaCtx live [] := Frees.refl live hf
  have hlive : eventsLiveAfter live op sys sys' = live := by
    rw [eventsLiveAfter, madeBy_of_none live hop, hfrees.newFrees_eq, without_nil]
  refine ⟨?_, ?_, fun e he => ?_⟩
  · rw [hlive]
    exact hinv
  · rw [hfrees.newFrees_eq]
    exact List.nodup_nil
  · rw [hfrees.newFrees_eq] at he
    cases he

theorem step_refl (h : EventsInv sys static live sent) (hop : op.creates = none)
    (hs : op.sends sys = []) (hf : sys'.frees = sys.frees)
    (hok : EventsOk sys'.toEpaCtx static live (sys.outOfHand sent))
    (hloop : sys'.loopHand = sys.loopHand)
    (hun : sys'.unlocking.map Prod.fst = sys.unlocking.map Prod.fst)
    (hfetch : ∀ t e, sys'.fetching = some (t, e) → sys'.ctl.current = some t) :
    EventStepOk sys sys' static live sent op := by
  refine step_kept hop hf ⟨?_, fun e he => ?_, fun e he => ?_, hfetch⟩
  · rw [eventsSentAfter_nil sent hop hs, EventSys.outOfHand_congr (EventSys.inHand_congr hloop hun)]
    exact hok
  · rw [hloop] at he
    exact h.loopHand e he
  · rw [hun] at he
    exact h.unlocking e he

theorem step_take (hop : op.creates = none) (hs : op.sends sys = []) (hf : sys'.frees = sys.frees)
    (hloop : sys'.loopHand = some e) (hun : sys'.unlocking = [])
    (hsl : static e = true ∨ live e = true)
    (hok : EventsOk sys'.toEpaCtx static live (Function.update sent e false))
    (hfetch : ∀ t e, sys'.fetching = some (t, e) → sys'.ctl.current = some t) :
    EventStepOk sys sys' static live sent op := by
  refine step_kept hop hf ⟨?_, fun x hx => ?_, fun x hx => ?_, hfetch⟩
  · rw [eventsSentAfter_nil sent hop hs,
      EventSys.outOfHand_singleton (EventSys.inHand_singleton hloop hun)]
    exact hok
  · rw [hloop] at hx
    rw [← Option.some.inj hx]
    exact hsl
  · rw [hun] at hx
    cases hx

theorem spared (h : EventsInv sys static live sent) (hl : LegalEventOp static live sys op)
    (hfit : EventOpFits sys op) (hin : e ∈ sys.inHand) : e ∉ op.callFrees sys := by
  intro he
  rcases mem_callFrees he with hc | ⟨t, hop, hfull, hzero⟩
  · have hnew : static e = false ∧ live e = false := by
      cases op with
      | create id mem answer => exact hl e hc
      | signal t eventId mem answer => exact hl e hc
      | _ => cases hc
    rcases h.inHand e hin with hs | hlive
    · rw [hnew.1] at hs
      cases hs
    · rw [hnew.2] at hlive
      cases hlive
  · exact hfit.send t e hop hin hfull hzero

theorem step_call (h : EventsInv sys static live sent) (hl : LegalEventOp static live sys op)
    (hfit : EventOpFits sys op) (hc : CallOk sys sys' static live (sys.outOfHand sent) op) :
    EventStepOk sys sys' static live sent op := by
  have hloop := EventSys.loopHand_congr hc.ctl hc.fetching
  have hin := EventSys.inHand_congr hloop (congrArg _ hc.unlocking)
  have hnew := hc.frees.newFrees_eq
  have hlive : ∀ e ∈ sys.inHand, live e = true → eventsLiveAfter live op sys sys' e = true := by
    intro e he hl'
    unfold eventsLiveAfter without madeBy
    rw [hnew, hl', decide_eq_false (h.spared hl hfit he)]
    rfl
  refine ⟨⟨?_, fun e he => ?_, fun e he => ?_, ?_⟩, ?_, fun e he => ?_⟩
  · rw [eventsLiveAfter, hnew]
    refine hc.ok.mono fun x hx => ?_
    rw [EventSys.outOfHand_congr hin] at hx
    unfold eventsSentAfter EventSys.outOfHand at hx ⊢
    obtain ⟨hx, hout⟩ := Bool.and_eq_true_iff.mp hx
    rcases Bool.or_eq_true_iff.mp hx with hx | hx
    · obtain ⟨hx, hcreate⟩ := Bool.and_eq_true_iff.mp hx
      rw [hx, hout, hcreate]
      rfl
    · rw [hx, Bool.or_true]
  · rw [hloop] at he
    exact (h.loopHand e he).imp id (hlive e (EventSys.mem_inHand.mpr (.inl he)))
  · rw [hc.unlocking] at he
    exact hlive e (EventSys.mem_inHand.mpr (.inr he)) (h.unlocking e he)
  · rw [hc.ctl, hc.fetching]
    exact h.fetching
  · rw [hnew]
    exact hc.frees.nodup
  · rw [hnew] at he
    refine ⟨?_, hc.frees.live e he⟩
    have hmade := hc.frees.live e he
    unfold madeBy at hmade
    rcases Bool.or_eq_true_iff.mp hmade with hl' | hcreate
    · exact h.static_of_live hl'
    · have hcreate := of_decide_eq_true hcreate
      cases op with
      | create id mem answer => exact (hl e hcreate).1
      | signal t eventId mem answer => exact (hl e hcreate).1
      | _ => cases hcreate

theorem step_static (h : EventsInv sys static live sent) (hattrib : (sys.event e).attrib = 0#32) :
    EventStepOk sys sys static live sent (.unlock e) := by
  have hlive : ¬ live e = true := fun hl => (h.ok.refs e).attrib_ne hl hattrib
  refine step_kept rfl rfl ⟨?_, h.loopHand, h.unlocking, h.fetching⟩
  refine h.ok.change e h.ok.queue h.ok.deferred (fun x hx => ⟨rfl, rfl, rfl, fun hs => ?_⟩) ?_
  · rw [eventsSentAfter_singleton (e := e) sent rfl rfl] at hs
    unfold EventSys.outOfHand at hs ⊢
    rwa [Function.update_of_ne hx] at hs
  · have hat := h.ok.refs e
    exact ⟨hat.static, hat.attrib, hat.count, hat.freed, fun hl => absurd hl hlive⟩

/-- **`nevent_unlock`** takes an event that is not static in hand. -/
theorem step_unlock (h : EventsInv sys static live sent) (hl : static e = true ∨ live e = true)
    (hattrib : (sys.event e).attrib ≠ 0#32) :
    EventStepOk sys { sys with
      toEpaCtx := sys.withMem (neventUnreserve sys.toEventMem e)
      unlocking := (e, false) :: sys.unlocking } static live sent (.unlock e) := by
  have hlive : live e = true := hl.resolve_left fun hs => hattrib ((h.ok.refs e).static hs).1
  refine step_kept rfl rfl ⟨(h.ok.unreserve hlive).mono fun x hx => ?_, h.loopHand,
    fun x hx => ?_, h.fetching⟩
  · obtain ⟨hx, hout⟩ := Bool.and_eq_true_iff.mp hx
    have hout : x ∉ EventSys.inHand _ := of_decide_eq_false ((Bool.not_eq_true' _).mp hout)
    rw [EventSys.mem_inHand, not_or] at hout
    obtain ⟨hloop, hun⟩ := hout
    have hxe : x ≠ e := fun hxe => hun (hxe ▸ List.mem_cons_self)
    rw [eventsSentAfter_singleton (e := e) sent rfl rfl, Function.update_of_ne hxe] at hx
    rw [Function.update_of_ne hxe]
    unfold EventSys.outOfHand
    rw [hx, Bool.true_and, Bool.not_eq_true', decide_eq_false_iff_not, EventSys.mem_inHand, not_or]
    exact ⟨hloop, fun hx' => hun (List.mem_cons_of_mem _ hx')⟩
  · rcases List.mem_cons.mp hx with rfl | hx
    · exact hlive
    · exact h.unlocking x hx

/-- **It reads the counter**, and lets go of an event that is in some place. -/
theorem step_unlockRead (h : EventsInv sys static live sent) {us : List (E × Bool)}
    (hun : sys.unlocking = (e, false) :: us) :
    EventStepOk sys { sys with
      unlocking := if (sys.event e).ref = 0#32 then (e, true) :: us else us } static live sent
      .unlockRead := by
  by_cases href : (sys.event e).ref = 0#32
  · rw [if_pos href]
    have hfst : ((e, true) :: us).map Prod.fst = sys.unlocking.map Prod.fst := by
      rw [hun]
      rfl
    exact h.step_refl rfl rfl rfl h.ok rfl hfst h.fetching
  · rw [if_neg href]
    refine step_kept rfl rfl ⟨?_, h.loopHand, fun x hx => h.unlocking x ?_, h.fetching⟩
    · rw [eventsSentAfter_nil sent rfl rfl]
      refine h.ok.sent_of_ref href fun x hx hs => ?_
      unfold EventSys.outOfHand at hs ⊢
      have hsame : x ∈ sys.inHand ↔ x ∈ EventSys.inHand { sys with unlocking := us } := by
        rw [EventSys.mem_inHand, EventSys.mem_inHand, hun, List.map_cons, List.mem_cons,
          or_iff_right hx]
        exact Iff.rfl
      rw [decide_eq_decide.mpr hsame]
      exact hs
    · rw [hun]
      exact List.mem_cons_of_mem _ hx

/-- **It gives the event back.** -/
theorem step_unlockFree (h : EventsInv sys static live sent) {us : List (E × Bool)}
    (hun : sys.unlocking = (e, true) :: us)
    (hfit : (sys.event e).ref = 0#32 ∧ sys.loopHand ≠ some e ∧ e ∉ us.map Prod.fst) :
    EventStepOk sys { sys with
      toEpaCtx := sys.withMem (sys.toEventMem.nmemFreeI e)
      unlocking := us } static live sent .unlockFree := by
  obtain ⟨href, hloop, hus⟩ := hfit
  have hl : live e = true := h.unlocking e (by rw [hun]; exact List.mem_cons_self)
  have hn := ((h.ok.refs e).ref_eq_zero_iff hl).mp href
  let sys' : EventSys S T D E M := { sys with
    toEpaCtx := sys.withMem (sys.toEventMem.nmemFreeI e)
    unlocking := us }
  have hsent : ∀ x, x ≠ e → sys'.outOfHand sent x = true → sys.outOfHand sent x = true := by
    intro x hx hs
    unfold EventSys.outOfHand at hs ⊢
    have hsame : x ∈ sys.inHand ↔ x ∈ sys'.inHand := by
      rw [EventSys.mem_inHand, EventSys.mem_inHand, hun, List.map_cons, List.mem_cons,
        or_iff_right hx]
      exact Iff.rfl
    rw [decide_eq_decide.mpr hsame]
    exact hs
  obtain ⟨hfrees, hok⟩ := h.ok.unlockFree hl hn hsent
  have hnew : newFrees sys sys' = [e] := Frees.newFrees_eq hfrees
  have hlive : eventsLiveAfter live .unlockFree sys sys' = without live [e] := by
    unfold eventsLiveAfter
    rw [madeBy_of_none live rfl, hnew]
  have hkept : ∀ x, x ≠ e → live x = true → without live [e] x = true := by
    intro x hx hlx
    simp [without, hx, hlx]
  show EventStepOk sys sys' static live sent .unlockFree
  refine ⟨⟨?_, fun x hx => ?_, fun x hx => ?_, h.fetching⟩, ?_, fun x hx => ?_⟩
  · rw [hlive, eventsSentAfter_nil sent rfl rfl]
    exact hok
  · have hx : sys.loopHand = some x := hx
    rw [hlive]
    refine (h.loopHand x hx).imp id (hkept x fun hxe => hloop ?_)
    rw [hx, hxe]
  · have hx : x ∈ us.map Prod.fst := hx
    rw [hlive]
    refine hkept x (fun hxe => hus (hxe ▸ hx)) (h.unlocking x ?_)
    rw [hun]
    exact List.mem_cons_of_mem _ hx
  · rw [hnew]
    exact List.nodup_singleton e
  · rw [hnew] at hx
    rw [List.mem_singleton.mp hx, madeBy_of_none live rfl]
    exact ⟨h.static_of_live hl, hl⟩

theorem step_same (h : EventsInv sys static live sent) (hop : op.creates = none)
    (hs : op.sends sys = []) : EventStepOk sys sys static live sent op :=
  h.step_refl hop hs rfl h.ok rfl rfl h.fetching

theorem step_fetch (h : EventsInv sys static live sent)
    (hl : LegalEventOp static live sys (.fetch t d))
    (hrun : runEventOp sch saturates sys (.fetch t d) = .ok sys') :
    EventStepOk sys sys' static live sent (.fetch t d) := by
  obtain ⟨hcur, hnone, hun⟩ := hl
  by_cases hempty : nqueueIsEmpty (sys.deferred d) = false
  · simp only [runEventOp, if_pos hempty] at hrun
    have hne : nqueueItems (sys.deferred d) ≠ [] := by
      rw [Ne, ← (h.ok.deferred d).isEmpty_iff, hempty]
      exact Bool.false_ne_true
    obtain ⟨e, rest, hitems⟩ := List.exists_cons_of_ne_nil hne
    obtain ⟨hget, _⟩ := nqueueGet_ok (h.ok.deferred d) hitems
    obtain ⟨hok, hsl, _⟩ := h.ok.take_deferred saturates hitems
    have hloop := EventSys.loopHand_none (EpaCtl.current_ne hcur) hnone
    rw [EventSys.outOfHand_nil (EventSys.inHand_nil hloop hun)] at hok
    rw [hget] at hrun
    obtain rfl := Except.ok.inj hrun
    refine step_take rfl rfl rfl
      (EventSys.loopHand_fetching (t := t) (EpaCtl.current_ne hcur) rfl) hun hsl hok fun t' e' he => ?_
    rw [← (Prod.mk.inj (Option.some.inj he)).1]
    exact hcur
  · simp only [runEventOp, if_neg hempty] at hrun
    obtain rfl := Except.ok.inj hrun
    exact h.step_same rfl rfl

theorem step_fetchSend (h : EventsInv sys static live sent) (hun : sys.unlocking = [])
    (hrun : runEventOp sch saturates sys .fetchSend = .ok sys') :
    EventStepOk sys sys' static live sent .fetchSend := by
  cases hf : sys.fetching with
  | none =>
    simp only [runEventOp, hf] at hrun
    obtain rfl := Except.ok.inj hrun
    refine h.step_same rfl ?_
    unfold EventOp.sends
    rw [hf]
    rfl
  | some x =>
    obtain ⟨t, e⟩ := x
    simp only [runEventOp, hf] at hrun
    obtain ⟨⟨error, ctx₁⟩, hsend, hrun⟩ := bind_eq_ok.mp hrun
    obtain rfl := Except.ok.inj hrun
    have hcur := h.fetching t e hf
    have hloop := EventSys.loopHand_fetching (EpaCtl.current_ne hcur) hf
    have hok := h.ok
    rw [EventSys.outOfHand_singleton (EventSys.inHand_singleton hloop hun)] at hok
    obtain ⟨hfrees, hok', _, hctl⟩ := hok.send (h.loopHand e hloop) hsend
    refine h.step_out rfl hfrees ?_ ?_ rfl hun
    · rw [eventsSentAfter_singleton (e := e) sent rfl (by unfold EventOp.sends; rw [hf]; rfl)]
      exact hok'
    · intro t' e' hc
      exact EpaCtl.current_ne hcur t' e' (hctl.symm.trans hc)

/-- the loop goes on with no event in hand, before the step and after it -/
theorem step_idle {ctl : EpaCtl T E} {sched : S} {queue : T → Nqueue E}
    (h : EventsInv sys static live sent) (hop : op.creates = none) (hs : op.sends sys = [])
    (hok : EventsOk { sys.toEpaCtx with ctl := ctl, sched := sched, queue := queue } static live
      (sys.outOfHand sent))
    (hbefore : ∀ t e, sys.ctl ≠ .dispatched t e) (hafter : ∀ t e, ctl ≠ .dispatched t e)
    (hnone : sys.fetching = none) :
    EventStepOk sys { sys with ctl := ctl, sched := sched, queue := queue } static live sent op := by
  refine h.step_refl hop hs rfl hok ?_ rfl fun t e he => ?_
  · rw [EventSys.loopHand_none hbefore hnone]
    exact EventSys.loopHand_none hafter hnone
  · rw [show sys.fetching = some (t, e) from he] at hnone
    cases hnone

theorem step_initFinish (h : EventsInv sys static live sent) (hnone : sys.fetching = none)
    (hrun : runEventOp sch saturates sys .initFinish = .ok sys') :
    EventStepOk sys sys' static live sent .initFinish := by
  simp only [runEventOp] at hrun
  split at hrun
  · obtain ⟨ctx, hend, hrun⟩ := bind_eq_ok.mp hrun
    obtain ⟨sched, _, hend⟩ := bind_eq_ok.mp hend
    obtain rfl := Except.ok.inj hend
    obtain rfl := Except.ok.inj hrun
    have hctl := ‹sys.ctl = _›
    exact h.step_idle rfl rfl (h.ok.setCtl fun e => (by rw [hctl]; rfl))
      (by rw [hctl]; rintro _ _ ⟨⟩) (by rintro _ _ ⟨⟩) hnone
  · obtain rfl := Except.ok.inj hrun
    exact h.step_same rfl rfl

theorem step_returns (h : EventsInv sys static live sent)
    (hl : LegalEventOp static live sys .returns)
    (hrun : runEventOp sch saturates sys .returns = .ok sys') :
    EventStepOk sys sys' static live sent .returns := by
  simp only [runEventOp] at hrun
  split at hrun
  · obtain rfl := Except.ok.inj hrun
    have hctl := ‹sys.ctl = _›
    obtain ⟨hnone, hun⟩ := hl
    obtain ⟨hok, hsl⟩ := h.ok.returns saturates hctl
    have hloop := EventSys.loopHand_none (by rw [hctl]; rintro _ _ ⟨⟩) hnone
    rw [EventSys.outOfHand_nil (EventSys.inHand_nil hloop hun)] at hok
    refine step_take rfl rfl rfl rfl hun hsl hok fun t e he => ?_
    rw [show sys.fetching = some (t, e) from he] at hnone
    cases hnone
  · obtain rfl := Except.ok.inj hrun
    exact h.step_same rfl rfl

theorem step_finish (h : EventsInv sys static live sent) (hun : sys.unlocking = [])
    (hrun : runEventOp sch saturates sys .finish = .ok sys') :
    EventStepOk sys sys' static live sent .finish := by
  cases hctl : sys.ctl with
  | dispatched t e =>
    simp only [runEventOp, hctl] at hrun
    obtain ⟨ctx, hend, hrun⟩ := bind_eq_ok.mp hrun
    obtain rfl := Except.ok.inj hrun
    have hloop := EventSys.loopHand_dispatched hctl
    have hok := h.ok
    rw [EventSys.outOfHand_singleton (EventSys.inHand_singleton hloop hun)] at hok
    obtain ⟨hfrees, hok'⟩ := hok.finish (h.loopHand e hloop) hctl hend
    obtain ⟨sched, _, hend⟩ := bind_eq_ok.mp hend
    obtain rfl := Except.ok.inj hend
    refine h.step_out rfl hfrees ?_ (by rintro _ _ ⟨⟩) (h.fetching_none (by rw [hctl]; rfl)) hun
    rw [eventsSentAfter_nil sent rfl rfl]
    exact hok'.mono (update_true_ge sent)
  | _ =>
    simp only [runEventOp, hctl] at hrun
    obtain rfl := Except.ok.inj hrun
    exact h.step_same rfl rfl

theorem step (h : EventsInv sys static live sent) (hl : LegalEventOp static live sys op)
    (hfit : EventOpFits sys op) (hrun : runEventOp sch saturates sys op = .ok sys') :
    EventStepOk sys sys' static live sent op := by
  by_cases hcall : op.isCall = true
  · exact h.step_call hl hfit (h.ok.call hcall hl hfit.defer hrun)
  cases op with
  | fetch t d => exact h.step_fetch hl hrun
  | fetchSend => exact h.step_fetchSend hl hrun
  | initStart t =>
    obtain rfl := Except.ok.inj hrun
    obtain ⟨hctl, _⟩ := hl
    exact h.step_idle rfl rfl (h.ok.setCtl fun e => (by rw [hctl]; rfl))
      (by rw [hctl]; rintro _ _ ⟨⟩) (by rintro _ _ ⟨⟩) (h.fetching_none (by rw [hctl]; rfl))
  | initFinish => exact h.step_initFinish hl.1 hrun
  | start t =>
    obtain rfl := Except.ok.inj hrun
    obtain ⟨hctl, hempty, _⟩ := hl
    exact h.step_idle rfl rfl (h.ok.start hctl hempty) (by rw [hctl]; rintro _ _ ⟨⟩)
      (by rintro _ _ ⟨⟩) (h.fetching_none (by rw [hctl]; rfl))
  | returns => exact h.step_returns hl hrun
  | finish => exact h.step_finish hl hrun
  | unlock e =>
    by_cases hattrib : (sys.event e).attrib ≠ 0#32
    · simp only [runEventOp, if_pos hattrib] at hrun
      obtain rfl := Except.ok.inj hrun
      exact h.step_unlock hl hattrib
    · simp only [runEventOp, if_neg hattrib] at hrun
      obtain rfl := Except.ok.inj hrun
      exact h.step_static (not_not.mp hattrib)
  | unlockRead =>
    simp only [runEventOp] at hrun
    split at hrun
    · obtain rfl := Except.ok.inj hrun
      exact h.step_unlockRead ‹_›
    · obtain rfl := Except.ok.inj hrun
      exact h.step_same rfl rfl
  | unlockFree =>
    simp only [runEventOp] at hrun
    split at hrun
    · rename_i e us hun
      obtain rfl := Except.ok.inj hrun
      exact h.step_unlockFree hun (hfit.unlockFree e us rfl hun)
    · obtain rfl := Except.ok.inj hrun
      exact h.step_same rfl rfl
  | _ => exact absurd rfl hcall

end EventsInv

end

end NeonEds
