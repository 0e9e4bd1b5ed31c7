import NeonEds.Ep.Counted

/-!
# What the calls do to the events

One lemma for each function of `event.c` and `epa.c`, and for each part of one that interrupts may come
between: the events keep what their places ask for, and the events that are given back are live ones,
each given back once.  The only function here that may fault is the scheduler.
-/

set_option linter.unusedSectionVars false

namespace NeonEds
open Exec

variable {S T D E M : Type} [DecidableEq T] [DecidableEq D] [DecidableEq E] [Fintype T] [Fintype D]

section
variable {ctx ctx' : EpaCtx S T D E M} {static live sent : E → Bool} {e : E}

theorem count_of_items {qu qu' : Nqueue E} (h : nqueueItems qu = e :: nqueueItems qu') (x : E) :
    (nqueueItems qu).count x = (nqueueItems qu').count x + [e].count x := by
  rw [h, List.count_cons, List.count_singleton]

theorem nepaDeferEvent_room {d : D} (saturates : Bool)
    (hfull : nqueueIsFull (ctx.deferred d) = false) (e : E) :
    (nepaDeferEvent saturates ctx d e).2
      = (ctx.withMem (ctx.refUp saturates e)).setDeferred d (nqueuePutFifo (ctx.deferred d) e) := by
  unfold nepaDeferEvent
  rw [if_pos hfull]
  rfl

theorem places_deferEvent {d : D} (saturates : Bool) (h : QueueOk (ctx.deferred d))
    (hfull : nqueueIsFull (ctx.deferred d) = false) (e x : E) :
    places (nepaDeferEvent saturates ctx d e).2 x = places ctx x + [e].count x := by
  obtain ⟨_, hitems, _⟩ := nqueuePutFifo_ok h hfull e
  have hset : _ + (nqueueItems (ctx.deferred d)).count x = places ctx x + _ :=
    places_setDeferred (ctx.withMem (ctx.refUp saturates e)) d (nqueuePutFifo (ctx.deferred d) e) x
  rw [hitems, List.count_append] at hset
  rw [nepaDeferEvent_room saturates hfull]
  omega

/-- what `nepa_send_event_i` gives back -/
def sendFrees (ctx : EpaCtx S T D E M) (t : T) (e : E) : List E :=
  if nqueueIsFull (ctx.queue t) = true ∧ neventRef (ctx.event e) = 0 then [e] else []

/-- the front `e` of a deferred queue is taken, and its reference given up -/
def deferTake (saturates : Bool) (ctx : EpaCtx S T D E M) (d : D) (e : E) : EpaCtx S T D E M :=
  let ctx := ctx.setDeferred d (nqueueGet (ctx.deferred d)).2
  ctx.withMem (ctx.refDown saturates e)

namespace EventsOk

/-! ### the reservation of events -/

theorem lock (h : EventsOk ctx static live sent) (hsl : static e = true ∨ live e = true) :
    Frees ctx (ctx.withMem (neventLock ctx.toEventMem e)) live [] ∧
      EventsOk (ctx.withMem (neventLock ctx.toEventMem e)) static live sent := by
  by_cases hl : live e = true
  · have hmem : neventLock ctx.toEventMem e = EventMem.setEvent ctx.toEventMem e
        { ctx.event e with attrib := neventAttrReserved } := if_pos ((h.refs e).attrib_ne hl)
    rw [hmem]
    refine ⟨Frees.refl live rfl,
      h.change e h.queue h.deferred (fun x hx => ⟨Function.update_of_ne hx .., rfl, rfl, id⟩) ?_⟩
    show EventOkAt (Function.update ctx.event e _ e) _ _ _ _
    rw [Function.update_self]
    exact (h.refs e).lock hl
  · have hattr := ((h.refs e).static (hsl.resolve_right hl)).1
    have hmem : neventLock ctx.toEventMem e = ctx.toEventMem := if_neg (fun hc => hc hattr)
    rw [hmem]
    exact ⟨Frees.refl live rfl, h⟩

theorem unreserve (h : EventsOk ctx static live sent) (hl : live e = true) :
    EventsOk (ctx.withMem (neventUnreserve ctx.toEventMem e)) static live
      (Function.update sent e false) := by
  refine h.change e h.queue h.deferred
    (fun x hx => ⟨Function.update_of_ne hx .., rfl, rfl, fun hs => ?_⟩) ?_
  · rwa [Function.update_of_ne hx] at hs
  · show EventOkAt (Function.update ctx.event e _ e) _ _ _ _
    rw [Function.update_self, Function.update_self]
    exact (h.refs e).unreserve hl

theorem sent_of_ref (h : EventsOk ctx static live sent) (href : (ctx.event e).ref ≠ 0#32)
    {sent' : E → Bool} (hsent : ∀ x, x ≠ e → sent' x = true → sent x = true) :
    EventsOk ctx static live sent' :=
  h.change e h.queue h.deferred (fun x hx => ⟨rfl, rfl, rfl, hsent x hx⟩)
    ((h.refs e).sent_of_ref href _)

theorem unlockFree (h : EventsOk ctx static live sent) (hl : live e = true) (hn : places ctx e = 0)
    {sent' : E → Bool} (hsent : ∀ x, x ≠ e → sent' x = true → sent x = true) :
    Frees ctx (ctx.withMem (EventMem.nmemFreeI ctx.toEventMem e)) live [e] ∧
      EventsOk (ctx.withMem (EventMem.nmemFreeI ctx.toEventMem e)) static (without live [e]) sent' := by
  refine ⟨⟨rfl, List.nodup_singleton e, fun x hx => ?_⟩,
    h.change e h.queue h.deferred (fun x hx => ⟨rfl, rfl, ?_, hsent x hx⟩) ?_⟩
  · rw [List.mem_singleton.mp hx]
    exact hl
  · simp [without, hx]
  · show EventOkAt (ctx.event e) (places ctx e) _ _ _
    have hfalse : without live [e] e = false := by simp [without]
    rw [hfalse, hn]
    exact ⟨fun hs => absurd hs ((h.refs e).not_static hl), fun hl' => absurd hl' Bool.false_ne_true,
      fun hl' => absurd hl' Bool.false_ne_true, fun _ _ => rfl,
      fun hl' => absurd hl' Bool.false_ne_true⟩

/-! ### creation -/

theorem create (h : EventsOk ctx static live sent) (hs : static e = false) (hl : live e = false)
    (id : ℕ) (mem : M) :
    EventsOk (ctx.withMem (eventInit ctx.toEventMem e id mem)) static
      (Function.update live e true) (Function.update sent e false) := by
  have hzero : places ctx e = 0 := (h.refs e).freed hs hl
  refine h.change e h.queue h.deferred (fun x hx => ⟨Function.update_of_ne hx .., rfl,
    Function.update_of_ne hx .., fun hsx => ?_⟩) ?_
  · rw [Function.update_of_ne hx] at hsx
    exact hsx
  · show EventOkAt (Function.update ctx.event e _ e) (places ctx e) _ _ _
    rw [Function.update_self, Function.update_self, Function.update_self, hzero, hs]
    exact eventInit_okAt _ _

/-! ### sending -/

variable {sch : Scheduler S T} {saturates : Bool} {t : T} {error : Nerror}

theorem send (h : EventsOk ctx static live (Function.update sent e false))
    (hsl : static e = true ∨ live e = true)
    (hrun : nepaSendEventI sch saturates ctx t e = .ok (error, ctx')) :
    Frees ctx ctx' live (sendFrees ctx t e) ∧
      EventsOk ctx' static (without live (sendFrees ctx t e)) (Function.update sent e true) ∧
      ctx'.deferred = ctx.deferred ∧ ctx'.ctl = ctx.ctl := by
  have hat := h.refs e
  rw [Function.update_self] at hat
  have hsent : ∀ x, x ≠ e → Function.update sent e true x = true →
      Function.update sent e false x = true := by
    intro x hx hs
    rw [Function.update_of_ne hx] at hs ⊢
    exact hs
  unfold nepaSendEventI at hrun
  split at hrun
  · rename_i hlim
    have hlt : live e = true → places ctx e < 2147483647 := fun hl => hat.lt_of_limit hl hlim
    dsimp only at hrun
    split at hrun
    · rename_i hfull
      have hnone : sendFrees ctx t e = [] := if_neg (fun hc => by
        rw [show nqueueIsFull (ctx.queue t) = false from hfull] at hc
        exact Bool.false_ne_true hc.1)
      obtain ⟨hok, hitems, _⟩ := nqueuePutFifo_ok (h.queue t) hfull e
      let ctx₁ := (ctx.withMem (ctx.refUp saturates e)).setQueue t
        (nqueuePutFifo (ctx.queue t) e)
      obtain ⟨sched, _, hrun⟩ := bind_eq_ok.mp hrun
      rw [← (Prod.mk.inj (Except.ok.inj hrun)).2, hnone]
      refine ⟨Frees.refl live rfl, ?_, rfl, rfl⟩
      rw [without_nil]
      have hpl : ∀ x, places ctx₁ x = places ctx x + [e].count x := by
        intro x
        have hset := places_setQueue (ctx.withMem (ctx.refUp saturates e)) t
          (nqueuePutFifo (ctx.queue t) e) x
        rw [hitems, List.count_append] at hset
        have hset' : places ctx₁ x + (nqueueItems (ctx.queue t)).count x
          = places ctx x + ((nqueueItems (ctx.queue t)).count x + [e].count x) := hset
        omega
      have hq : ∀ u, QueueOk (ctx₁.queue u) := queueOk_update h.queue hok
      have hd : ∀ d, QueueOk (ctx₁.deferred d) := h.deferred
      have h₁ := h.put saturates hsl hlt hq hd rfl hpl hsent
      exact ⟨h₁.queue, h₁.deferred, h₁.refs⟩
    · rename_i hfull
      rw [← (Prod.mk.inj (Except.ok.inj hrun)).2]
      let ctx₁ := ctx.withMem (EventMem.refDown saturates (ctx.refUp saturates e) e)
      have hself : ctx₁.event e
          = neventRefDown saturates (neventRefUp saturates (ctx.event e)) := by
        rw [← EventMem.refUp_self saturates ctx.toEventMem e]
        exact EventMem.refDown_self ..
      have hat₁ := (hat.refUp saturates hsl hlt false).refDown saturates
      have h₁ : EventsOk ctx₁ static live (Function.update sent e false) := by
        refine h.change e h.queue h.deferred (fun x hx => ⟨?_, rfl, rfl, id⟩) ?_
        · exact (EventMem.refDown_of_ne _ _ hx).trans (EventMem.refUp_of_ne _ _ hx)
        · rw [hself, Function.update_self]
          exact hat₁
      -- the reference that was taken and given up changes nothing
      have hzero : neventRef (ctx₁.event e) = 0 ↔ neventRef (ctx.event e) = 0 := by
        rw [hself, hat₁.neventRef_eq_zero_iff hsl, hat.neventRef_eq_zero_iff hsl,
          (neventRefDown_fields ..).2.2, (neventRefUp_fields ..).2.2]
      have hsame : destroyFrees ctx₁ e = sendFrees ctx t e := by
        unfold destroyFrees sendFrees
        rw [Bool.not_eq_false] at hfull
        exact if_congr (hzero.trans (and_iff_right hfull).symm) rfl rfl
      obtain ⟨hfrees, hok⟩ := h₁.destroy hsl
      rw [← hsame]
      exact ⟨⟨hfrees.frees, hfrees.nodup, hfrees.live⟩, hok, rfl, rfl⟩
  · rename_i hlim
    have hnone : sendFrees ctx t e = [] := if_neg (fun hc => by
      rw [hc.2] at hlim
      exact hlim (by decide))
    rw [← (Prod.mk.inj (Except.ok.inj hrun)).2, hnone]
    refine ⟨Frees.refl live rfl, ?_, rfl, rfl⟩
    rw [without_nil]
    refine h.change e h.queue h.deferred (fun x hx => ⟨rfl, rfl, rfl, hsent x hx⟩) ?_
    rw [Function.update_self]
    exact hat.of_limit hsl hlim

theorem send_fault {f : Fault} (hrun : nepaSendEventI sch saturates ctx t e = .error f) :
    ∃ s t, sch.insertI s t = .error f := by
  unfold nepaSendEventI at hrun
  split at hrun
  · dsimp only at hrun
    split at hrun
    · rcases bind_eq_error.mp hrun with hinsert | ⟨sched, _, hrun⟩
      · exact ⟨ctx.sched, t, hinsert⟩
      · cases hrun
    · cases hrun
  · cases hrun

/-! ### deferred queues -/

variable {d : D}

theorem deferEvent (saturates : Bool) (h : EventsOk ctx static live sent)
    (hsl : static e = true ∨ live e = true)
    (hmax : nqueueIsFull (ctx.deferred d) = false → (ctx.event e).attrib ≠ 0#32 →
      (ctx.event e).ref ≠ int32Max) :
    Frees ctx (nepaDeferEvent saturates ctx d e).2 live [] ∧
      EventsOk (nepaDeferEvent saturates ctx d e).2 static live sent := by
  by_cases hfull : nqueueIsFull (ctx.deferred d) = false
  · have hpl := places_deferEvent saturates (h.deferred d) hfull e
    obtain ⟨hok, _⟩ := nqueuePutFifo_ok (h.deferred d) hfull e
    have hlt : live e = true → places ctx e < 2147483647 := by
      intro hl
      have hc := (h.refs e).count hl
      have hb := BitVec.toInt_lt (x := (ctx.event e).ref)
      have hne : (ctx.event e).ref.toInt ≠ 2147483647 := by
        intro hc'
        apply hmax hfull ((h.refs e).attrib_ne hl)
        apply BitVec.eq_of_toInt_eq
        rw [hc']
        rfl
      omega
    rw [nepaDeferEvent_room saturates hfull] at hpl ⊢
    let ctx₁ := (ctx.withMem (ctx.refUp saturates e)).setDeferred d
      (nqueuePutFifo (ctx.deferred d) e)
    have hq : ∀ u, QueueOk (ctx₁.queue u) := h.queue
    have hd : ∀ u, QueueOk (ctx₁.deferred u) := queueOk_update h.deferred hok
    exact ⟨Frees.refl live rfl, h.put saturates hsl hlt hq hd rfl hpl (fun _ _ hs => hs)⟩
  · unfold nepaDeferEvent
    rw [if_neg hfull]
    exact ⟨Frees.refl live rfl, h⟩

theorem take_deferred (saturates : Bool) (h : EventsOk ctx static live sent) {rest : List E}
    (hitems : nqueueItems (ctx.deferred d) = e :: rest) :
    EventsOk (deferTake saturates ctx d e) static live (Function.update sent e false) ∧
      (static e = true ∨ live e = true) ∧
      nqueueItems ((deferTake saturates ctx d e).deferred d) = rest := by
  obtain ⟨_, hok, hrest, _⟩ := nqueueGet_ok (h.deferred d) hitems
  have hpl : ∀ x, places ctx x = places (deferTake saturates ctx d e) x + [e].count x := by
    intro x
    have hset := places_setDeferred ctx d (nqueueGet (ctx.deferred d)).2 x
    have hcount := count_of_items (hitems.trans (by rw [hrest])) x
    have hset' : places (deferTake saturates ctx d e) x + (nqueueItems (ctx.deferred d)).count x
      = places ctx x + (nqueueItems (nqueueGet (ctx.deferred d)).2).count x := hset
    omega
  refine ⟨h.take saturates h.queue (queueOk_update h.deferred hok) rfl hpl, h.live_of_place ?_, ?_⟩
  · rw [hpl, List.count_singleton_self]
    exact Nat.succ_ne_zero _
  · show nqueueItems (Function.update ctx.deferred d _ d) = rest
    rw [Function.update_self]
    exact hrest

theorem start (h : EventsOk ctx static live sent) (hctl : ctx.ctl = .loop)
    (hne : nqueueIsEmpty (ctx.queue t) = false) :
    EventsOk (epaDispatchStart ctx t) static live sent := by
  have hne' : nqueueItems (ctx.queue t) ≠ [] := by
    rw [Ne, ← (h.queue t).isEmpty_iff, hne]
    exact Bool.false_ne_true
  obtain ⟨e, rest, hitems⟩ := List.exists_cons_of_ne_nil hne'
  obtain ⟨he, hok, hrest, _⟩ := nqueueGet_ok (h.queue t) hitems
  have hpl : ∀ x, places (epaDispatchStart ctx t) x = places ctx x := by
    intro x
    have hset := places_setQueue ctx t (nqueueGet (ctx.queue t)).2 x
    have hcount := count_of_items (hitems.trans (by rw [hrest])) x
    have hloop : places (epaDispatchStart ctx t) x
        = places (ctx.setQueue t (nqueueGet (ctx.queue t)).2) x + [e].count x := by
      unfold places
      show _ + (if (nqueueGet (ctx.queue t)).1 = x then 1 else 0) = _ + ctx.ctl.holds x + _
      rw [hctl, he, List.count_singleton]
      by_cases hex : e = x
      · rw [if_pos hex, if_pos (by simpa using hex)]
        rfl
      · rw [if_neg hex, if_neg (by simpa using hex)]
        rfl
    omega
  refine ⟨queueOk_update h.queue hok, h.deferred, fun x => ?_⟩
  rw [hpl]
  exact h.refs x

theorem returns (saturates : Bool) (h : EventsOk ctx static live sent)
    (hctl : ctx.ctl = .dispatching t e) :
    EventsOk (epaDispatchRefDown saturates ctx t e) static live (Function.update sent e false) ∧
      (static e = true ∨ live e = true) := by
  have hpl : ∀ x, places ctx x = places (epaDispatchRefDown saturates ctx t e) x + [e].count x := by
    intro x
    unfold places
    show _ + _ + ctx.ctl.holds x = _ + _ + 0 + _
    rw [hctl, List.count_singleton, Nat.add_zero]
    by_cases hex : e = x
    · rw [if_pos (by simpa using hex)]
      show _ + _ + (if e = x then 1 else 0) = _
      rw [if_pos hex]
      rfl
    · rw [if_neg (by simpa using hex)]
      show _ + _ + (if e = x then 1 else 0) = _
      rw [if_neg hex]
      rfl
  refine ⟨h.take saturates h.queue h.deferred rfl hpl, h.live_of_place ?_⟩
  rw [hpl, List.count_singleton_self]
  exact Nat.succ_ne_zero _

theorem finish (h : EventsOk ctx static live (Function.update sent e false))
    (hsl : static e = true ∨ live e = true) (hctl : ctx.ctl = .dispatched t e)
    (hrun : epaDispatchEnd sch ctx t e = .ok ctx') :
    Frees ctx ctx' live (destroyFrees ctx e) ∧
      EventsOk ctx' static (without live (destroyFrees ctx e)) (Function.update sent e true) := by
  obtain ⟨hfrees, hok⟩ := h.destroy hsl
  obtain ⟨sched, _, hrun⟩ := bind_eq_ok.mp hrun
  rw [← Except.ok.inj hrun]
  refine ⟨⟨hfrees.frees, hfrees.nodup, hfrees.live⟩, hok.queue, hok.deferred, fun x => ?_⟩
  have hat := hok.refs x
  unfold places at hat ⊢
  rw [show (ctx.withMem (neventDestroyI ctx.toEventMem e)).ctl = .dispatched t e from hctl] at hat
  exact hat

end EventsOk

end

end NeonEds
