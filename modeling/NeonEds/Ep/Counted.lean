import Mathlib.Algebra.BigOperators.Group.Finset.Piecewise
import Mathlib.Data.Fintype.Basic
import NeonEds.Ep.Epa

/-!
# The places of an event

`places ctx e` is the number of the places that hold the event `e`: the slots of the working and of
the deferred queues, and the dispatch.  `EventsOk`: every event has the fields that its places ask for.

What the functions of `epa.c` do to the events is put together from three moves: an event comes into a
queue (`EventsOk.put`), it leaves a queue (`EventsOk.take`), it is destroyed if nothing holds it
(`EventsOk.destroy`).  `Frees ctx ctx' live fs`: between the two states the events `fs` were given back
to their allocators, each once, and each was live.
-/

set_option linter.unusedSectionVars false

namespace NeonEds
open Exec

theorem sum_update_add {ι : Type*} [Fintype ι] [DecidableEq ι] (f : ι → ℕ) (i : ι) (v : ℕ) :
    Finset.univ.sum (Function.update f i v) + f i = ∑ j, f j + v := by
  rw [Finset.sum_update_of_mem (Finset.mem_univ i),
    Finset.sum_eq_add_sum_sdiff_singleton_of_mem (Finset.mem_univ i)]
  omega

variable {S T D E M : Type} [DecidableEq T] [DecidableEq D] [DecidableEq E] [Fintype T] [Fintype D]

def EpaCtl.holds : EpaCtl T E → E → ℕ
  | .dispatching _ e', e => if e' = e then 1 else 0
  | _, _ => 0

/-- the number of the places that hold an event -/
def places (ctx : EpaCtx S T D E M) (e : E) : ℕ :=
  ∑ t, (nqueueItems (ctx.queue t)).count e + ∑ d, (nqueueItems (ctx.deferred d)).count e +
    ctx.ctl.holds e

theorem places_setQueue (ctx : EpaCtx S T D E M) (t : T) (qu : Nqueue E) (e : E) :
    places (ctx.setQueue t qu) e + (nqueueItems (ctx.queue t)).count e
      = places ctx e + (nqueueItems qu).count e := by
  have hfun : (fun u => (nqueueItems (Function.update ctx.queue t qu u)).count e)
      = Function.update (fun u => (nqueueItems (ctx.queue u)).count e) t
        ((nqueueItems qu).count e) := by
    funext u
    by_cases hu : u = t
    · rw [hu, Function.update_self, Function.update_self]
    · rw [Function.update_of_ne hu, Function.update_of_ne hu]
  have hsum := sum_update_add (fun u => (nqueueItems (ctx.queue u)).count e) t
    ((nqueueItems qu).count e)
  unfold places
  show ∑ u, (nqueueItems (Function.update ctx.queue t qu u)).count e +
    ∑ d, (nqueueItems (ctx.deferred d)).count e + ctx.ctl.holds e + _ = _
  rw [hfun]
  omega

theorem places_setDeferred (ctx : EpaCtx S T D E M) (d : D) (qu : Nqueue E) (e : E) :
    places (ctx.setDeferred d qu) e + (nqueueItems (ctx.deferred d)).count e
      = places ctx e + (nqueueItems qu).count e := by
  have hfun : (fun u => (nqueueItems (Function.update ctx.deferred d qu u)).count e)
      = Function.update (fun u => (nqueueItems (ctx.deferred u)).count e) d
        ((nqueueItems qu).count e) := by
    funext u
    by_cases hu : u = d
    · rw [hu, Function.update_self, Function.update_self]
    · rw [Function.update_of_ne hu, Function.update_of_ne hu]
  have hsum := sum_update_add (fun u => (nqueueItems (ctx.deferred u)).count e) d
    ((nqueueItems qu).count e)
  unfold places
  show ∑ t, (nqueueItems (ctx.queue t)).count e +
    ∑ u, (nqueueItems (Function.update ctx.deferred d qu u)).count e + ctx.ctl.holds e + _ = _
  rw [hfun]
  omega

/-- the reference counts are right -/
def RefsCounted (ctx : EpaCtx S T D E M) (static live sent : E → Bool) : Prop :=
  ∀ e, EventOkAt (ctx.event e) (places ctx e) (static e) (live e) (sent e)

/-- what holds between the calls -/
structure EventsOk (ctx : EpaCtx S T D E M) (static live sent : E → Bool) : Prop where
  queue : ∀ t, QueueOk (ctx.queue t)
  deferred : ∀ d, QueueOk (ctx.deferred d)
  refs : RefsCounted ctx static live sent

/-- the events that are live after `fs` were freed -/
def without (live : E → Bool) (fs : List E) : E → Bool := fun e => live e && !decide (e ∈ fs)

/-- between the two states the events `fs` were freed, each of them once -/
structure Frees (ctx ctx' : EpaCtx S T D E M) (live : E → Bool) (fs : List E) : Prop where
  frees : ctx'.frees.map Prod.snd = fs ++ ctx.frees.map Prod.snd
  nodup : fs.Nodup
  live : ∀ e ∈ fs, live e = true

/-- what `nevent_destroy_i` gives back -/
def destroyFrees (ctx : EpaCtx S T D E M) (e : E) : List E :=
  if neventRef (ctx.event e) = 0 then [e] else []

section
variable {ctx ctx' : EpaCtx S T D E M} {static live sent : E → Bool} {e : E}

theorem without_nil (live : E → Bool) : without live [] = live := by
  funext e
  simp [without]

theorem Frees.refl (live : E → Bool) (h : ctx'.frees = ctx.frees) : Frees ctx ctx' live [] :=
  ⟨by rw [h]; rfl, List.nodup_nil, fun _ he => absurd he List.not_mem_nil⟩

namespace EventsOk

theorem mono {sent' : E → Bool} (h : EventsOk ctx static live sent)
    (hs : ∀ e, sent' e = true → sent e = true) : EventsOk ctx static live sent' :=
  ⟨h.queue, h.deferred, fun e => (h.refs e).mono (hs e)⟩

theorem live_of_place (h : EventsOk ctx static live sent) (hn : places ctx e ≠ 0) :
    static e = true ∨ live e = true := by
  have hf := (h.refs e).freed
  cases hs : static e with
  | true => exact Or.inl rfl
  | false =>
    cases hl : live e with
    | true => exact Or.inr rfl
    | false => exact absurd (hf hs hl) hn

theorem change (h : EventsOk ctx static live sent) (e : E) {live' sent' : E → Bool}
    (hq : ∀ t, QueueOk (ctx'.queue t)) (hd : ∀ d, QueueOk (ctx'.deferred d))
    (hother : ∀ x, x ≠ e → ctx'.event x = ctx.event x ∧ places ctx' x = places ctx x ∧
      live' x = live x ∧ (sent' x = true → sent x = true))
    (he : EventOkAt (ctx'.event e) (places ctx' e) (static e) (live' e) (sent' e)) :
    EventsOk ctx' static live' sent' := by
  refine ⟨hq, hd, fun x => ?_⟩
  by_cases hx : x = e
  · rw [hx]
    exact he
  · obtain ⟨h1, h2, h3, h4⟩ := hother x hx
    rw [h1, h2, h3]
    exact (h.refs x).mono h4

theorem put (h : EventsOk ctx static live sent) (saturates : Bool)
    (hsl : static e = true ∨ live e = true) (hlt : live e = true → places ctx e < 2147483647)
    (hq : ∀ t, QueueOk (ctx'.queue t)) (hd : ∀ d, QueueOk (ctx'.deferred d))
    (hev : ctx'.event = Function.update ctx.event e (neventRefUp saturates (ctx.event e)))
    (hpl : ∀ x, places ctx' x = places ctx x + [e].count x) {sent' : E → Bool}
    (hsent : ∀ x, x ≠ e → sent' x = true → sent x = true) : EventsOk ctx' static live sent' := by
  refine h.change e hq hd (fun x hx => ⟨?_, ?_, rfl, hsent x hx⟩) ?_
  · rw [hev, Function.update_of_ne hx]
  · rw [hpl, List.count_singleton, if_neg (by simpa using Ne.symm hx), Nat.add_zero]
  · rw [hev, Function.update_self, hpl, List.count_singleton_self]
    exact (h.refs e).refUp saturates hsl hlt _

theorem take (h : EventsOk ctx static live sent) (saturates : Bool)
    (hq : ∀ t, QueueOk (ctx'.queue t)) (hd : ∀ d, QueueOk (ctx'.deferred d))
    (hev : ctx'.event = Function.update ctx.event e (neventRefDown saturates (ctx.event e)))
    (hpl : ∀ x, places ctx x = places ctx' x + [e].count x) :
    EventsOk ctx' static live (Function.update sent e false) := by
  refine h.change e hq hd (fun x hx => ⟨?_, ?_, rfl, fun hs => ?_⟩) ?_
  · rw [hev, Function.update_of_ne hx]
  · rw [hpl, List.count_singleton, if_neg (by simpa using Ne.symm hx), Nat.add_zero]
  · rw [Function.update_of_ne hx] at hs
    exact hs
  · have hat := h.refs e
    rw [hpl, List.count_singleton_self] at hat
    rw [hev, Function.update_self, Function.update_self]
    exact hat.refDown saturates

/-- **The event is destroyed** iff it is dynamic and in no place. -/
theorem destroy (h : EventsOk ctx static live (Function.update sent e false))
    (hsl : static e = true ∨ live e = true) :
    Frees ctx (ctx.withMem (neventDestroyI ctx.toEventMem e)) live (destroyFrees ctx e) ∧
      EventsOk (ctx.withMem (neventDestroyI ctx.toEventMem e)) static
        (without live (destroyFrees ctx e)) (Function.update sent e true) := by
  have hat := h.refs e
  rw [Function.update_self] at hat
  have hdes := hat.destroy hsl
  have hself : Function.update sent e true e = true := Function.update_self ..
  have hsent : ∀ x, x ≠ e → Function.update sent e true x = true →
      Function.update sent e false x = true := by
    intro x hx hs
    rw [Function.update_of_ne hx] at hs ⊢
    exact hs
  unfold destroyFrees
  by_cases h0 : neventRef (ctx.event e) = 0
  · have hl := ((hat.neventRef_eq_zero_iff hsl).mp h0).1
    have hmem : neventDestroyI ctx.toEventMem e = EventMem.nmemFreeI ctx.toEventMem e := if_pos h0
    rw [hmem, if_pos h0]
    refine ⟨⟨rfl, List.nodup_singleton e, fun x hx => ?_⟩,
      h.change e h.queue h.deferred (fun x hx => ⟨rfl, rfl, ?_, hsent x hx⟩) ?_⟩
    · rw [List.mem_singleton.mp hx]
      exact hl
    · simp [without, hx]
    · rw [hself]
      have hfalse : without live [e] e = (live e && decide (neventRef (ctx.event e) ≠ 0)) := by
        simp [without, h0]
      rw [hfalse]
      exact hdes
  · have hmem : neventDestroyI ctx.toEventMem e = ctx.toEventMem := if_neg h0
    rw [hmem, if_neg h0]
    refine ⟨Frees.refl live rfl,
      h.change e h.queue h.deferred (fun x hx => ⟨rfl, rfl, ?_, hsent x hx⟩) ?_⟩
    · rw [without_nil]
    · rw [hself, without_nil]
      rw [decide_eq_true h0, Bool.and_true] at hdes
      exact hdes

end EventsOk

end

end NeonEds
