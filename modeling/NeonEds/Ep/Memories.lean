import NeonEds.Ep.RefCount
import NeonEds.Lib.Allocator

/-!
# The events and the memories that they come from

Here the answers to the requests of `nevent_create` and `nepa_send_signal_i` are those of allocators, and
the calls of `nmem_free_i` are made: `MemEpa` are the agents with the memory objects `M`, each of which
is one of the allocators of an `Allocator.Apart`.

* `MemsKept`             a call changes the member `mem` of no event, and an event that it gives back goes
                         to the memory object that this member names;
* `EventMemsOk`          the blocks that are out of each memory object are the live events from it;
* `EventMemsOk.step`     a call keeps it, and faults only where the scheduler does or a request is refused;
* `EventMemsOk.settled`  when the queues have run empty nothing is out;
* `MemReach.ok`          it holds in every state that is reached, whatever the allocators are.
-/

set_option linter.unusedSectionVars false

namespace NeonEds
open Exec

variable {S T D E M σ β : Type} [DecidableEq T] [DecidableEq D] [DecidableEq E] [DecidableEq M]
  [Fintype T] [Fintype D]

/-! ## the memory object of an event -/

section
variable {m m' m'' : EventMem E M} {e : E}

structure MemsKept (m m' : EventMem E M) : Prop where
  mem : ∀ e, (m'.event e).mem = (m.event e).mem
  frees : ∃ fs : List E, m'.frees = fs.map (fun e => ((m.event e).mem, e)) ++ m.frees

namespace MemsKept

theorem refl (m : EventMem E M) : MemsKept m m := ⟨fun _ => rfl, [], rfl⟩

theorem trans (h : MemsKept m m') (h' : MemsKept m' m'') : MemsKept m m'' := by
  obtain ⟨fs, hfs⟩ := h.frees
  obtain ⟨gs, hgs⟩ := h'.frees
  refine ⟨fun e => (h'.mem e).trans (h.mem e), gs ++ fs, ?_⟩
  rw [hgs, hfs, List.map_append, List.append_assoc]
  congr 1
  exact List.map_congr_left fun e _ => by rw [h.mem e]

theorem setEvent {x : Nevent M} (hx : x.mem = (m.event e).mem) : MemsKept m (m.setEvent e x) := by
  refine ⟨fun y => ?_, [], rfl⟩
  show (Function.update m.event e x y).mem = _
  by_cases hy : y = e
  · rw [hy, Function.update_self]
    exact hx
  · rw [Function.update_of_ne hy]

theorem refUp (saturates : Bool) (m : EventMem E M) (e : E) : MemsKept m (m.refUp saturates e) :=
  setEvent (neventRefUp_fields saturates (m.event e)).1

theorem refDown (saturates : Bool) (m : EventMem E M) (e : E) : MemsKept m (m.refDown saturates e) :=
  setEvent (neventRefDown_fields saturates (m.event e)).1

theorem nmemFreeI (m : EventMem E M) (e : E) : MemsKept m (m.nmemFreeI e) :=
  ⟨fun _ => rfl, [e], rfl⟩

theorem destroy (m : EventMem E M) (e : E) : MemsKept m (neventDestroyI m e) := by
  unfold neventDestroyI
  split
  · exact nmemFreeI m e
  · exact refl m

theorem lock (m : EventMem E M) (e : E) : MemsKept m (neventLock m e) := by
  unfold neventLock
  split
  · exact setEvent rfl
  · exact refl m

theorem unreserve (m : EventMem E M) (e : E) : MemsKept m (neventUnreserve m e) := setEvent rfl

end MemsKept

end

section
variable {sch : Scheduler S T} {saturates : Bool} {ctx ctx' : EpaCtx S T D E M}
  {sys sys' : EventSys S T D E M} {t : T} {d : D} {e : E} {error : Nerror} {op : EventOp T D E M}

theorem nepaSendEventI_memsKept (h : nepaSendEventI sch saturates ctx t e = .ok (error, ctx')) :
    MemsKept ctx.toEventMem ctx'.toEventMem := by
  unfold nepaSendEventI at h
  split at h
  · dsimp only at h
    split at h
    · obtain ⟨sched, _, h⟩ := bind_eq_ok.mp h
      rw [← (Prod.mk.inj (Except.ok.inj h)).2]
      exact MemsKept.refUp saturates ctx.toEventMem e
    · rw [← (Prod.mk.inj (Except.ok.inj h)).2]
      have hup := MemsKept.refUp saturates ctx.toEventMem e
      have hdown := MemsKept.refDown saturates (ctx.refUp saturates e) e
      exact (hup.trans hdown).trans (MemsKept.destroy ..)
  · rw [← (Prod.mk.inj (Except.ok.inj h)).2]
    exact MemsKept.refl _

theorem runEventOp_memsKept (hop : op.creates = none)
    (hrun : runEventOp sch saturates sys op = .ok sys') :
    MemsKept sys.toEventMem sys'.toEventMem := by
  cases op with
  | create id mem answer =>
    obtain rfl : answer = none := hop
    obtain rfl := Except.ok.inj hrun
    exact MemsKept.refl _
  | send t e =>
    obtain ⟨⟨error, ctx₁⟩, hsend, hrun⟩ := bind_eq_ok.mp hrun
    obtain rfl := Except.ok.inj hrun
    exact nepaSendEventI_memsKept hsend
  | signal t eventId mem answer =>
    obtain rfl : answer = none := hop
    obtain rfl := Except.ok.inj hrun
    exact MemsKept.refl _
  | defer d e =>
    obtain rfl := Except.ok.inj hrun
    show MemsKept _ (nepaDeferEvent saturates sys.toEpaCtx d e).2.toEventMem
    unfold nepaDeferEvent
    split
    · exact MemsKept.refUp saturates sys.toEventMem e
    · exact MemsKept.refl _
  | fetch t d =>
    simp only [runEventOp] at hrun
    split at hrun
    · obtain rfl := Except.ok.inj hrun
      exact MemsKept.refDown saturates sys.toEventMem _
    · obtain rfl := Except.ok.inj hrun
      exact MemsKept.refl _
  | fetchSend =>
    simp only [runEventOp] at hrun
    split at hrun
    · obtain ⟨⟨error, ctx₁⟩, hsend, hrun⟩ := bind_eq_ok.mp hrun
      obtain rfl := Except.ok.inj hrun
      exact nepaSendEventI_memsKept hsend
    · obtain rfl := Except.ok.inj hrun
      exact MemsKept.refl _
  | initStart t =>
    obtain rfl := Except.ok.inj hrun
    exact MemsKept.refl _
  | initFinish =>
    simp only [runEventOp] at hrun
    split at hrun
    · obtain ⟨ctx, hend, hrun⟩ := bind_eq_ok.mp hrun
      obtain ⟨sched, _, hend⟩ := bind_eq_ok.mp hend
      obtain rfl := Except.ok.inj hend
      obtain rfl := Except.ok.inj hrun
      exact MemsKept.refl _
    · obtain rfl := Except.ok.inj hrun
      exact MemsKept.refl _
  | start t =>
    obtain rfl := Except.ok.inj hrun
    exact MemsKept.refl _
  | returns =>
    simp only [runEventOp] at hrun
    split at hrun
    · obtain rfl := Except.ok.inj hrun
      exact MemsKept.refDown saturates sys.toEventMem _
    · obtain rfl := Except.ok.inj hrun
      exact MemsKept.refl _
  | finish =>
    simp only [runEventOp] at hrun
    split at hrun
    · obtain ⟨ctx, hend, hrun⟩ := bind_eq_ok.mp hrun
      obtain ⟨sched, _, hend⟩ := bind_eq_ok.mp hend
      obtain rfl := Except.ok.inj hend
      obtain rfl := Except.ok.inj hrun
      exact MemsKept.destroy ..
    · obtain rfl := Except.ok.inj hrun
      exact MemsKept.refl _
  | lock e =>
    obtain rfl := Except.ok.inj hrun
    exact MemsKept.lock ..
  | unlock e =>
    simp only [runEventOp] at hrun
    split at hrun
    · obtain rfl := Except.ok.inj hrun
      exact MemsKept.unreserve ..
    · obtain rfl := Except.ok.inj hrun
      exact MemsKept.refl _
  | unlockRead =>
    simp only [runEventOp] at hrun
    split at hrun
    · obtain rfl := Except.ok.inj hrun
      exact MemsKept.refl _
    · obtain rfl := Except.ok.inj hrun
      exact MemsKept.refl _
  | unlockFree =>
    simp only [runEventOp] at hrun
    split at hrun
    · obtain rfl := Except.ok.inj hrun
      exact MemsKept.nmemFreeI ..
    · obtain rfl := Except.ok.inj hrun
      exact MemsKept.refl _

/-- where the memory for a new event is from -/
def EventOp.source : EventOp T D E M → Option M
  | .create _ mem _ => some mem
  | .signal _ _ mem _ => some mem
  | _ => none

theorem eventInit_mem (m : EventMem E M) (e x : E) (id : ℕ) (mem : M) :
    ((eventInit m e id mem).event x).mem = if some e = some x then some mem else (m.event x).mem := by
  show (Function.update m.event e _ x).mem = _
  by_cases hx : x = e
  · rw [hx, Function.update_self, if_pos rfl]
  · rw [Function.update_of_ne hx, if_neg (fun h => hx (Option.some.inj h).symm)]

theorem runEventOp_memsKept_create (hop : op.creates = some e)
    (hrun : runEventOp sch saturates sys op = .ok sys') :
    ∃ id mem, op.source = some mem ∧
      MemsKept (eventInit sys.toEventMem e id mem) sys'.toEventMem := by
  cases op with
  | create id mem answer =>
    obtain rfl : answer = some e := hop
    obtain rfl := Except.ok.inj hrun
    exact ⟨id, mem, rfl, MemsKept.refl _⟩
  | signal t eventId mem answer =>
    obtain rfl : answer = some e := hop
    obtain ⟨⟨error, ctx₁⟩, hsend, hrun⟩ := bind_eq_ok.mp hrun
    obtain rfl := Except.ok.inj hrun
    exact ⟨eventId, mem, rfl, nepaSendEventI_memsKept hsend⟩
  | _ => cases hop

/-- the calls of `nmem_free_i` that a call makes, the first one first -/
def newFreeCalls (sys sys' : EventSys S T D E M) : List (Option M × E) :=
  (sys'.frees.take (sys'.frees.length - sys.frees.length)).reverse

/-- **What a call does to the memory objects of the events.** -/
theorem runEventOp_mems (hrun : runEventOp sch saturates sys op = .ok sys') :
    (∀ x, (sys'.event x).mem = if op.creates = some x then op.source else (sys.event x).mem) ∧
      newFreeCalls sys sys' = (newFrees sys sys').reverse.map fun e => ((sys'.event e).mem, e) := by
  -- it starts from the events with the new one, and the calls name what the events then have
  obtain ⟨m, hfrees, hmem, hkept⟩ : ∃ m : EventMem E M, m.frees = sys.frees ∧
      (∀ x, (m.event x).mem = if op.creates = some x then op.source else (sys.event x).mem) ∧
      MemsKept m sys'.toEventMem := by
    cases hop : op.creates with
    | none =>
      exact ⟨sys.toEventMem, rfl, fun x => (if_neg (fun h => by cases h)).symm,
        runEventOp_memsKept hop hrun⟩
    | some e =>
      obtain ⟨id, mem, hsource, hkept⟩ := runEventOp_memsKept_create hop hrun
      rw [hsource]
      exact ⟨eventInit sys.toEventMem e id mem, rfl, fun x => eventInit_mem .., hkept⟩
  obtain ⟨fs, hfs⟩ := hkept.frees
  rw [hfrees] at hfs
  have htake : sys'.frees.take (sys'.frees.length - sys.frees.length)
      = fs.map fun e => ((m.event e).mem, e) := by
    rw [hfs, List.length_append, Nat.add_sub_cancel, List.take_append_of_le_length (le_refl _),
      List.take_length]
  refine ⟨fun x => (hkept.mem x).trans (hmem x), ?_⟩
  have hnew : newFrees sys sys' = fs := by
    unfold newFrees
    rw [← List.map_take, htake, List.map_map]
    exact List.map_id fs
  unfold newFreeCalls
  rw [htake, hnew, List.map_reverse]
  congr 1
  exact List.map_congr_left fun e _ => by rw [hkept.mem e]

end

/-! ## the agents with the memory objects -/

structure MemEpa (S T D E M σ : Type) where
  ctx : EventSys S T D E M
  mems : M → σ

inductive MemEventOp (T D E M : Type) where
  /-- `nevent_create_from_i`; the other two ask the object that `find_memory_i` finds -/
  | create (id : ℕ) (mem : M) (size : ℕ)
  | signal (t : T) (eventId : ℕ) (mem : M)
  /-- a call that asks for no memory -/
  | call (op : EventOp T D E M)

def EventOp.asksMemory : EventOp T D E M → Bool
  | .create .. => true
  | .signal .. => true
  | _ => false

section
variable (sch : Scheduler S T) (saturates : Bool) (A : Allocator σ E β) (sizeofNevent : ℕ)

def MemEventOp.size : MemEventOp T D E M → ℕ
  | .create _ _ size => size
  | _ => sizeofNevent

/-- `nmem_alloc_i` -/
def answerOp (mems : M → σ) : MemEventOp T D E M → Exec (EventOp T D E M × (M → σ))
  | .create id mem size => do
    let (answer, s) ← A.alloc (mems mem) size
    return (.create id mem answer, Function.update mems mem s)
  | .signal t eventId mem => do
    let (answer, s) ← A.alloc (mems mem) sizeofNevent
    return (.signal t eventId mem answer, Function.update mems mem s)
  | .call op => .ok (op, mems)

/-- a call with the requests and the releases in it; no other call of an allocator stands between them -/
def runMemEventOp (sys : MemEpa S T D E M σ) (op : MemEventOp T D E M) :
    Exec (EventOp T D E M × MemEpa S T D E M σ) := do
  let (op, mems) ← answerOp A sizeofNevent sys.mems op
  let ctx ← runEventOp sch saturates sys.ctx op
  let mems ← A.freeAll mems (newFreeCalls sys.ctx ctx)
  return (op, ⟨ctx, mems⟩)

/-- the user of the event `e` writes into it, behind the fields of `struct nevent` -/
def MemEpa.write (sys : MemEpa S T D E M σ) (e : E) (offset : ℕ) (x : β) : MemEpa S T D E M σ :=
  match (sys.ctx.event e).mem with
  | some mem =>
    { sys with mems := Function.update sys.mems mem (A.write (sys.mems mem) e offset x) }
  | none => sys

/-- what the event `e` holds -/
def MemEpa.read (read : σ → E → ℕ → β) (sys : MemEpa S T D E M σ) (e : E) (offset : ℕ) : Option β :=
  (sys.ctx.event e).mem.map fun mem => read (sys.mems mem) e offset

/-- the sizes that were asked for -/
def askedAfter (asked : E → ℕ) (op : MemEventOp T D E M) (op' : EventOp T D E M) : E → ℕ :=
  fun e => if op'.creates = some e then op.size sizeofNevent else asked e

variable (asks : M → ℕ → Prop) (static : E → Bool)

def LegalMemEventOp (live : E → Bool) (ctx : EventSys S T D E M) : MemEventOp T D E M → Prop
  | .create _ mem size => asks mem size
  | .signal _ _ mem => asks mem sizeofNevent
  | .call op => op.asksMemory = false ∧ LegalEventOp static live ctx op ∧ EventOpFits ctx op

/-- `live`, `sent` and `asked` are what a watcher of the calls knows -/
inductive MemReach (sys₀ : MemEpa S T D E M σ) :
    MemEpa S T D E M σ → (E → Bool) → (E → Bool) → (E → ℕ) → Prop where
  | start : MemReach sys₀ sys₀ (fun _ => false) (fun _ => false) (fun _ => 0)
  | call {sys sys' : MemEpa S T D E M σ} {live sent : E → Bool} {asked : E → ℕ}
      {op : MemEventOp T D E M} {op' : EventOp T D E M} (h : MemReach sys₀ sys live sent asked)
      (hl : LegalMemEventOp sizeofNevent asks static live sys.ctx op)
      (hrun : runMemEventOp sch saturates A sizeofNevent sys op = .ok (op', sys')) :
      MemReach sys₀ sys' (eventsLiveAfter live op' sys.ctx sys'.ctx)
        (eventsSentAfter sent op' sys.ctx) (askedAfter sizeofNevent asked op op')
  | write {sys : MemEpa S T D E M σ} {live sent : E → Bool} {asked : E → ℕ}
      (h : MemReach sys₀ sys live sent asked) {e : E} {offset : ℕ} (hl : live e = true)
      (ho : offset < asked e) (hbehind : sizeofNevent ≤ offset) (x : β) :
      MemReach sys₀ (sys.write A e offset x) live sent asked

end

/-- the blocks that the live events are -/
def blocksOut (ctx : EventSys S T D E M) (live : E → Bool) (asked : E → ℕ) (e : E) : Option (M × ℕ) :=
  if live e = true then (ctx.event e).mem.map fun mem => (mem, asked e) else none

structure EventMemsOk (Rep : M → σ → (E → Option ℕ) → Prop) (static : E → Bool)
    (sys : MemEpa S T D E M σ) (live sent : E → Bool) (asked : E → ℕ) : Prop where
  events : EventsInv sys.ctx static live sent
  owned : ∀ e, live e = true → ∃ mem, (sys.ctx.event e).mem = some mem
  holds : Allocator.Holds Rep sys.mems (blocksOut sys.ctx live asked)

/-- no event is queued, deferred or handled, no `nevent_unlock` is under way, no event is reserved, and none
waits to be sent for the first time -/
structure Settled (ctx : EventSys S T D E M) (live sent : E → Bool) : Prop where
  queue : ∀ t, nqueueItems (ctx.queue t) = []
  deferred : ∀ d, nqueueItems (ctx.deferred d) = []
  loop : ctx.ctl = .loop
  unlocking : ctx.unlocking = []
  sent : ∀ e, live e = true → sent e = true ∧ (ctx.event e).attrib ≠ neventAttrReserved

/-- the event is not held back by the queues of the agents or their dispatches -/
def KeptEvent (ctx : EventSys S T D E M) (sent : E → Bool) (e : E) : Prop :=
  (∃ d, e ∈ nqueueItems (ctx.deferred d)) ∨ (ctx.event e).attrib = neventAttrReserved ∨
    sent e = false ∨ e ∈ ctx.unlocking.map Prod.fst

/-- **When the queues have run empty** a live event is deferred, reserved, unsent or being unlocked. -/
theorem EventsInv.kept {ctx : EventSys S T D E M} {static live sent : E → Bool}
    (h : EventsInv ctx static live sent) (hqueue : ∀ t, nqueueItems (ctx.queue t) = [])
    (hctl : ctx.ctl = .loop) {e : E} (hl : live e = true) : KeptEvent ctx sent e := by
  have hloop : ctx.loopHand = none := EventSys.loopHand_none (by rw [hctl]; rintro _ _ ⟨⟩)
    (h.fetching_none (by rw [hctl]; rfl))
  by_cases hun : e ∈ ctx.unlocking.map Prod.fst
  · exact .inr (.inr (.inr hun))
  by_cases hs : sent e = true
  · have hout : ctx.outOfHand sent e = true := by
      unfold EventSys.outOfHand
      rw [hs, Bool.true_and, Bool.not_eq_true', decide_eq_false_iff_not, EventSys.mem_inHand, hloop]
      exact fun hc => hc.elim (fun hc => by cases hc) hun
    rcases (h.ok.refs e).sent hl hout with hpos | hres
    · have hplaces : places ctx.toEpaCtx e = ∑ d, (nqueueItems (ctx.deferred d)).count e := by
        unfold places
        simp [hqueue, hctl, EpaCtl.holds]
      obtain ⟨d, _, hd⟩ := Finset.exists_ne_zero_of_sum_ne_zero (Nat.ne_of_gt (hplaces ▸ hpos))
      exact .inl ⟨d, List.count_pos_iff.mp (Nat.pos_of_ne_zero hd)⟩
    · exact .inr (.inl hres)
  · exact .inr (.inr (.inl (Bool.eq_false_of_not_eq_true hs)))

section
variable {sch : Scheduler S T} {saturates : Bool} {A : Allocator σ E β} {sizeofNevent : ℕ}
  {asks : M → ℕ → Prop} {own : M → E → Prop} {Rep : M → σ → (E → Option ℕ) → Prop}
  {static live sent : E → Bool} {asked : E → ℕ} {sys sys' sys₀ : MemEpa S T D E M σ} {e : E} {mem : M}
  {op : MemEventOp T D E M} {op' : EventOp T D E M} {mems : M → σ}

theorem EventOpFits.of_asks {ctx : EventSys S T D E M} (h : op'.asksMemory = true) :
    EventOpFits ctx op' := by
  refine ⟨?_, ?_, ?_⟩
  · rintro d e rfl
    cases h
  · rintro t e rfl
    cases h
  · rintro e es rfl
    cases h

theorem LegalEventOp.creates {ctx : EventSys S T D E M} (h : LegalEventOp static live ctx op')
    (hc : op'.creates = some e) : static e = false ∧ live e = false := by
  cases op' with
  | create id mem answer => exact h e hc
  | signal t eventId mem answer => exact h e hc
  | _ => cases hc

theorem blocksOut_of_not (h : live e = false) : blocksOut sys.ctx live asked e = none := by
  unfold blocksOut
  rw [if_neg (by rw [h]; exact Bool.false_ne_true)]

theorem blocksOut_of_live (h : live e = true) (hm : (sys.ctx.event e).mem = some mem) :
    blocksOut sys.ctx live asked e = some (mem, asked e) := by
  unfold blocksOut
  rw [if_pos h, hm]
  rfl

namespace EventMemsOk

theorem request (hA : A.Apart asks own Rep) (hstatic : ∀ mem e, own mem e → static e = false)
    (h : EventMemsOk Rep static sys live sent asked) {n : ℕ} (hn : asks mem n) {answer : Option E} {s : σ}
    (hrun : A.alloc (sys.mems mem) n = .ok (answer, s)) :
    (∀ e, answer = some e → static e = false ∧ live e = false) ∧
      Allocator.Holds Rep (Function.update sys.mems mem s) fun e =>
        if answer = some e then some (mem, n) else blocksOut sys.ctx live asked e := by
  cases answer with
  | none =>
    refine ⟨fun e he => (by cases he), ?_⟩
    have hsame : (fun e => if (none : Option E) = some e then some (mem, n)
        else blocksOut sys.ctx live asked e) = blocksOut sys.ctx live asked := by
      funext e
      exact if_neg (fun he => by cases he)
    rw [hsame]
    exact hA.refuse h.holds hn hrun
  | some a =>
    obtain ⟨hfresh, hown, hholds⟩ := hA.alloc h.holds hn hrun
    refine ⟨fun e he => ?_, ?_⟩
    · obtain rfl := Option.some.inj he
      refine ⟨hstatic mem a hown, Bool.eq_false_of_not_eq_true fun hl => ?_⟩
      obtain ⟨mem', hmem⟩ := h.owned a hl
      rw [blocksOut_of_live hl hmem] at hfresh
      cases hfresh
    · have hsame : (fun e => if some a = some e then some (mem, n)
          else blocksOut sys.ctx live asked e)
            = Function.update (blocksOut sys.ctx live asked) a (some (mem, n)) := by
        funext e
        by_cases he : e = a
        · rw [he, if_pos rfl, Function.update_self]
        · rw [if_neg (fun hc => he (Option.some.inj hc).symm), Function.update_of_ne he]
      rw [hsame]
      exact hholds

/-- **The answer of the allocators** is what the callers of the event functions rely on. -/
theorem answer (hA : A.Apart asks own Rep) (hstatic : ∀ mem e, own mem e → static e = false)
    (h : EventMemsOk Rep static sys live sent asked)
    (hl : LegalMemEventOp sizeofNevent asks static live sys.ctx op)
    (hrun : answerOp A sizeofNevent sys.mems op = .ok (op', mems)) :
    LegalEventOp static live sys.ctx op' ∧ EventOpFits sys.ctx op' ∧
      Allocator.Holds Rep mems fun e => if op'.creates = some e
        then op'.source.map fun mem => (mem, op.size sizeofNevent)
        else blocksOut sys.ctx live asked e := by
  cases op with
  | create id mem size =>
    obtain ⟨⟨answer, s⟩, halloc, hrun⟩ := bind_eq_ok.mp hrun
    obtain ⟨rfl, rfl⟩ := Prod.mk.inj (Except.ok.inj hrun)
    obtain ⟨hfresh, hholds⟩ := h.request hA hstatic hl halloc
    exact ⟨hfresh, .of_asks rfl, hholds⟩
  | signal t eventId mem =>
    obtain ⟨⟨answer, s⟩, halloc, hrun⟩ := bind_eq_ok.mp hrun
    obtain ⟨rfl, rfl⟩ := Prod.mk.inj (Except.ok.inj hrun)
    obtain ⟨hfresh, hholds⟩ := h.request hA hstatic hl halloc
    exact ⟨hfresh, .of_asks rfl, hholds⟩
  | call op =>
    obtain ⟨rfl, rfl⟩ := Prod.mk.inj (Except.ok.inj hrun)
    obtain ⟨hasks, hlegal, hfits⟩ := hl
    have hnone : op.creates = none := by
      cases op with
      | create => cases hasks
      | signal => cases hasks
      | _ => rfl
    refine ⟨hlegal, hfits, ?_⟩
    have hsame : (fun e => if op.creates = some e
        then op.source.map fun mem => (mem, MemEventOp.size sizeofNevent (.call op))
        else blocksOut sys.ctx live asked e) = blocksOut sys.ctx live asked := by
      funext e
      rw [hnone]
      exact if_neg (fun he => by cases he)
    rw [hsame]
    exact h.holds

theorem made (h : EventMemsOk Rep static sys live sent asked) {ctx : EventSys S T D E M}
    (hrun : runEventOp sch saturates sys.ctx op' = .ok ctx) (n : ℕ) (hmade : madeBy live op' e = true) :
    ∃ mem, (ctx.event e).mem = some mem ∧
      (if op'.creates = some e then op'.source.map fun mem => (mem, n)
        else blocksOut sys.ctx live asked e)
      = some (mem, if op'.creates = some e then n else asked e) := by
  have hmem := (runEventOp_mems hrun).1 e
  by_cases hc : op'.creates = some e
  · obtain ⟨_, mem, hsource, _⟩ := runEventOp_memsKept_create hc hrun
    rw [if_pos hc] at hmem
    refine ⟨mem, hmem.trans hsource, ?_⟩
    rw [if_pos hc, if_pos hc, hsource]
    rfl
  · have hl : live e = true := by
      unfold madeBy at hmade
      rw [decide_eq_false hc, Bool.or_false] at hmade
      exact hmade
    obtain ⟨mem, hown⟩ := h.owned e hl
    rw [if_neg hc] at hmem
    refine ⟨mem, hmem.trans hown, ?_⟩
    rw [if_neg hc, if_neg hc]
    exact blocksOut_of_live hl hown

theorem calls_out (h : EventMemsOk Rep static sys live sent asked) {ctx : EventSys S T D E M} (n : ℕ)
    (hrun : runEventOp sch saturates sys.ctx op' = .ok ctx) (hnodup : (newFrees sys.ctx ctx).Nodup)
    (hmade : ∀ e ∈ newFrees sys.ctx ctx, madeBy live op' e = true) :
    (newFreeCalls sys.ctx ctx).map Prod.snd = (newFrees sys.ctx ctx).reverse ∧
      ((newFreeCalls sys.ctx ctx).map Prod.snd).Nodup ∧
      ∀ c ∈ newFreeCalls sys.ctx ctx, ∃ mem k, c.1 = some mem ∧
        (if op'.creates = some c.2 then op'.source.map fun mem => (mem, n)
          else blocksOut sys.ctx live asked c.2) = some (mem, k) := by
  have hcalls := (runEventOp_mems hrun).2
  have hmap : (newFreeCalls sys.ctx ctx).map Prod.snd = (newFrees sys.ctx ctx).reverse := by
    rw [hcalls, List.map_map]
    exact List.map_id _
  refine ⟨hmap, by rw [hmap]; exact List.nodup_reverse.mpr hnodup, fun c hc => ?_⟩
  rw [hcalls] at hc
  obtain ⟨e, he, rfl⟩ := List.mem_map.mp hc
  obtain ⟨mem, hmem, hblock⟩ := h.made hrun n (hmade e (List.mem_reverse.mp he))
  exact ⟨mem, _, hmem, hblock⟩

/-- **The releases of a call**: what it gives back was out, and is no longer. -/
theorem giveBack (hA : A.Apart asks own Rep) (h : EventMemsOk Rep static sys live sent asked) {n : ℕ}
    (hholds : Allocator.Holds Rep mems fun e => if op'.creates = some e
      then op'.source.map fun mem => (mem, n) else blocksOut sys.ctx live asked e)
    {ctx : EventSys S T D E M} (hrun : runEventOp sch saturates sys.ctx op' = .ok ctx)
    (hnodup : (newFrees sys.ctx ctx).Nodup)
    (hmade : ∀ e ∈ newFrees sys.ctx ctx, madeBy live op' e = true) :
    ∃ mems', A.freeAll mems (newFreeCalls sys.ctx ctx) = .ok mems' ∧
      Allocator.Holds Rep mems' (blocksOut ctx (eventsLiveAfter live op' sys.ctx ctx)
        fun e => if op'.creates = some e then n else asked e) := by
  obtain ⟨hmap, hnodup', hcalls⟩ := h.calls_out n hrun hnodup hmade
  obtain ⟨mems', hfree, hout⟩ := hA.freeAll (newFreeCalls sys.ctx ctx) hholds hnodup' hcalls
  refine ⟨mems', hfree, ?_⟩
  have hafter : (blocksOut ctx (eventsLiveAfter live op' sys.ctx ctx)
      fun e => if op'.creates = some e then n else asked e)
        = fun e => if e ∈ (newFreeCalls sys.ctx ctx).map Prod.snd then none
          else if op'.creates = some e then op'.source.map fun mem => (mem, n)
          else blocksOut sys.ctx live asked e := by
    funext e
    rw [hmap]
    unfold blocksOut eventsLiveAfter without
    by_cases he : e ∈ newFrees sys.ctx ctx
    · rw [if_pos (List.mem_reverse.mpr he), decide_eq_true he, Bool.not_true, Bool.and_false]
      exact if_neg Bool.false_ne_true
    · rw [if_neg (fun hc => he (List.mem_reverse.mp hc)), decide_eq_false he, Bool.not_false,
        Bool.and_true]
      cases hlive : madeBy live op' e with
      | true =>
        obtain ⟨mem, hmem, hblock⟩ := h.made hrun n hlive
        rw [if_pos rfl, hmem]
        exact hblock.symm
      | false =>
        obtain ⟨hl, hc⟩ := Bool.or_eq_false_iff.mp hlive
        rw [if_neg Bool.false_ne_true, if_neg (of_decide_eq_false hc)]
        exact (blocksOut_of_not hl).symm
  rw [hafter]
  exact hout

theorem step_fault (hA : A.Apart asks own Rep) (hstatic : ∀ mem e, own mem e → static e = false)
    (h : EventMemsOk Rep static sys live sent asked)
    (hl : LegalMemEventOp sizeofNevent asks static live sys.ctx op) {f : Fault}
    (hf : runMemEventOp sch saturates A sizeofNevent sys op = .error f) :
    (∃ op', runEventOp sch saturates sys.ctx op' = .error f) ∨ f = .assertion ∧ ∀ op', op ≠ .call op' := by
  rcases bind_eq_error.mp hf with hanswer | ⟨⟨op', mems⟩, hanswer, hf⟩
  · right
    cases op with
    | create id mem size =>
      rcases bind_eq_error.mp hanswer with halloc | ⟨⟨r, s⟩, _, hanswer⟩
      · exact ⟨(hA.keeps mem).fault (h.holds mem) hl halloc, fun op' hop => by cases hop⟩
      · cases hanswer
    | signal t eventId mem =>
      rcases bind_eq_error.mp hanswer with halloc | ⟨⟨r, s⟩, _, hanswer⟩
      · exact ⟨(hA.keeps mem).fault (h.holds mem) hl halloc, fun op' hop => by cases hop⟩
      · cases hanswer
    | call op => cases hanswer
  · left
    obtain ⟨hlegal, hfits, hholds⟩ := h.answer hA hstatic hl hanswer
    rcases bind_eq_error.mp hf with hrun | ⟨ctx, hrun, hf⟩
    · exact ⟨op', hrun⟩
    · have hstep := h.events.step hlegal hfits hrun
      obtain ⟨mems', hfree, _⟩ := h.giveBack hA hholds hrun hstep.nodup fun e he => (hstep.freed e he).2
      rcases bind_eq_error.mp hf with hfault | ⟨mems'', _, hf⟩
      · rw [hfree] at hfault
        cases hfault
      · cases hf

/-- **One call** keeps it, and faults only where the scheduler does or a request is refused. -/
theorem step (hA : A.Apart asks own Rep) (hstatic : ∀ mem e, own mem e → static e = false)
    (h : EventMemsOk Rep static sys live sent asked)
    (hl : LegalMemEventOp sizeofNevent asks static live sys.ctx op) :
    (∀ f, runMemEventOp sch saturates A sizeofNevent sys op = .error f →
      (∃ s t, sch.insertI s t = .error f ∨ sch.removeI s t = .error f) ∨
      f = .assertion ∧ ∀ op', op ≠ .call op') ∧
    ∀ op' sys', runMemEventOp sch saturates A sizeofNevent sys op = .ok (op', sys') →
      EventMemsOk Rep static sys' (eventsLiveAfter live op' sys.ctx sys'.ctx)
        (eventsSentAfter sent op' sys.ctx) (askedAfter sizeofNevent asked op op') := by
  constructor
  · intro f hf
    exact (h.step_fault hA hstatic hl hf).imp_left fun ⟨op', hrun⟩ => runEventOp_fault hrun
  · intro op' sys' hrun
    obtain ⟨⟨op₁, mems⟩, hanswer, hrun⟩ := bind_eq_ok.mp hrun
    obtain ⟨ctx, hcall, hrun⟩ := bind_eq_ok.mp hrun
    obtain ⟨mems', hfree, hrun⟩ := bind_eq_ok.mp hrun
    obtain ⟨rfl, rfl⟩ := Prod.mk.inj (Except.ok.inj hrun)
    obtain ⟨hlegal, hfits, hholds⟩ := h.answer hA hstatic hl hanswer
    have hstep := h.events.step hlegal hfits hcall
    obtain ⟨mems'', hfree', hout⟩ := h.giveBack hA hholds hcall hstep.nodup
      fun e he => (hstep.freed e he).2
    obtain rfl := Except.ok.inj (hfree.symm.trans hfree')
    refine ⟨hstep.inv, fun e he => ?_, hout⟩
    obtain ⟨mem, hmem, _⟩ := h.made hcall 0 (Bool.and_eq_true_iff.mp he).1
    exact ⟨mem, hmem⟩

/-- **A user writes** into its event. -/
theorem write (hA : A.Apart asks own Rep) (h : EventMemsOk Rep static sys live sent asked)
    (hl : live e = true) {offset : ℕ} (ho : offset < asked e) (x : β) :
    EventMemsOk Rep static (sys.write A e offset x) live sent asked := by
  obtain ⟨mem, hmem⟩ := h.owned e hl
  unfold MemEpa.write
  rw [hmem]
  exact ⟨h.events, h.owned, hA.write h.holds (blocksOut_of_live hl hmem) ho x⟩

/-- **What an event holds** is left alone by a call that does not give it back. -/
theorem read_call {read : σ → E → ℕ → β} (hA : A.Apart asks own Rep)
    (hr : ∀ mem, A.Reads (asks mem) (Rep mem) read) (hstatic : ∀ mem e, own mem e → static e = false)
    (h : EventMemsOk Rep static sys live sent asked)
    (hl : LegalMemEventOp sizeofNevent asks static live sys.ctx op)
    (hrun : runMemEventOp sch saturates A sizeofNevent sys op = .ok (op', sys')) (he : live e = true)
    (he' : eventsLiveAfter live op' sys.ctx sys'.ctx e = true) {offset : ℕ} (ho : offset < asked e) :
    sys'.read read e offset = sys.read read e offset ∧
      askedAfter sizeofNevent asked op op' e = asked e := by
  obtain ⟨⟨op₁, mems⟩, hanswer, hrun⟩ := bind_eq_ok.mp hrun
  obtain ⟨ctx, hcall, hrun⟩ := bind_eq_ok.mp hrun
  obtain ⟨mems', hfree, hrun⟩ := bind_eq_ok.mp hrun
  obtain ⟨rfl, rfl⟩ := Prod.mk.inj (Except.ok.inj hrun)
  obtain ⟨hlegal, hfits, hholds⟩ := h.answer hA hstatic hl hanswer
  have hstep := h.events.step hlegal hfits hcall
  obtain ⟨hmap, hnodup', hcalls⟩ := h.calls_out (op.size sizeofNevent) hcall hstep.nodup
    fun e he => (hstep.freed e he).2
  obtain ⟨mem, hmem⟩ := h.owned e he
  -- a new event is at an address that was free
  have hne : op₁.creates ≠ some e := by
    intro hc
    have hfresh := (hlegal.creates hc).2
    rw [he] at hfresh
    cases hfresh
  have hout : (if op₁.creates = some e then op₁.source.map fun mem => (mem, op.size sizeofNevent)
      else blocksOut sys.ctx live asked e) = some (mem, asked e) :=
    (if_neg hne).trans (blocksOut_of_live he hmem)
  have hkept : e ∉ (newFreeCalls sys.ctx ctx).map Prod.snd := by
    rw [hmap]
    intro hc
    have hgone := (Bool.and_eq_true_iff.mp he').2
    rw [decide_eq_true (List.mem_reverse.mp hc)] at hgone
    cases hgone
  have hafter : read (mems' mem) e offset = read (mems mem) e offset :=
    hA.freeAll_read hr _ hholds hnodup' hcalls hfree hout ho hkept
  have hbefore : read (mems mem) e offset = read (sys.mems mem) e offset := by
    have hblock : blocksOut sys.ctx live asked e = some (mem, asked e) := blocksOut_of_live he hmem
    cases op with
    | create id m size =>
      obtain ⟨⟨answer, s⟩, halloc, hanswer⟩ := bind_eq_ok.mp hanswer
      obtain ⟨_, rfl⟩ := Prod.mk.inj (Except.ok.inj hanswer)
      exact Allocator.Apart.alloc_read hr h.holds hl halloc hblock ho
    | signal t eventId m =>
      obtain ⟨⟨answer, s⟩, halloc, hanswer⟩ := bind_eq_ok.mp hanswer
      obtain ⟨_, rfl⟩ := Prod.mk.inj (Except.ok.inj hanswer)
      exact Allocator.Apart.alloc_read hr h.holds hl halloc hblock ho
    | call op =>
      obtain ⟨_, rfl⟩ := Prod.mk.inj (Except.ok.inj hanswer)
      rfl
  have hsame : (ctx.event e).mem = some mem := by
    rw [(runEventOp_mems hcall).1 e, if_neg hne]
    exact hmem
  refine ⟨?_, if_neg hne⟩
  unfold MemEpa.read
  rw [hmem, hsame]
  exact congrArg some (hafter.trans hbefore)

/-- no block is out when no event is live -/
theorem none_out (h : EventMemsOk Rep static sys live sent asked) (hlive : ∀ e, live e = false) (mem : M) :
    Rep mem (sys.mems mem) fun _ => none := by
  have hnone : Allocator.share (blocksOut sys.ctx live asked) mem = fun _ => none := by
    funext e
    exact Allocator.share_none (blocksOut_of_not (hlive e))
  have hrep := h.holds mem
  rw [hnone] at hrep
  exact hrep

/-- **No leak**: without events in the queues, reserved or waiting to be sent, nothing is out. -/
theorem settled (h : EventMemsOk Rep static sys live sent asked) (hq : Settled sys.ctx live sent)
    (mem : M) :
    Rep mem (sys.mems mem) fun _ => none := by
  refine h.none_out (fun e => Bool.eq_false_of_not_eq_true fun hl => ?_) mem
  obtain ⟨hs, hattr⟩ := hq.sent e hl
  rcases h.events.kept hq.queue hq.loop hl with ⟨d, hd⟩ | hres | hunsent | hun
  · rw [hq.deferred d] at hd
    cases hd
  · exact hattr hres
  · rw [hs] at hunsent
    cases hunsent
  · rw [hq.unlocking] at hun
    cases hun

end EventMemsOk

/-! ## every state that is reached -/

/-- nothing is created yet, and no block is out -/
structure MemsStart (Rep : M → σ → (E → Option ℕ) → Prop) (static : E → Bool)
    (sys : MemEpa S T D E M σ) : Prop where
  events : EventsStart sys.ctx static
  mems : ∀ mem, Rep mem (sys.mems mem) fun _ => none

theorem MemsStart.ok (h : MemsStart Rep static sys) (asked : E → ℕ) :
    EventMemsOk Rep static sys (fun _ => false) (fun _ => false) asked := by
  refine ⟨h.events.inv, fun e hl => (by cases hl), fun mem => ?_⟩
  have hnone : Allocator.share (blocksOut sys.ctx (fun _ => false) asked) mem = fun _ => none := by
    funext e
    exact Allocator.share_none (blocksOut_of_not rfl)
  rw [hnone]
  exact h.mems mem

/-- **In every state that is reached** the blocks that are out of each memory object are the live events
that come from it. -/
theorem MemReach.ok (hA : A.Apart asks own Rep) (hstatic : ∀ mem e, own mem e → static e = false)
    (h₀ : MemsStart Rep static sys₀)
    (h : MemReach sch saturates A sizeofNevent asks static sys₀ sys live sent asked) :
    EventMemsOk Rep static sys live sent asked := by
  induction h with
  | start => exact h₀.ok _
  | call _ hl hrun ih => exact (ih.step hA hstatic hl).2 _ _ hrun
  | write _ hl ho _ x ih => exact ih.write hA hl ho x

end

end NeonEds
