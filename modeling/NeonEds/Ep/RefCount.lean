import NeonEds.Ep.EventRuns

/-!
# Runs of the event functions

* `LegalEventRun`      every call of the run is legal where it is made;
* `EventRunSound`      only the scheduler may fault; after every call the reference counts are right, and
                       what the call gave back was live and is given back once;
* `EventRunFits`       every call fits;
* `neventUnlock_steps`, `nepaDeferFetchAll_turns`   without interrupts the steps are the functions.

`eventRunSound_iff_fits`: a legal run is sound iff it fits.  `unlockedInHand`: a reserved event is released
between the two last parts of its dispatch, and given back twice.
-/

set_option linter.unusedSectionVars false

namespace NeonEds
open Exec

variable {S T D E M : Type} [DecidableEq T] [DecidableEq D] [DecidableEq E] [Fintype T] [Fintype D]

section
variable (sch : Scheduler S T) (saturates : Bool) (static : E → Bool)

def LegalEventRun : EventSys S T D E M → (E → Bool) → List (EventOp T D E M) → Prop
  | _, _, [] => True
  | sys, live, op :: ops => LegalEventOp static live sys op ∧
      ∀ sys', runEventOp sch saturates sys op = .ok sys' →
        LegalEventRun sys' (eventsLiveAfter live op sys sys') ops

def EventRunSound : EventSys S T D E M → (E → Bool) → (E → Bool) → List (EventOp T D E M) → Prop
  | _, _, _, [] => True
  | sys, live, sent, op :: ops =>
      (∀ f, runEventOp sch saturates sys op = .error f →
        ∃ s t, sch.insertI s t = .error f ∨ sch.removeI s t = .error f) ∧
      ∀ sys', runEventOp sch saturates sys op = .ok sys' →
        EventsSound sys' static (eventsLiveAfter live op sys sys') (eventsSentAfter sent op sys) ∧
        (newFrees sys sys').Nodup ∧
        (∀ e ∈ newFrees sys sys', static e = false ∧ madeBy live op e = true) ∧
        EventRunSound sys' (eventsLiveAfter live op sys sys') (eventsSentAfter sent op sys) ops

def EventRunFits : EventSys S T D E M → List (EventOp T D E M) → Prop
  | _, [] => True
  | sys, op :: ops => EventOpFits sys op ∧
      ∀ sys', runEventOp sch saturates sys op = .ok sys' → EventRunFits sys' ops

end

section
variable {sch : Scheduler S T} {saturates : Bool} {sys sys' : EventSys S T D E M}
  {static live sent : E → Bool} {op : EventOp T D E M} {t : T} {d : D} {e : E}

/-! ## the functions without interrupts -/

/-- `nevent_unlock` is its steps -/
theorem neventUnlock_steps (hun : sys.unlocking = []) :
    [EventOp.unlock e, .unlockRead, .unlockFree].foldlM (runEventOp sch saturates) sys
      = .ok { sys with toEpaCtx := sys.withMem (neventUnlock sys.toEventMem e) } := by
  by_cases hattrib : (sys.event e).attrib ≠ 0#32
  · let sys₁ : EventSys S T D E M := { sys with
      toEpaCtx := sys.withMem (neventUnreserve sys.toEventMem e)
      unlocking := (e, false) :: sys.unlocking }
    have hunlock : runEventOp sch saturates sys (.unlock e) = .ok sys₁ := if_pos hattrib
    have href : (sys₁.event e).ref = (sys.event e).ref := neventUnreserve_ref sys.toEventMem e
    have hread : runEventOp sch saturates sys₁ .unlockRead = .ok { sys₁ with
        unlocking := if (sys.event e).ref = 0#32 then [(e, true)] else [] } := by
      rw [← href, ← hun]
      rfl
    rw [List.foldlM_cons, hunlock, ok_bind, List.foldlM_cons, hread, ok_bind, List.foldlM_cons,
      neventUnlock_eq hattrib]
    split
    · rw [hun]
      rfl
    · rw [hun]
      rfl
  · have hunlock : runEventOp sch saturates sys (.unlock e) = .ok sys := if_neg hattrib
    have hread : runEventOp sch saturates sys .unlockRead = .ok sys := by
      simp only [runEventOp, hun]
    have hfree : runEventOp sch saturates sys .unlockFree = .ok sys := by
      simp only [runEventOp, hun]
    have hsame : neventUnlock sys.toEventMem e = sys.toEventMem := if_neg hattrib
    rw [List.foldlM_cons, hunlock, ok_bind, List.foldlM_cons, hread, ok_bind, List.foldlM_cons, hfree,
      ok_bind, List.foldlM_nil, hsame]
    rfl

/-- one event goes from the deferred queue `d` to the agent `t` -/
def FetchTurn (sch : Scheduler S T) (saturates : Bool) (t : T) (d : D)
    (sys sys' : EventSys S T D E M) : Prop :=
  ∃ sys₁, runEventOp sch saturates sys (.fetch t d) = .ok sys₁ ∧
    runEventOp sch saturates sys₁ .fetchSend = .ok sys'

theorem deferFetch_turn (hf : sys.fetching = none) (hempty : nqueueIsEmpty (sys.deferred d) = false)
    {error : Nerror} {ctx' : EpaCtx S T D E M}
    (hrun : deferFetch sch saturates d t sys.toEpaCtx = .ok (error, ctx')) :
    FetchTurn sch saturates t d sys { sys with toEpaCtx := ctx' } := by
  refine ⟨_, if_pos hempty, ?_⟩
  show (deferFetch sch saturates d t sys.toEpaCtx >>= _) = _
  rw [hrun, ok_bind, ← hf]
  rfl

/-- `nepa_defer_fetch_one` is one turn or none -/
theorem nepaDeferFetchOne_turns (hf : sys.fetching = none) {error : Nerror} {ctx' : EpaCtx S T D E M}
    (hrun : nepaDeferFetchOne sch saturates sys.toEpaCtx t d = .ok (error, ctx')) :
    Relation.ReflTransGen (FetchTurn sch saturates t d) sys { sys with toEpaCtx := ctx' } := by
  unfold nepaDeferFetchOne at hrun
  split at hrun
  · exact .single (deferFetch_turn hf ‹_› hrun)
  · obtain ⟨_, rfl⟩ := Prod.mk.inj (Except.ok.inj hrun)
    exact .refl

/-- **`nepa_defer_fetch_all`** makes turns. -/
theorem nepaDeferFetchAll_turns (hf : sys.fetching = none) {error : Nerror} {ctx' : EpaCtx S T D E M}
    (hrun : nepaDeferFetchAll sch saturates sys.toEpaCtx t d = .ok (error, ctx')) :
    Relation.ReflTransGen (FetchTurn sch saturates t d) sys { sys with toEpaCtx := ctx' } := by
  have hloop := (whileLoop_eq_ok.mp hrun).1
  have hbody : ∀ s s' : Nerror × EpaCtx S T D E M, fetchCond d s = true →
      deferFetch sch saturates d t s.2 = .ok s' →
      Relation.ReflTransGen (FetchTurn sch saturates t d) { sys with toEpaCtx := s.2 }
        { sys with toEpaCtx := s'.2 } := by
    rintro ⟨error, ctx⟩ ⟨error', ctx'⟩ hcond hfetch
    have hempty : nqueueIsEmpty (ctx.deferred d) = false := by
      have hnot := (Bool.and_eq_true_iff.mp hcond).2
      rwa [Bool.not_eq_true'] at hnot
    let sys₁ : EventSys S T D E M := { sys with toEpaCtx := ctx }
    have hf₁ : sys₁.fetching = none := hf
    exact .single (deferFetch_turn hf₁ hempty hfetch)
  exact iterLoop_rel _ (fun _ => .refl) (fun _ _ _ h h' => h.trans h') hbody _ _ _ hloop

/-! ## one call -/

theorem fault_of_send {ctx : EpaCtx S T D E M} {t : T} {f : Fault}
    {g : Nerror × EpaCtx S T D E M → EventSys S T D E M}
    (h : (nepaSendEventI sch saturates ctx t e >>= fun r => .ok (g r)) = .error f) :
    ∃ s t, sch.insertI s t = .error f ∨ sch.removeI s t = .error f := by
  rcases bind_eq_error.mp h with hfault | ⟨r, _, hfault⟩
  · obtain ⟨s, t, hinsert⟩ := EventsOk.send_fault hfault
    exact ⟨s, t, .inl hinsert⟩
  · cases hfault

theorem fault_of_remove {s : S} {t : T} {f : Fault} {g : S → EpaCtx S T D E M}
    {g' : EpaCtx S T D E M → EventSys S T D E M}
    (h : ((sch.removeI s t >>= fun s => .ok (g s)) >>= fun r => .ok (g' r)) = .error f) :
    ∃ s t, sch.insertI s t = .error f ∨ sch.removeI s t = .error f := by
  rcases bind_eq_error.mp h with hfault | ⟨_, _, hfault⟩
  · rcases bind_eq_error.mp hfault with hremove | ⟨_, _, hfault⟩
    · exact ⟨s, t, .inr hremove⟩
    · cases hfault
  · cases hfault

/-- **A call faults only where the scheduler does.** -/
theorem runEventOp_fault {f : Fault} (hrun : runEventOp sch saturates sys op = .error f) :
    ∃ s t, sch.insertI s t = .error f ∨ sch.removeI s t = .error f := by
  cases op with
  | send t e => exact fault_of_send hrun
  | signal t eventId mem answer =>
    cases answer with
    | none => cases hrun
    | some e => exact fault_of_send hrun
  | fetch t d =>
    simp only [runEventOp] at hrun
    split at hrun
    · cases hrun
    · cases hrun
  | fetchSend =>
    simp only [runEventOp] at hrun
    split at hrun
    · exact fault_of_send hrun
    · cases hrun
  | initFinish =>
    simp only [runEventOp] at hrun
    split at hrun
    · exact fault_of_remove hrun
    · cases hrun
  | returns =>
    simp only [runEventOp] at hrun
    split at hrun
    · cases hrun
    · cases hrun
  | finish =>
    simp only [runEventOp] at hrun
    split at hrun
    · exact fault_of_remove hrun
    · cases hrun
  | unlock e =>
    simp only [runEventOp] at hrun
    split at hrun
    · cases hrun
    · cases hrun
  | unlockRead =>
    simp only [runEventOp] at hrun
    split at hrun
    · cases hrun
    · cases hrun
  | unlockFree =>
    simp only [runEventOp] at hrun
    split at hrun
    · cases hrun
    · cases hrun
  | _ => cases hrun

/-- a full queue is refused without the scheduler -/
theorem nepaSendEventI_full {ctx : EpaCtx S T D E M} {t : T} (saturates : Bool)
    (hfull : nqueueIsFull (ctx.queue t) = true) (hzero : neventRef (ctx.event e) = 0) :
    ∃ ctx', nepaSendEventI sch saturates ctx t e = .ok (.noResource, ctx') := by
  have hlim : neventRef (ctx.event e) < neventRefLimit := by
    rw [hzero]
    decide
  have hroom : ¬ nqueueIsFull ((ctx.withMem (ctx.refUp saturates e)).queue t) = false := by
    rw [Bool.not_eq_false]
    exact hfull
  unfold nepaSendEventI
  rw [if_pos hlim]
  dsimp only
  rw [if_neg hroom]
  exact ⟨_, rfl⟩

namespace EventsInv

/-- a counter that is raised by `nepa_defer_event` at its end is wrong -/
theorem defer_overflow {ctx : EpaCtx S T D E M} {sent sent' : E → Bool}
    (h : EventsOk ctx static live sent) (hsl : static e = true ∨ live e = true)
    (hfull : nqueueIsFull (ctx.deferred d) = false) (hattr : (ctx.event e).attrib ≠ 0#32)
    (href : (ctx.event e).ref = int32Max) :
    ¬ RefsCounted (nepaDeferEvent saturates ctx d e).2 static live sent' := by
  intro hc
  have hl : live e = true := hsl.resolve_left (fun hs => hattr ((h.refs e).static hs).1)
  have hbefore := (h.refs e).count hl
  have hafter := (hc e).count hl
  have hlt := BitVec.toInt_lt (x := ((nepaDeferEvent saturates ctx d e).2.event e).ref)
  have hmax : int32Max.toInt = 2147483647 := rfl
  rw [places_deferEvent saturates (h.deferred d) hfull, List.count_singleton_self] at hafter
  rw [href] at hbefore
  omega

theorem eventsLiveAfter_defer (saturates : Bool) (live : E → Bool) (sys : EventSys S T D E M) (d : D)
    (e : E) : eventsLiveAfter live (.defer (T := T) (M := M) d e) sys
      { sys with toEpaCtx := (nepaDeferEvent saturates sys.toEpaCtx d e).2 } = live := by
  have hfrees : Frees sys.toEpaCtx (nepaDeferEvent saturates sys.toEpaCtx d e).2 live [] := by
    apply Frees.refl
    unfold nepaDeferEvent
    by_cases hfull : nqueueIsFull (sys.deferred d) = false
    · rw [if_pos hfull]
      rfl
    · rw [if_neg hfull]
  have hnew : newFrees sys { sys with toEpaCtx := (nepaDeferEvent saturates sys.toEpaCtx d e).2 } = [] :=
    Frees.newFrees_eq hfrees
  unfold eventsLiveAfter
  rw [hnew, without_nil, madeBy_of_none live rfl]

theorem defer_fits (h : EventsInv sys static live sent) (hl : LegalEventOp static live sys op)
    (hs : ∀ sys', runEventOp sch saturates sys op = .ok sys' →
      EventsSound sys' static (eventsLiveAfter live op sys sys') (eventsSentAfter sent op sys)) :
    ∀ d e, op = .defer d e → nqueueIsFull (sys.deferred d) = false →
      (sys.event e).attrib ≠ 0#32 → (sys.event e).ref ≠ int32Max := by
  rintro d e rfl hfull hattr href
  have hcount := (hs _ rfl).counted
  rw [eventsLiveAfter_defer] at hcount
  exact defer_overflow h.ok hl hfull hattr href hcount

theorem send_fits (h : EventsInv sys static live sent) {t : T}
    (hc : CallOk sys sys' static live (sys.outOfHand sent) (.send t e))
    (hs : EventsSound sys' static (eventsLiveAfter live (.send t e) sys sys')
      (eventsSentAfter sent (.send t e) sys))
    (hin : e ∈ sys.inHand) : e ∉ sendFrees sys.toEpaCtx t e := by
  intro he
  have hfrees := hc.frees
  rw [madeBy_of_none live rfl] at hfrees
  have hsame := EventSys.inHand_congr (EventSys.loopHand_congr hc.ctl hc.fetching)
    (congrArg _ hc.unlocking)
  rw [← hsame] at hin
  rcases hs.inHand e hin with hst | hafter
  · rw [h.static_of_live (hfrees.live e he)] at hst
    cases hst
  · unfold eventsLiveAfter without at hafter
    rw [hfrees.newFrees_eq, Bool.and_eq_true_iff, Bool.not_eq_true', decide_eq_false_iff_not] at hafter
    exact hafter.2 he

theorem unlockFree_fits (h : EventsInv sys static live sent) {us : List (E × Bool)}
    (hun : sys.unlocking = (e, true) :: us)
    (hs : ∀ sys', runEventOp sch saturates sys .unlockFree = .ok sys' →
      EventsSound sys' static (eventsLiveAfter live .unlockFree sys sys')
        (eventsSentAfter sent .unlockFree sys)) :
    (sys.event e).ref = 0#32 ∧ sys.loopHand ≠ some e ∧ e ∉ us.map Prod.fst := by
  have hl : live e = true := h.unlocking e (by rw [hun]; exact List.mem_cons_self)
  have hst := h.static_of_live hl
  let sys' : EventSys S T D E M := { sys with
    toEpaCtx := sys.withMem (sys.toEventMem.nmemFreeI e)
    unlocking := us }
  have hsound := hs sys' (by simp only [runEventOp, hun]; rfl)
  have hfrees : Frees sys.toEpaCtx sys'.toEpaCtx live [e] := by
    refine ⟨rfl, List.nodup_singleton e, fun x hx => ?_⟩
    rw [List.mem_singleton.mp hx]
    exact hl
  have hfreed : eventsLiveAfter live .unlockFree sys sys' e = false := by
    unfold eventsLiveAfter without
    rw [hfrees.newFrees_eq, decide_eq_true (List.mem_singleton_self e), Bool.not_true, Bool.and_false]
  have hnot : e ∉ sys'.inHand := by
    intro he
    rcases hsound.inHand e he with hst' | hafter
    · rw [hst] at hst'
      cases hst'
    · rw [hfreed] at hafter
      cases hafter
  have hn : places sys.toEpaCtx e = 0 := (hsound.counted e).freed hst hfreed
  rw [EventSys.mem_inHand, not_or] at hnot
  exact ⟨((h.ok.refs e).ref_eq_zero_iff hl).mpr hn, hnot⟩

/-- **A sound call fits.** -/
theorem fits_of_sound (h : EventsInv sys static live sent) (hl : LegalEventOp static live sys op)
    (hs : ∀ sys', runEventOp sch saturates sys op = .ok sys' →
      EventsSound sys' static (eventsLiveAfter live op sys sys') (eventsSentAfter sent op sys)) :
    EventOpFits sys op := by
  have hfit := h.defer_fits hl hs
  refine ⟨hfit, ?_, ?_⟩
  · rintro t e rfl hin hfull hzero
    obtain ⟨ctx', hsend⟩ : ∃ ctx', nepaSendEventI sch saturates sys.toEpaCtx t e
        = .ok (.noResource, ctx') := nepaSendEventI_full saturates hfull hzero
    have hrun : runEventOp sch saturates sys (.send t e) = .ok { sys with toEpaCtx := ctx' } := by
      rw [runEventOp, hsend, ok_bind]
      rfl
    refine h.send_fits (h.ok.call rfl hl hfit hrun) (hs _ hrun) hin ?_
    unfold sendFrees
    rw [if_pos ⟨hfull, hzero⟩]
    exact List.mem_singleton_self e
  · rintro e us rfl hun
    exact h.unlockFree_fits hun hs

/-- **A legal run** from a state in which the references are counted. -/
theorem sound_iff (ops : List (EventOp T D E M)) : ∀ {sys : EventSys S T D E M} {live sent : E → Bool},
    EventsInv sys static live sent → LegalEventRun sch saturates static sys live ops →
    (EventRunSound sch saturates static sys live sent ops ↔ EventRunFits sch saturates sys ops) := by
  induction ops with
  | nil => exact fun _ _ => Iff.rfl
  | cons op ops ih =>
    intro sys live sent h hl
    constructor
    · intro hs
      have hfit := h.fits_of_sound hl.1 fun sys' hrun => (hs.2 sys' hrun).1
      refine ⟨hfit, fun sys' hrun => ?_⟩
      have hstep := h.step hl.1 hfit hrun
      exact (ih hstep.inv (hl.2 sys' hrun)).mp (hs.2 sys' hrun).2.2.2
    · intro hf
      refine ⟨fun f hfault => runEventOp_fault hfault, fun sys' hrun => ?_⟩
      have hstep := h.step hl.1 hf.1 hrun
      exact ⟨hstep.inv.sound, hstep.nodup, hstep.freed,
        (ih hstep.inv (hl.2 sys' hrun)).mpr (hf.2 sys' hrun)⟩

end EventsInv

/-! ## runs -/

/-- nothing is created yet and the queues are empty -/
structure EventsStart (sys : EventSys S T D E M) (static : E → Bool) : Prop where
  queue : ∀ t, QueueOk (sys.queue t) ∧ nqueueItems (sys.queue t) = []
  deferred : ∀ d, QueueOk (sys.deferred d) ∧ nqueueItems (sys.deferred d) = []
  ctl : sys.ctl = .loop
  fetching : sys.fetching = none
  unlocking : sys.unlocking = []
  static : ∀ e, static e = true → (sys.event e).attrib = 0#32 ∧ (sys.event e).ref = 0#32

theorem EventsStart.inv (h : EventsStart sys static) :
    EventsInv sys static (fun _ => false) (fun _ => false) := by
  have hnone := EventSys.loopHand_none (by rw [h.ctl]; rintro _ _ ⟨⟩) h.fetching
  refine ⟨⟨fun t => (h.queue t).1, fun d => (h.deferred d).1, fun e => ?_⟩, fun e he => ?_,
    fun e he => ?_, fun t e he => ?_⟩
  · have hzero : places sys.toEpaCtx e = 0 := by
      unfold places
      simp [fun t => (h.queue t).2, fun d => (h.deferred d).2, h.ctl, EpaCtl.holds]
    rw [hzero]
    exact ⟨fun hs => ⟨(h.static e hs).1, (h.static e hs).2, rfl⟩, fun hl => absurd hl Bool.false_ne_true,
      fun hl => absurd hl Bool.false_ne_true, fun _ _ => rfl, fun hl => absurd hl Bool.false_ne_true⟩
  · rw [hnone] at he
    cases he
  · rw [h.unlocking] at he
    cases he
  · rw [h.fetching] at he
    cases he

/-- **In every legal run the references are counted and every event is freed once, iff no counter at
its end is raised by `nepa_defer_event` and no event is given back while it is in hand or queued.** -/
theorem eventRunSound_iff_fits (h : EventsStart sys static) (ops : List (EventOp T D E M))
    (hl : LegalEventRun sch saturates static sys (fun _ => false) ops) :
    EventRunSound sch saturates static sys (fun _ => false) (fun _ => false) ops ↔
      EventRunFits sch saturates sys ops :=
  h.inv.sound_iff ops hl

end

/-- one agent and one deferred queue, of `2 ^ k` slots each, and one event; the scheduler does nothing -/
def oneQueue (k : ℕ) : EventSys Unit Unit Unit Unit Unit where
  event := fun _ => { mem := none, id := 0, attrib := 0#32, ref := 0#32 }
  frees := []
  sched := ()
  queue := fun _ => nqueueInit (2 ^ k) (fun _ => ())
  deferred := fun _ => nqueueInit (2 ^ k) (fun _ => ())
  ctl := .loop
  fetching := none
  unlocking := []

def idleScheduler : Scheduler Unit Unit where
  insertI := fun _ _ => .ok ()
  removeI := fun _ _ => .ok ()
  setDispatch := fun _ _ _ => ()

theorem oneQueue_start {k : ℕ} (h1 : 1 ≤ k) (h31 : k ≤ 31) :
    EventsStart (oneQueue k) (fun _ => false) :=
  ⟨fun _ => nqueueInit_ok h1 h31 _, fun _ => nqueueInit_ok h1 h31 _, rfl, rfl, rfl,
    fun _ hs => absurd hs Bool.false_ne_true⟩

/-- an event is created, sent, reserved, handled, deferred, fetched, handled again, and given back when
the reservation ends -/
def deferredOnce : List (EventOp Unit Unit Unit Unit) :=
  [.create 1 () (some ()), .send () (), .lock (), .start (), .defer () (), .returns, .finish,
    .initStart (), .fetch () (), .fetchSend, .initFinish, .start (), .returns, .finish, .unlock (),
    .unlockRead, .unlockFree]

theorem deferredOnce_legal : LegalEventRun idleScheduler false (fun _ => false) (oneQueue 1)
    (fun _ => false) deferredOnce := by
  refine ⟨fun e _ => ⟨rfl, rfl⟩, fun sys₁ h₁ => ?_⟩
  cases h₁
  refine ⟨.inr rfl, fun sys₂ h₂ => ?_⟩
  cases h₂
  refine ⟨.inr rfl, fun sys₃ h₃ => ?_⟩
  cases h₃
  refine ⟨⟨rfl, rfl, rfl⟩, fun sys₄ h₄ => ?_⟩
  cases h₄
  refine ⟨.inr rfl, fun sys₅ h₅ => ?_⟩
  cases h₅
  refine ⟨⟨rfl, rfl⟩, fun sys₆ h₆ => ?_⟩
  cases h₆
  refine ⟨rfl, fun sys₇ h₇ => ?_⟩
  cases h₇
  refine ⟨⟨rfl, rfl⟩, fun sys₈ h₈ => ?_⟩
  cases h₈
  refine ⟨⟨rfl, rfl, rfl⟩, fun sys₉ h₉ => ?_⟩
  cases h₉
  refine ⟨rfl, fun sys₁₀ h₁₀ => ?_⟩
  cases h₁₀
  refine ⟨⟨rfl, rfl⟩, fun sys₁₁ h₁₁ => ?_⟩
  cases h₁₁
  refine ⟨⟨rfl, rfl, rfl⟩, fun sys₁₂ h₁₂ => ?_⟩
  cases h₁₂
  refine ⟨⟨rfl, rfl⟩, fun sys₁₃ h₁₃ => ?_⟩
  cases h₁₃
  refine ⟨rfl, fun sys₁₄ h₁₄ => ?_⟩
  cases h₁₄
  refine ⟨.inr rfl, fun sys₁₅ h₁₅ => ?_⟩
  cases h₁₅
  refine ⟨trivial, fun sys₁₆ h₁₆ => ?_⟩
  cases h₁₆
  exact ⟨trivial, fun _ _ => trivial⟩

theorem eventRunSound_iff_fits_deferredOnce :
    EventRunSound idleScheduler false (fun _ => false) (oneQueue 1) (fun _ => false) (fun _ => false)
        deferredOnce ↔
      EventRunFits idleScheduler false (oneQueue 1) deferredOnce :=
  eventRunSound_iff_fits (oneQueue_start (by decide) (by decide)) deferredOnce deferredOnce_legal

/-- a reserved event is sent and dispatched, and the reservation ends when the dispatch has given its
reference up -/
def unlockedInHand : List (EventOp Unit Unit Unit Unit) :=
  [.create 1 () (some ()), .lock (), .send () (), .start (), .returns, .unlock (), .unlockRead,
    .unlockFree, .finish]

theorem unlockedInHand_legal : LegalEventRun idleScheduler false (fun _ => false) (oneQueue 1)
    (fun _ => false) unlockedInHand := by
  refine ⟨fun e _ => ⟨rfl, rfl⟩, fun sys₁ h₁ => ?_⟩
  cases h₁
  refine ⟨.inr rfl, fun sys₂ h₂ => ?_⟩
  cases h₂
  refine ⟨.inr rfl, fun sys₃ h₃ => ?_⟩
  cases h₃
  refine ⟨⟨rfl, rfl, rfl⟩, fun sys₄ h₄ => ?_⟩
  cases h₄
  refine ⟨⟨rfl, rfl⟩, fun sys₅ h₅ => ?_⟩
  cases h₅
  refine ⟨.inr rfl, fun sys₆ h₆ => ?_⟩
  cases h₆
  refine ⟨trivial, fun sys₇ h₇ => ?_⟩
  cases h₇
  refine ⟨trivial, fun sys₈ h₈ => ?_⟩
  cases h₈
  exact ⟨rfl, fun _ _ => trivial⟩

/-- it is given back by `nevent_unlock` and by the end of the dispatch -/
theorem unlockedInHand_freedTwice :
    EventsStart (oneQueue 1) (fun _ => false) ∧
    LegalEventRun idleScheduler false (fun _ => false) (oneQueue 1) (fun _ => false) unlockedInHand ∧
    (∃ sys, unlockedInHand.foldlM (runEventOp idleScheduler false) (oneQueue 1) = .ok sys ∧
      sys.frees = [(some (), ()), (some (), ())]) ∧
    ¬ EventRunSound idleScheduler false (fun _ => false) (oneQueue 1) (fun _ => false)
      (fun _ => false) unlockedInHand := by
  have hstart := oneQueue_start (k := 1) (by decide) (by decide)
  refine ⟨hstart, unlockedInHand_legal, ⟨_, rfl, rfl⟩, fun hs => ?_⟩
  have hfit := (hstart.inv.sound_iff unlockedInHand unlockedInHand_legal).mp hs
  have h₁ := hfit.2 _ rfl
  have h₂ := h₁.2 _ rfl
  have h₃ := h₂.2 _ rfl
  have h₄ := h₃.2 _ rfl
  have h₅ := h₄.2 _ rfl
  have h₆ := h₅.2 _ rfl
  have h₇ := h₆.2 _ rfl
  exact (h₇.1.unlockFree () [] rfl rfl).2.1 rfl

end NeonEds
