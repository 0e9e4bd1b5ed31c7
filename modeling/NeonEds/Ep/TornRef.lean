import NeonEds.Ep.RefCount

/-!
# A reference that is given up while interrupts come

`epa_dispatch_i` calls `nevent_ref_down` outside of the critical section.  In the ports `pic32-none-gcc` and
`stm32f4xx-none-arm` the decrement of `ncore_atomic_dec` is no single step: the counter is compared with
zero, loaded, and stored.  `tornRefDown` is this decrement with the states at these three places;
between them interrupts make calls (`IsrRun`), and after it the run goes on.

* `IsrRun.inv`           interrupts alone keep what holds between the calls;
* `tornRefDown_eq`       when they leave the places of the event alone between the load and the store, the
                         decrement is the atomic one;
* `tornDispatch_iff`     then, and only then, the references are counted after the store and in every run
                         that follows and fits.
-/

set_option linter.unusedSectionVars false

namespace NeonEds
open Exec

variable {S T D E M : Type} [DecidableEq T] [DecidableEq D] [DecidableEq E] [Fintype T] [Fintype D]

/-- the calls that an interrupt may make -/
def EventOp.isIsr : EventOp T D E M → Bool
  | .create .. => true
  | .send .. => true
  | .signal .. => true
  | .lock .. => true
  | .unlock .. => true
  | .unlockRead => true
  | .unlockFree => true
  | _ => false

/-- the calls of the interrupts that come at one place, as a watcher sees them -/
inductive IsrRun (sch : Scheduler S T) (saturates : Bool) (static : E → Bool) :
    EventSys S T D E M → (E → Bool) → (E → Bool) →
    EventSys S T D E M → (E → Bool) → (E → Bool) → Prop where
  | nil {sys : EventSys S T D E M} {live sent : E → Bool} :
      IsrRun sch saturates static sys live sent sys live sent
  | cons {sys sys₁ sys' : EventSys S T D E M} {live sent live' sent' : E → Bool}
      {op : EventOp T D E M} (hisr : op.isIsr = true) (hl : LegalEventOp static live sys op)
      (hfit : EventOpFits sys op) (hrun : runEventOp sch saturates sys op = .ok sys₁)
      (h : IsrRun sch saturates static sys₁ (eventsLiveAfter live op sys sys₁)
        (eventsSentAfter sent op sys) sys' live' sent') :
      IsrRun sch saturates static sys live sent sys' live' sent'

omit [Fintype T] [Fintype D] in
/-- the attribute and the counter are checked in `sys`, the counter is loaded in `sys₁`, and one less is
stored in `sys₂` -/
def tornRefDown (sys sys₁ sys₂ : EventSys S T D E M) (t : T) (e : E) : EventSys S T D E M :=
  if (sys.event e).attrib ≠ 0#32 ∧ (sys.event e).ref ≠ 0#32 then
    { sys₂ with
      toEventMem := sys₂.setEvent e { sys₂.event e with ref := (sys₁.event e).ref - 1#32 }
      ctl := .dispatched t e }
  else { sys₂ with ctl := .dispatched t e }

section
variable {sch : Scheduler S T} {saturates : Bool} {static live live₁ live₂ sent sent₁ sent₂ : E → Bool}
  {sys sys₁ sys₂ sys' : EventSys S T D E M} {ctx ctx' : EpaCtx S T D E M} {t : T} {e : E}

/-! ## the calls of the interrupts -/

theorem nepaSendEventI_ctl {error : Nerror}
    (hrun : nepaSendEventI sch saturates ctx t e = .ok (error, ctx')) : ctx'.ctl = ctx.ctl := by
  unfold nepaSendEventI at hrun
  split at hrun
  · dsimp only at hrun
    split at hrun
    · obtain ⟨sched, _, hrun⟩ := bind_eq_ok.mp hrun
      rw [← (Prod.mk.inj (Except.ok.inj hrun)).2]
      rfl
    · rw [← (Prod.mk.inj (Except.ok.inj hrun)).2]
      rfl
  · rw [← (Prod.mk.inj (Except.ok.inj hrun)).2]

theorem runEventOp_isr {op : EventOp T D E M} (hisr : op.isIsr = true)
    (hrun : runEventOp sch saturates sys op = .ok sys') :
    sys'.ctl = sys.ctl ∧ sys'.fetching = sys.fetching := by
  cases op with
  | create id mem answer =>
    obtain rfl := Except.ok.inj hrun
    exact ⟨rfl, rfl⟩
  | send t e =>
    obtain ⟨⟨error, ctx₁⟩, hsend, hrun⟩ := bind_eq_ok.mp hrun
    obtain rfl := Except.ok.inj hrun
    exact ⟨nepaSendEventI_ctl hsend, rfl⟩
  | signal t eventId mem answer =>
    cases answer with
    | none =>
      obtain rfl := Except.ok.inj hrun
      exact ⟨rfl, rfl⟩
    | some e =>
      obtain ⟨⟨error, ctx₁⟩, hsend, hrun⟩ := bind_eq_ok.mp hrun
      obtain rfl := Except.ok.inj hrun
      have hctl := nepaSendEventI_ctl hsend
      exact ⟨hctl, rfl⟩
  | lock e =>
    obtain rfl := Except.ok.inj hrun
    exact ⟨rfl, rfl⟩
  | unlock e =>
    simp only [runEventOp] at hrun
    split at hrun
    · obtain rfl := Except.ok.inj hrun
      exact ⟨rfl, rfl⟩
    · obtain rfl := Except.ok.inj hrun
      exact ⟨rfl, rfl⟩
  | unlockRead =>
    simp only [runEventOp] at hrun
    split at hrun
    · obtain rfl := Except.ok.inj hrun
      exact ⟨rfl, rfl⟩
    · obtain rfl := Except.ok.inj hrun
      exact ⟨rfl, rfl⟩
  | unlockFree =>
    simp only [runEventOp] at hrun
    split at hrun
    · obtain rfl := Except.ok.inj hrun
      exact ⟨rfl, rfl⟩
    · obtain rfl := Except.ok.inj hrun
      exact ⟨rfl, rfl⟩
  | _ => cases hisr

/-- **Interrupts keep what holds between the calls.** -/
theorem IsrRun.inv (h : IsrRun sch saturates static sys live sent sys' live₁ sent₁)
    (hinv : EventsInv sys static live sent) :
    EventsInv sys' static live₁ sent₁ ∧ sys'.ctl = sys.ctl ∧ sys'.fetching = sys.fetching := by
  induction h with
  | nil => exact ⟨hinv, rfl, rfl⟩
  | cons hisr hl hfit hrun h ih =>
    obtain ⟨hinv', hctl, hfetching⟩ := ih (hinv.step hl hfit hrun).inv
    obtain ⟨hctl₁, hfetching₁⟩ := runEventOp_isr hisr hrun
    exact ⟨hinv', hctl.trans hctl₁, hfetching.trans hfetching₁⟩

/-! ## the event that is dispatched -/

theorem places_dispatching (hctl : ctx.ctl = .dispatching t e) : 0 < places ctx e := by
  unfold places
  rw [hctl]
  show 0 < _ + (if e = e then 1 else 0)
  rw [if_pos rfl]
  exact Nat.succ_pos _

/-- the three states: `nevent_ref_down` is called, and interrupts come before the load and before the
store -/
structure TornStates (sch : Scheduler S T) (saturates : Bool) (static : E → Bool)
    (sys : EventSys S T D E M) (live sent : E → Bool) (t : T) (e : E) (sys₁ : EventSys S T D E M)
    (sys₂ : EventSys S T D E M) (live₂ sent₂ : E → Bool) : Prop where
  inv : EventsInv sys static live sent
  ctl : sys.ctl = .dispatching t e
  fetching : sys.fetching = none
  isr : ∃ live₁ sent₁, IsrRun sch saturates static sys live sent sys₁ live₁ sent₁ ∧
    IsrRun sch saturates static sys₁ live₁ sent₁ sys₂ live₂ sent₂
  /-- the interrupts have returned -/
  unlocking : sys₂.unlocking = []

namespace TornStates

theorem store_inv (h : TornStates sch saturates static sys live sent t e sys₁ sys₂ live₂ sent₂) :
    EventsInv sys₂ static live₂ sent₂ ∧ sys₂.ctl = .dispatching t e ∧ sys₂.fetching = none := by
  obtain ⟨live₁, sent₁, h₁, h₂⟩ := h.isr
  obtain ⟨hinv₁, hctl₁, hfetching₁⟩ := h₁.inv h.inv
  obtain ⟨hinv₂, hctl₂, hfetching₂⟩ := h₂.inv hinv₁
  exact ⟨hinv₂, hctl₂.trans (hctl₁.trans h.ctl), hfetching₂.trans (hfetching₁.trans h.fetching)⟩

theorem counted (h : TornStates sch saturates static sys live sent t e sys₁ sys₂ live₂ sent₂)
    (hs : static e = false) :
    (sys.event e).attrib ≠ 0#32 ∧ (sys.event e).ref ≠ 0#32 ∧
      (∃ n, places sys₁.toEpaCtx e = n + 1 ∧ (sys₁.event e).ref.toInt = (n + 1 : ℕ)) ∧
      (sys₂.event e).attrib ≠ 0#32 ∧ (sys₂.event e).ref.toInt = places sys₂.toEpaCtx e ∧
      live₂ e = true := by
  have hlive : ∀ {sys : EventSys S T D E M} {live sent : E → Bool}, EventsInv sys static live sent →
      sys.ctl = .dispatching t e → live e = true := by
    intro sys live sent hinv hctl
    refine (hinv.ok.live_of_place (Nat.ne_of_gt (places_dispatching hctl))).resolve_left ?_
    rw [hs]
    exact Bool.false_ne_true
  obtain ⟨live₁, sent₁, h₁, h₂⟩ := h.isr
  obtain ⟨hinv₁, hctl₁, _⟩ := h₁.inv h.inv
  obtain ⟨hinv₂, hctl₂, _⟩ := h.store_inv
  have hctl₁' := hctl₁.trans h.ctl
  have hl := hlive h.inv h.ctl
  have hl₁ := hlive hinv₁ hctl₁'
  have hl₂ := hlive hinv₂ hctl₂
  have href := ((h.inv.ok.refs e).ref_eq_zero_iff hl).not.mpr (Nat.ne_of_gt (places_dispatching h.ctl))
  refine ⟨(h.inv.ok.refs e).attrib_ne hl, href, ?_, (hinv₂.ok.refs e).attrib_ne hl₂,
    (hinv₂.ok.refs e).count hl₂, hl₂⟩
  obtain ⟨n, hn⟩ := Nat.exists_eq_succ_of_ne_zero (Nat.ne_of_gt (places_dispatching hctl₁'))
  refine ⟨n, hn, ?_⟩
  rw [(hinv₁.ok.refs e).count hl₁, hn]

/-- **The decrement is the atomic one** when the event is static or its places were left alone. -/
theorem tornRefDown_eq (h : TornStates sch saturates static sys live sent t e sys₁ sys₂ live₂ sent₂)
    (hkept : static e = true ∨ places sys₂.toEpaCtx e = places sys₁.toEpaCtx e) :
    runEventOp sch saturates sys₂ .returns = .ok (tornRefDown sys sys₁ sys₂ t e) := by
  obtain ⟨hinv₂, hctl₂, _⟩ := h.store_inv
  simp only [runEventOp, hctl₂]
  cases hs : static e with
  | true =>
    have hattr := ((h.inv.ok.refs e).static hs).1
    have hattr₂ := ((hinv₂.ok.refs e).static hs).1
    have hsame : sys₂.toEventMem.refDown saturates e = sys₂.toEventMem := by
      unfold EventMem.refDown neventRefDown EventMem.setEvent
      rw [if_neg (not_not.mpr hattr₂), Function.update_eq_self]
    unfold tornRefDown epaDispatchRefDown
    rw [if_neg (fun hc => hc.1 hattr), hsame]
    rfl
  | false =>
    obtain ⟨hattr, href, ⟨n, hn, hcount₁⟩, hattr₂, hcount₂, _⟩ := h.counted hs
    rw [hs] at hkept
    have hplaces := hkept.resolve_left Bool.false_ne_true
    have hsame : (sys₁.event e).ref = (sys₂.event e).ref := by
      apply BitVec.eq_of_toInt_eq
      rw [hcount₁, hcount₂, hplaces, hn]
    have hne : ¬ (saturates = true ∧ (sys₂.event e).ref = 0#32) := by
      rintro ⟨_, hzero⟩
      rw [hzero, BitVec.toInt_zero, hplaces, hn] at hcount₂
      omega
    unfold tornRefDown epaDispatchRefDown EventMem.refDown neventRefDown ncoreAtomicDec
    rw [if_pos hattr₂, if_neg hne, if_pos ⟨hattr, href⟩, hsame]
    rfl

theorem stored_inv (h : TornStates sch saturates static sys live sent t e sys₁ sys₂ live₂ sent₂)
    (hkept : static e = true ∨ places sys₂.toEpaCtx e = places sys₁.toEpaCtx e) :
    EventsInv (tornRefDown sys sys₁ sys₂ t e) static live₂ sent₂ := by
  obtain ⟨hinv₂, _, hfetching₂⟩ := h.store_inv
  have hfit : EventOpFits sys₂ (.returns : EventOp T D E M) :=
    ⟨fun _ _ hc => (by cases hc), fun _ _ hc => (by cases hc), fun _ _ hc => (by cases hc)⟩
  have hl : LegalEventOp static live₂ sys₂ (.returns : EventOp T D E M) := ⟨hfetching₂, h.unlocking⟩
  have hstep := (hinv₂.step hl hfit (h.tornRefDown_eq hkept)).inv
  have hfrees : Frees sys₂.toEpaCtx (tornRefDown sys sys₁ sys₂ t e).toEpaCtx live₂ [] := by
    apply Frees.refl
    unfold tornRefDown
    split <;> rfl
  rw [eventsSentAfter_nil sent₂ rfl rfl, eventsLiveAfter, madeBy_of_none live₂ rfl, hfrees.newFrees_eq,
    without_nil] at hstep
  exact hstep

theorem not_stored (h : TornStates sch saturates static sys live sent t e sys₁ sys₂ live₂ sent₂)
    (hs : static e = false)
    (hsound : EventsSound (tornRefDown sys sys₁ sys₂ t e) static live₂ sent₂) :
    places sys₂.toEpaCtx e = places sys₁.toEpaCtx e := by
  obtain ⟨hattr, href, ⟨n, hn, hcount₁⟩, _, _, hlive⟩ := h.counted hs
  obtain ⟨_, hctl₂, _⟩ := h.store_inv
  have hcount := (hsound.counted e).count hlive
  have htorn : tornRefDown sys sys₁ sys₂ t e = { sys₂ with
      toEventMem := sys₂.setEvent e { sys₂.event e with ref := (sys₁.event e).ref - 1#32 }
      ctl := .dispatched t e } := if_pos ⟨hattr, href⟩
  have hself : ((tornRefDown sys sys₁ sys₂ t e).event e).ref = (sys₁.event e).ref - 1#32 := by
    rw [htorn]
    show (Function.update sys₂.event e _ e).ref = _
    rw [Function.update_self]
  have hplaces : places (tornRefDown sys sys₁ sys₂ t e).toEpaCtx e + 1 = places sys₂.toEpaCtx e := by
    rw [htorn]
    unfold places
    show _ + _ + 0 + 1 = _ + _ + sys₂.ctl.holds e
    rw [hctl₂]
    show _ = _ + _ + (if e = e then 1 else 0)
    rw [if_pos rfl]
    rfl
  rw [hself, toInt_sub_one hcount₁] at hcount
  omega

end TornStates

/-- **A dispatch whose reference is not given up at once**, and what follows it, leave the references
counted iff the event is static or is in as many places when the counter is stored as it was when it was
loaded, and every later call fits. -/
theorem tornDispatch_iff
    (h : TornStates sch saturates static sys live sent t e sys₁ sys₂ live₂ sent₂)
    (ops : List (EventOp T D E M))
    (hl : LegalEventRun sch saturates static (tornRefDown sys sys₁ sys₂ t e) live₂ ops) :
    EventsSound (tornRefDown sys sys₁ sys₂ t e) static live₂ sent₂ ∧
        EventRunSound sch saturates static (tornRefDown sys sys₁ sys₂ t e) live₂ sent₂ ops ↔
      (static e = true ∨ places sys₂.toEpaCtx e = places sys₁.toEpaCtx e) ∧
        EventRunFits sch saturates (tornRefDown sys sys₁ sys₂ t e) ops := by
  constructor
  · rintro ⟨hsound, hrun⟩
    have hkept : static e = true ∨ places sys₂.toEpaCtx e = places sys₁.toEpaCtx e := by
      cases hs : static e with
      | true => exact .inl rfl
      | false => exact .inr (h.not_stored hs hsound)
    exact ⟨hkept, ((h.stored_inv hkept).sound_iff ops hl).mp hrun⟩
  · rintro ⟨hkept, hfits⟩
    have hinv := h.stored_inv hkept
    exact ⟨hinv.sound, (hinv.sound_iff ops hl).mpr hfits⟩

end

/-! ## an event that is sent again while its dispatch ends -/

/-- the event is dispatched, and in no queue -/
def lastDispatch : EventSys Unit Unit Unit Unit Unit :=
  { oneQueue 1 with
    event := fun _ => { mem := none, id := 0, attrib := neventAttrDynamic, ref := 1#32 }
    ctl := .dispatching () () }

theorem lastDispatch_inv :
    EventsInv lastDispatch (fun _ => false) (fun _ => true) (fun _ => true) := by
  have hstart := oneQueue_start (k := 1) (by decide) (by decide)
  have hone : places lastDispatch.toEpaCtx () = 1 := by
    unfold places
    simp [lastDispatch, fun t => (hstart.queue t).2, fun d => (hstart.deferred d).2, EpaCtl.holds]
  refine ⟨⟨fun t => (hstart.queue t).1, fun d => (hstart.deferred d).1, fun e => ?_⟩,
    by rintro _ ⟨⟩, fun _ he => (by cases he), by rintro _ _ ⟨⟩⟩
  rw [hone]
  exact ⟨fun hs => absurd hs Bool.false_ne_true, fun _ => Or.inl rfl, fun _ => rfl,
    fun _ hl => absurd hl Bool.noConfusion, fun _ _ => Or.inl Nat.one_pos⟩

/-- an interrupt sends it between the load and the store -/
def sentAgain : EventSys Unit Unit Unit Unit Unit :=
  { lastDispatch with
    event := fun _ => { mem := none, id := 0, attrib := neventAttrDynamic, ref := 2#32 }
    queue := Function.update lastDispatch.queue () (nqueuePutFifo (lastDispatch.queue ()) ()) }

theorem sentAgain_run : runEventOp idleScheduler false lastDispatch (.send () ()) = .ok sentAgain := by
  have hev : (EventMem.refUp false lastDispatch.toEventMem ()).event = sentAgain.event := by
    funext e
    cases e
    rfl
  show Except.ok { sentAgain with event := (EventMem.refUp false lastDispatch.toEventMem ()).event } = _
  rw [hev]

theorem tornDispatch_sentAgain : ¬ (
    EventsSound (tornRefDown lastDispatch lastDispatch sentAgain () ()) (fun _ => false)
      (eventsLiveAfter (fun _ => true) (.send () () : EventOp Unit Unit Unit Unit) lastDispatch sentAgain)
      (eventsSentAfter (fun _ => true) (.send () () : EventOp Unit Unit Unit Unit) lastDispatch) ∧
    EventRunSound idleScheduler false (fun _ => false)
      (tornRefDown lastDispatch lastDispatch sentAgain () ())
      (eventsLiveAfter (fun _ => true) (.send () () : EventOp Unit Unit Unit Unit) lastDispatch sentAgain)
      (eventsSentAfter (fun _ => true) (.send () () : EventOp Unit Unit Unit Unit) lastDispatch)
      [.finish]) := by
  intro hc
  have hfit : EventOpFits lastDispatch (.send () () : EventOp Unit Unit Unit Unit) := by
    refine ⟨fun _ _ hop => (by cases hop), fun t e _ he => ?_, fun _ _ hop => (by cases hop)⟩
    cases he
  have hl : LegalEventOp (fun _ => false) (fun _ => true) lastDispatch
      (.send () () : EventOp Unit Unit Unit Unit) := .inr rfl
  have hstates := TornStates.mk lastDispatch_inv rfl rfl
    ⟨_, _, .nil, .cons rfl hl hfit sentAgain_run .nil⟩ rfl
  have hkept := ((tornDispatch_iff hstates [.finish] ⟨rfl, fun _ _ => trivial⟩).mp hc).1
  have hone : (lastDispatch.event ()).ref.toInt = places lastDispatch.toEpaCtx () :=
    (lastDispatch_inv.ok.refs ()).count rfl
  have htwo : (sentAgain.event ()).ref.toInt = places sentAgain.toEpaCtx () :=
    (hstates.store_inv.1.ok.refs ()).count rfl
  have h2 : (sentAgain.event ()).ref.toInt = 2 := rfl
  have h1 : (lastDispatch.event ()).ref.toInt = 1 := rfl
  rcases hkept with hs | hp
  · cases hs
  · omega

end NeonEds
