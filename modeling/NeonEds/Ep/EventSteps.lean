import NeonEds.Ep.Drain
import NeonEds.Ep.RefCount

/-!
# The calls of events as steps of the agents

A call of `event.c` or `epa.c` (`EventOp`) is a few of the steps of the agents (`EpaStep`): what it does
to the events and to the deferred queues, and its sends.

* `EpaPath`              a legal run of steps from one state to another, put together from shorter ones;
* `runEventOp_path`      a call is a path of such steps; without a send in it, of quiet ones;
* `EpaInv.eventOp`       with the real scheduler no call faults;
* `EpaInv.fetchAll`      and the loop of `nepa_defer_fetch_all` ends.
-/

set_option linter.unusedSectionVars false

namespace NeonEds
open Exec Mailbox

variable {T D E M : Type} [DecidableEq T] [DecidableEq D] [DecidableEq E]

/-! ## paths -/

/-- the steps are legal and lead from `ctx` to `ctx'` -/
structure EpaPath (cfg : SchedConfig) (fuel : ℕ) (saturates : Bool) (registered : T → Bool)
    (ctx : EpaSys T D E M) (steps : List (EpaStep T D E M)) (notes : List (Note T E))
    (ctx' : EpaSys T D E M) : Prop where
  legal : LegalEpaRun cfg fuel saturates ctx registered steps
  run : epaRun cfg fuel saturates ctx steps = .ok (notes, ctx')

section
variable {cfg : SchedConfig} {fuel : ℕ} {saturates : Bool} {registered : T → Bool}
  {ctx ctx' ctx'' : EpaSys T D E M} {steps steps' : List (EpaStep T D E M)}
  {notes notes' : List (Note T E)} {m : Mailbox T E}

namespace EpaPath

theorem nil : EpaPath cfg fuel saturates registered ctx [] [] ctx := ⟨trivial, rfl⟩

theorem cons {step : EpaStep T D E M} {note : Option (Note T E)}
    (hl : LegalEpaStep ctx registered step)
    (hrun : runEpaStep cfg fuel saturates ctx step = .ok (note, ctx'))
    (h : EpaPath cfg fuel saturates (registeredAfter registered step) ctx' steps notes ctx'') :
    EpaPath cfg fuel saturates registered ctx (step :: steps) (note.toList ++ notes) ctx'' := by
  refine ⟨⟨hl, fun note₁ ctx₁ hrun₁ => ?_⟩, ?_⟩
  · obtain ⟨_, rfl⟩ := Prod.mk.inj (Except.ok.inj (hrun.symm.trans hrun₁))
    exact h.legal
  · rw [epaRun_cons hrun, h.run, ok_bind]

theorem single {step : EpaStep T D E M} {note : Option (Note T E)}
    (hl : LegalEpaStep ctx registered step)
    (hrun : runEpaStep cfg fuel saturates ctx step = .ok (note, ctx')) :
    EpaPath cfg fuel saturates registered ctx [step] note.toList ctx' := by
  have h := cons hl hrun nil
  rw [List.append_nil] at h
  exact h

theorem append (steps : List (EpaStep T D E M)) : ∀ {registered : T → Bool} {ctx : EpaSys T D E M}
    {notes : List (Note T E)}, EpaPath cfg fuel saturates registered ctx steps notes ctx' →
    EpaPath cfg fuel saturates (steps.foldl registeredAfter registered) ctx' steps' notes' ctx'' →
    EpaPath cfg fuel saturates registered ctx (steps ++ steps') (notes ++ notes') ctx'' := by
  induction steps with
  | nil =>
    intro registered ctx notes h h'
    obtain ⟨rfl, rfl⟩ := Prod.mk.inj (Except.ok.inj h.run)
    exact h'
  | cons step steps ih =>
    intro registered ctx notes h h'
    obtain ⟨⟨note, ctx₁⟩, hstep, hrun⟩ := bind_eq_ok.mp h.run
    obtain ⟨⟨notes₁, ctx₂⟩, hrest, hrun⟩ := bind_eq_ok.mp hrun
    obtain ⟨rfl, rfl⟩ := Prod.mk.inj (Except.ok.inj hrun)
    rw [List.append_assoc]
    exact cons h.legal.1 hstep (ih ⟨h.legal.2 _ _ hstep, hrest⟩ h')

theorem inv (h : EpaPath cfg fuel saturates registered ctx steps notes ctx')
    (hcfg : OneBucketPerLevel cfg) (hinv : EpaInv cfg ctx registered m) :
    ∃ m', EpaInv cfg ctx' (steps.foldl registeredAfter registered) m' := by
  obtain ⟨notes', ctx₁, m', hrun', _, hinv'⟩ := hinv.notes hcfg fuel saturates steps h.legal
  obtain ⟨_, rfl⟩ := Prod.mk.inj (Except.ok.inj (h.run.symm.trans hrun'))
  exact ⟨m', hinv'⟩

theorem quiet [Fintype T] (h : EpaPath cfg fuel saturates registered ctx steps notes ctx')
    (hcfg : OneBucketPerLevel cfg) (hinv : EpaInv cfg ctx registered m)
    (hq : ∀ step ∈ steps, step.Quiet) :
    QuietRun cfg ctx ctx' registered steps notes ∧
      ∀ t, passedTo t notes ++ nqueueItems (ctx'.queue t) = nqueueItems (ctx.queue t) := by
  obtain ⟨notes', ctx₁, m', hrun', hm, hinv', hquiet⟩ := hinv.quietRun hcfg steps hq h.legal
  obtain ⟨rfl, rfl⟩ := Prod.mk.inj (Except.ok.inj (h.run.symm.trans hrun'))
  exact ⟨hquiet, hquiet.passed hinv hinv' hm⟩

end EpaPath

end

/-! ## a call as a path -/

/-- a step that is no registration and no choice of the loop -/
def EpaStep.IsCall : EpaStep T D E M → Prop
  | .register _ => False
  | .schedule => False
  | _ => True

/-- the call sends nothing -/
def EventOp.Quiet : EventOp T D E M → Prop
  | .send _ _ => False
  | .signal _ _ _ _ => False
  | .fetchSend => False
  | _ => True

/-- the loop chooses an agent -/
def EventOp.IsChoice : EventOp T D E M → Prop
  | .start _ => True
  | .initStart _ => True
  | _ => False

theorem foldl_registeredAfter {registered : T → Bool} (steps : List (EpaStep T D E M))
    (h : ∀ step ∈ steps, step.IsCall) : steps.foldl registeredAfter registered = registered := by
  induction steps with
  | nil => rfl
  | cons step steps ih =>
    have hstep : registeredAfter registered step = registered := by
      cases step with
      | register t => exact absurd (h _ List.mem_cons_self) id
      | _ => rfl
    rw [List.foldl_cons, hstep]
    exact ih fun s hs => h s (List.mem_cons_of_mem _ hs)

theorem schedules_of_calls {steps : List (EpaStep T D E M)} (h : ∀ step ∈ steps, step.IsCall) :
    schedules steps = 0 := by
  refine List.countP_eq_zero.mpr fun step hs => ?_
  have hcall := h step hs
  cases step with
  | schedule => exact absurd hcall id
  | _ => exact Bool.false_ne_true

/-- a path of calls; without a send nothing is noted -/
def CallPath (cfg : SchedConfig) (fuel : ℕ) (saturates : Bool) (registered : T → Bool) (Sends : Prop)
    (ctx ctx' : EpaSys T D E M) : Prop :=
  ∃ steps notes, EpaPath cfg fuel saturates registered ctx steps notes ctx' ∧
    (∀ step ∈ steps, step.IsCall) ∧ (¬ Sends → notes = [] ∧ ∀ step ∈ steps, step.Quiet)

section
variable {cfg : SchedConfig} {fuel : ℕ} {saturates : Bool} {registered : T → Bool} {Sends : Prop}
  {ctx ctx' ctx'' : EpaSys T D E M} {error : Nerror} {t : T} {d : D} {e : E} {m : Mailbox T E}
  {sys sys' : EventSys (SchedCtx 32 T EpaFn) T D E M} {op : EventOp T D E M}

namespace CallPath

theorem refl : CallPath cfg fuel saturates registered Sends ctx ctx :=
  ⟨[], [], .nil, fun _ hs => (by cases hs), fun _ => ⟨rfl, fun _ hs => by cases hs⟩⟩

theorem trans (h : CallPath cfg fuel saturates registered Sends ctx ctx')
    (h' : CallPath cfg fuel saturates registered Sends ctx' ctx'') :
    CallPath cfg fuel saturates registered Sends ctx ctx'' := by
  obtain ⟨steps, notes, hpath, hcall, hquiet⟩ := h
  obtain ⟨steps', notes', hpath', hcall', hquiet'⟩ := h'
  refine ⟨steps ++ steps', notes ++ notes', hpath.append steps ?_, fun step hs => ?_, fun hsend => ?_⟩
  · rw [foldl_registeredAfter steps hcall]
    exact hpath'
  · rcases List.mem_append.mp hs with hs | hs
    · exact hcall step hs
    · exact hcall' step hs
  · obtain ⟨hn, hq⟩ := hquiet hsend
    obtain ⟨hn', hq'⟩ := hquiet' hsend
    refine ⟨by rw [hn, hn']; rfl, fun step hs => ?_⟩
    rcases List.mem_append.mp hs with hs | hs
    · exact hq step hs
    · exact hq' step hs

theorem single (step : EpaStep T D E M) (note : Option (Note T E)) (hcall : step.IsCall)
    (hquiet : ¬ Sends → note = none ∧ step.Quiet) (hl : LegalEpaStep ctx registered step)
    (hrun : runEpaStep cfg fuel saturates ctx step = .ok (note, ctx')) :
    CallPath cfg fuel saturates registered Sends ctx ctx' := by
  refine ⟨[step], note.toList, .single hl hrun, fun s hs => ?_, fun hsend => ?_⟩
  · rw [List.mem_singleton.mp hs]
    exact hcall
  · obtain ⟨hnote, hq⟩ := hquiet hsend
    refine ⟨by rw [hnote]; rfl, fun s hs => ?_⟩
    rw [List.mem_singleton.mp hs]
    exact hq

theorem memory (mem : EventMem E M) (deferred : D → Nqueue E) :
    CallPath cfg fuel saturates registered Sends ctx
      { ctx.withMem mem with deferred := deferred } :=
  single (.memory mem deferred) none trivial (fun _ => ⟨rfl, trivial⟩) trivial rfl

theorem returns (hctl : ctx.ctl = .dispatching t e) :
    CallPath cfg fuel saturates registered Sends ctx (epaDispatchRefDown saturates ctx t e) := by
  refine single .returns none trivial (fun _ => ⟨rfl, trivial⟩) ⟨t, e, hctl⟩ ?_
  unfold runEpaStep
  simp only [hctl]

theorem send (hrun : nepaSendEventI (edsScheduler cfg fuel) saturates ctx t e = .ok (error, ctx')) :
    CallPath cfg fuel saturates registered True ctx ctx' := by
  refine single (.send t e) (noteOf (.put t e) error) trivial (fun hsend => absurd trivial hsend)
    trivial ?_
  rw [runEpaStep, hrun, ok_bind]
  rfl

end CallPath

variable [Fintype T] [Fintype D] {static live sent : E → Bool}

/-- **A call is a path of calls.** -/
theorem runEventOp_path (hop : ¬ op.IsChoice)
    (hrun : runEventOp (edsScheduler cfg fuel) saturates sys op = .ok sys') :
    CallPath cfg fuel saturates registered (¬ op.Quiet) sys.toEpaCtx sys'.toEpaCtx := by
  have hsends : ∀ {ctx ctx' : EpaSys T D E M}, ¬ op.Quiet →
      CallPath cfg fuel saturates registered True ctx ctx' →
      CallPath cfg fuel saturates registered (¬ op.Quiet) ctx ctx' :=
    fun hq ⟨steps, notes, hpath, hcall, _⟩ => ⟨steps, notes, hpath, hcall, fun hn => absurd hq hn⟩
  cases op with
  | create id mem answer =>
    obtain rfl := Except.ok.inj hrun
    exact CallPath.memory _ sys.deferred
  | send t e =>
    obtain ⟨⟨error, ctx₁⟩, hsend, hrun⟩ := bind_eq_ok.mp hrun
    obtain rfl := Except.ok.inj hrun
    exact hsends id (CallPath.send hsend)
  | signal t eventId mem answer =>
    cases answer with
    | none =>
      obtain rfl := Except.ok.inj hrun
      exact CallPath.memory _ sys.deferred
    | some e =>
      obtain ⟨⟨error, ctx₁⟩, hsend, hrun⟩ := bind_eq_ok.mp hrun
      obtain rfl := Except.ok.inj hrun
      exact hsends id ((CallPath.memory (eventInit sys.toEventMem e eventId mem) sys.deferred).trans
        (CallPath.send hsend))
  | defer d e =>
    obtain rfl := Except.ok.inj hrun
    by_cases hfull : nqueueIsFull (sys.deferred d) = false
    · show CallPath _ _ _ _ _ _ (nepaDeferEvent saturates sys.toEpaCtx d e).2
      rw [nepaDeferEvent_room saturates hfull]
      exact CallPath.memory _ _
    · show CallPath _ _ _ _ _ _ (nepaDeferEvent saturates sys.toEpaCtx d e).2
      unfold nepaDeferEvent
      rw [if_neg hfull]
      exact CallPath.refl
  | fetch t d =>
    simp only [runEventOp] at hrun
    split at hrun
    · obtain rfl := Except.ok.inj hrun
      exact CallPath.memory (EventMem.refDown saturates sys.toEventMem (nqueueGet (sys.deferred d)).1)
        (Function.update sys.deferred d (nqueueGet (sys.deferred d)).2)
    · obtain rfl := Except.ok.inj hrun
      exact CallPath.refl
  | fetchSend =>
    simp only [runEventOp] at hrun
    split at hrun
    · obtain ⟨⟨error, ctx₁⟩, hsend, hrun⟩ := bind_eq_ok.mp hrun
      obtain rfl := Except.ok.inj hrun
      exact hsends id (CallPath.send hsend)
    · obtain rfl := Except.ok.inj hrun
      exact CallPath.refl
  | initStart t => exact absurd trivial hop
  | initFinish =>
    simp only [runEventOp] at hrun
    split at hrun
    · obtain ⟨ctx, hend, hrun⟩ := bind_eq_ok.mp hrun
      obtain rfl := Except.ok.inj hrun
      refine CallPath.single .finish none trivial (fun _ => ⟨rfl, trivial⟩) (.inl ⟨_, ‹sys.ctl = _›⟩) ?_
      unfold runEpaStep
      simp only [‹sys.ctl = _›, hend, ok_bind, pure_eq]
    · obtain rfl := Except.ok.inj hrun
      exact CallPath.refl
  | start t => exact absurd trivial hop
  | returns =>
    simp only [runEventOp] at hrun
    split at hrun
    · obtain rfl := Except.ok.inj hrun
      exact CallPath.returns ‹sys.ctl = _›
    · obtain rfl := Except.ok.inj hrun
      exact CallPath.refl
  | finish =>
    simp only [runEventOp] at hrun
    split at hrun
    · obtain ⟨ctx, hend, hrun⟩ := bind_eq_ok.mp hrun
      obtain rfl := Except.ok.inj hrun
      refine CallPath.single .finish none trivial (fun _ => ⟨rfl, trivial⟩)
        (.inr ⟨_, _, ‹sys.ctl = _›⟩) ?_
      unfold runEpaStep
      simp only [‹sys.ctl = _›, hend, ok_bind, pure_eq]
    · obtain rfl := Except.ok.inj hrun
      exact CallPath.refl
  | lock e =>
    obtain rfl := Except.ok.inj hrun
    exact CallPath.memory _ sys.deferred
  | unlock e =>
    simp only [runEventOp] at hrun
    split at hrun
    · obtain rfl := Except.ok.inj hrun
      exact CallPath.memory _ sys.deferred
    · obtain rfl := Except.ok.inj hrun
      exact CallPath.refl
  | unlockRead =>
    simp only [runEventOp] at hrun
    split at hrun
    · obtain rfl := Except.ok.inj hrun
      exact CallPath.refl
    · obtain rfl := Except.ok.inj hrun
      exact CallPath.refl
  | unlockFree =>
    simp only [runEventOp] at hrun
    split at hrun
    · obtain rfl := Except.ok.inj hrun
      exact CallPath.memory _ sys.deferred
    · obtain rfl := Except.ok.inj hrun
      exact CallPath.refl

/-! ## no call faults -/

theorem EpaInv.fetch (h : EpaInv cfg ctx registered m) (hcfg : OneBucketPerLevel cfg) (fuel : ℕ)
    (saturates : Bool) (d : D) (t : T) :
    ∃ error ctx' m', deferFetch (edsScheduler cfg fuel) saturates d t ctx = .ok (error, ctx') ∧
      EpaInv cfg ctx' registered m' := by
  have h₁ : EpaInv cfg ((ctx.setDeferred d (nqueueGet (ctx.deferred d)).2).withMem
      (ctx.refDown saturates (nqueueGet (ctx.deferred d)).1)) registered m := h.memory rfl rfl rfl
  obtain ⟨error, ctx', m', hsend, _, h'⟩ :=
    h₁.send hcfg fuel saturates t (nqueueGet (ctx.deferred d)).1
  exact ⟨error, ctx', m', hsend, h'⟩

/-- **No call faults.** -/
theorem EpaInv.eventOp (h : EpaInv cfg sys.toEpaCtx registered m) (hcfg : OneBucketPerLevel cfg)
    (fuel : ℕ) (saturates : Bool) (op : EventOp T D E M) :
    ∃ sys', runEventOp (edsScheduler cfg fuel) saturates sys op = .ok sys' := by
  cases op with
  | send t e =>
    obtain ⟨error, ctx', m', hsend, _⟩ := h.send hcfg fuel saturates t e
    exact ⟨_, by rw [runEventOp, hsend, ok_bind]; rfl⟩
  | signal t eventId mem answer =>
    cases answer with
    | none => exact ⟨_, rfl⟩
    | some e =>
      have h₁ : EpaInv cfg (sys.withMem (eventInit sys.toEventMem e eventId mem)) registered m :=
        h.memory rfl rfl rfl
      obtain ⟨error, ctx', m', hsend, _⟩ := h₁.send hcfg fuel saturates t e
      refine ⟨{ sys with toEpaCtx := ctx' }, ?_⟩
      show (nepaSendEventI _ saturates _ t e >>= _) = _
      rw [hsend, ok_bind]
      rfl
  | fetch t d =>
    by_cases hempty : nqueueIsEmpty (sys.deferred d) = false
    · exact ⟨_, by simp only [runEventOp, if_pos hempty]; rfl⟩
    · exact ⟨sys, by simp only [runEventOp, if_neg hempty]⟩
  | fetchSend =>
    cases hf : sys.fetching with
    | none => exact ⟨sys, by simp only [runEventOp, hf]⟩
    | some x =>
      obtain ⟨error, ctx', m', hsend, _⟩ := h.send hcfg fuel saturates x.1 x.2
      exact ⟨_, by simp only [runEventOp, hf, hsend, ok_bind]; rfl⟩
  | initFinish =>
    cases hctl : sys.ctl with
    | initialising t =>
      obtain ⟨ctx', hend, _⟩ := h.finishInit hcfg fuel hctl
      exact ⟨_, by simp only [runEventOp, hctl, hend, ok_bind]; rfl⟩
    | _ => exact ⟨sys, by simp only [runEventOp, hctl]⟩
  | returns =>
    cases hctl : sys.ctl with
    | dispatching t e => exact ⟨_, by simp only [runEventOp, hctl]; rfl⟩
    | _ => exact ⟨sys, by simp only [runEventOp, hctl]⟩
  | finish =>
    cases hctl : sys.ctl with
    | dispatched t e =>
      obtain ⟨ctx', hend, _⟩ := h.finish hcfg fuel hctl
      exact ⟨_, by simp only [runEventOp, hctl, hend, ok_bind]; rfl⟩
    | _ => exact ⟨sys, by simp only [runEventOp, hctl]⟩
  | unlock e =>
    simp only [runEventOp]
    split
    · exact ⟨_, rfl⟩
    · exact ⟨_, rfl⟩
  | unlockRead =>
    simp only [runEventOp]
    split
    · exact ⟨_, rfl⟩
    · exact ⟨_, rfl⟩
  | unlockFree =>
    simp only [runEventOp]
    split
    · exact ⟨_, rfl⟩
    · exact ⟨_, rfl⟩
  | _ => exact ⟨_, rfl⟩

end

end NeonEds
