import NeonEds.Ep.EventBlocks
import NeonEds.Ep.EventSteps

/-!
# The event driven system

The agents on the scheduler, the calls of events and the memory objects in one system.  The loop of
`nthread_schedule` registers and chooses; in between the state machine that it has called or an ISR makes
the calls of `Ep/Memories`, the last ones of which end the dispatch.

* `EdsInv.step`    a step keeps the invariants of the agents and of the events together, and is a path
                   of steps of the agents; it faults only where a debug build refuses a request;
* `eds_settles`    while nothing is sent the loop empties the queues, whatever is deferred, reserved and
                   written meanwhile; each event is passed once, and what is not deferred, reserved or
                   unsent is back in its heap or pool.
-/

set_option linter.unusedSectionVars false

namespace NeonEds
open Exec Mailbox

variable {T D E M σ β : Type} [DecidableEq T] [DecidableEq D] [DecidableEq E] [DecidableEq M]
  [Fintype T] [Fintype D]

/-- `registered`, `live`, `sent` and `asked` are what a watcher of the calls knows -/
structure Eds (T D E M σ : Type) extends MemEpa (SchedCtx 32 T EpaFn) T D E M σ where
  registered : T → Bool
  live : E → Bool
  sent : E → Bool
  asked : E → ℕ

inductive EdsStep (T D E M β : Type) where
  | register (t : T)
  /-- the loop of `nthread_schedule` chooses a thread and calls its `vf_dispatch_i` -/
  | schedule
  | call (op : MemEventOp T D E M)
  /-- the user of an event writes into it -/
  | write (e : E) (offset : ℕ) (x : β)

section
variable (cfg : SchedConfig) (fuel : ℕ) (saturates : Bool) (A : Allocator σ E β) (sizeofNevent : ℕ)

def runEdsStep (s : Eds T D E M σ) : EdsStep T D E M β → Exec (Option (Note T E) × Eds T D E M σ)
  | .register t => do
    let (note, ctx) ← runEpaStep cfg fuel saturates s.ctx.toEpaCtx (.register t)
    return (note, { s with
      ctx := { s.ctx with toEpaCtx := ctx }
      registered := Function.update s.registered t true })
  | .schedule => do
    let (note, ctx) ← runEpaStep cfg fuel saturates s.ctx.toEpaCtx .schedule
    return (note, { s with ctx := { s.ctx with toEpaCtx := ctx } })
  | .call op => do
    let (op', sys) ← runMemEventOp (edsScheduler cfg fuel) saturates A sizeofNevent s.toMemEpa op
    return (none, {
      toMemEpa := sys
      registered := s.registered
      live := eventsLiveAfter s.live op' s.ctx sys.ctx
      sent := eventsSentAfter s.sent op' s.ctx
      asked := askedAfter sizeofNevent s.asked op op' })
  | .write e offset x => .ok (none, { s with toMemEpa := s.toMemEpa.write A e offset x })

/-- a run, with what the loop has done -/
def edsRun : Eds T D E M σ → List (EdsStep T D E M β) → Exec (List (Note T E) × Eds T D E M σ)
  | s, [] => .ok ([], s)
  | s, step :: steps => do
    let (note, s) ← runEdsStep cfg fuel saturates A sizeofNevent s step
    let (notes, s) ← edsRun s steps
    return (note.toList ++ notes, s)

variable (asks : M → ℕ → Prop) (static : E → Bool)

/-- the loop alone chooses -/
def MemEventOp.IsChoice : MemEventOp T D E M → Prop
  | .call op => op.IsChoice
  | _ => False

def LegalEdsStep (s : Eds T D E M σ) : EdsStep T D E M β → Prop
  | .register t => s.registered t = false
  | .schedule => s.ctx.ctl = .loop ∧ s.ctx.unlocking = [] ∧
      ∀ t, nqueueIsEmpty (s.ctx.queue t) = false → s.registered t = true
  | .call op => ¬ op.IsChoice ∧ LegalMemEventOp sizeofNevent asks static s.live s.ctx op
  | .write e offset _ => s.live e = true ∧ offset < s.asked e ∧ sizeofNevent ≤ offset

def LegalEdsRun : Eds T D E M σ → List (EdsStep T D E M β) → Prop
  | _, [] => True
  | s, step :: steps => LegalEdsStep sizeofNevent asks static s step ∧
      ∀ note s', runEdsStep cfg fuel saturates A sizeofNevent s step = .ok (note, s') →
        LegalEdsRun s' steps

end

namespace EdsStep

/-- a memory object is asked -/
def Asks : EdsStep T D E M β → Prop
  | .call (.create ..) => True
  | .call (.signal ..) => True
  | _ => False

/-- nothing is registered, created or sent -/
def Quiet : EdsStep T D E M β → Prop
  | .register _ => False
  | .call (.call op) => op.Quiet
  | .call _ => False
  | _ => True

def isSchedule : EdsStep T D E M β → Bool
  | .schedule => true
  | _ => false

end EdsStep

/-- the choices of the loop in a run -/
def edsTurns (steps : List (EdsStep T D E M β)) : ℕ := steps.countP EdsStep.isSchedule

/-- the agents are set up, the memory objects were never used -/
structure EdsStart (cfg : SchedConfig) (Rep : M → σ → (E → Option ℕ) → Prop) (static : E → Bool)
    (s : Eds T D E M σ) : Prop where
  agents : EpaStart cfg s.ctx.toEpaCtx
  events : MemsStart Rep static s.toMemEpa
  registered : s.registered = fun _ => false
  live : s.live = fun _ => false
  sent : s.sent = fun _ => false

/-- what holds between the steps -/
structure EdsInv (cfg : SchedConfig) (Rep : M → σ → (E → Option ℕ) → Prop) (static : E → Bool)
    (s : Eds T D E M σ) : Prop where
  agents : ∃ m, EpaInv cfg s.ctx.toEpaCtx s.registered m
  events : EventMemsOk Rep static s.toMemEpa s.live s.sent s.asked

section
variable {cfg : SchedConfig} {fuel : ℕ} {saturates : Bool} {A : Allocator σ E β} {sizeofNevent : ℕ}
  {asks : M → ℕ → Prop} {own : M → E → Prop} {Rep : M → σ → (E → Option ℕ) → Prop}
  {static live sent : E → Bool} {asked : E → ℕ} {sys : MemEpa (SchedCtx 32 T EpaFn) T D E M σ}
  {s s' : Eds T D E M σ} {note : Option (Note T E)}

/-! ## the loop and the events -/

theorem MemEpa.write_ctx (sys : MemEpa (SchedCtx 32 T EpaFn) T D E M σ) (e : E) (offset : ℕ) (x : β) :
    (sys.write A e offset x).ctx = sys.ctx := by
  unfold MemEpa.write
  split <;> rfl

theorem EventMemsOk.setCtx (h : EventMemsOk Rep static sys live sent asked)
    {ctx : EventSys (SchedCtx 32 T EpaFn) T D E M} (hev : EventsInv ctx static live sent)
    (he : ctx.event = sys.ctx.event) : EventMemsOk Rep static { sys with ctx := ctx } live sent asked := by
  have hblocks : blocksOut ctx live asked = blocksOut sys.ctx live asked := by
    unfold blocksOut
    rw [he]
  refine ⟨hev, fun e hl => ?_, ?_⟩
  · show ∃ mem, (ctx.event e).mem = some mem
    rw [he]
    exact h.owned e hl
  · show Allocator.Holds Rep sys.mems (blocksOut ctx live asked)
    rw [hblocks]
    exact h.holds

theorem EventsInv.setSched {sys : EventSys (SchedCtx 32 T EpaFn) T D E M}
    (h : EventsInv sys static live sent) (sched : SchedCtx 32 T EpaFn) :
    EventsInv { sys with sched := sched } static live sent :=
  ⟨h.ok.setCtl fun _ => rfl, h.loopHand, h.unlocking, h.fetching⟩

theorem EventsInv.schedule {sys : EventSys (SchedCtx 32 T EpaFn) T D E M} {ctx' : EpaSys T D E M}
    (h : EventsInv sys static live sent) (hctl : sys.ctl = .loop) (hun : sys.unlocking = [])
    (hrun : runEpaStep cfg fuel saturates sys.toEpaCtx .schedule = .ok (note, ctx'))
    (hne : ∀ t e, note = some (.pass t e) → nqueueIsEmpty (sys.queue t) = false) :
    EventsInv { sys with toEpaCtx := ctx' } static live sent ∧ ctx'.event = sys.event := by
  obtain ⟨⟨n, sched⟩, _, hvf⟩ := bind_eq_ok.mp hrun
  have hloop : ∀ e, sys.ctl.holds e = 0 := fun e => by rw [hctl]; rfl
  have hnone := h.fetching_none (by rw [hctl]; rfl)
  have hout : sys.outOfHand sent = sent := EventSys.outOfHand_nil
    (EventSys.inHand_nil (EventSys.loopHand_none (by rw [hctl]; rintro _ _ ⟨⟩) hnone) hun) sent
  have hok := h.ok
  rw [hout] at hok
  -- nothing is in hand, before and after
  have hinv : ∀ {ctx' : EpaSys T D E M}, EventsOk ctx' static live sent →
      (∀ t e, ctx'.ctl ≠ .dispatched t e) →
      EventsInv { sys with toEpaCtx := ctx' } static live sent := by
    intro ctx' hok' hctl'
    have hhand : EventSys.loopHand { sys with toEpaCtx := ctx' } = none :=
      EventSys.loopHand_none hctl' hnone
    refine ⟨?_, fun e he => ?_, h.unlocking, fun t e he => ?_⟩
    · rw [EventSys.outOfHand_nil (EventSys.inHand_nil hhand hun)]
      exact hok'
    · rw [hhand] at he
      cases he
    · rw [show sys.fetching = some (t, e) from he] at hnone
      cases hnone
  have h₁ : EventsOk { sys.toEpaCtx with sched := sched } static live sent := hok.setCtl fun _ => rfl
  cases n with
  | sentinel p => cases hvf
  | thread u =>
    rcases vfDispatchI_cases hvf with ⟨_, _, rfl⟩ | ⟨t, _, _, _, rfl⟩ | ⟨t, _, _, rfl, rfl⟩
    · refine ⟨hinv h₁ ?_, rfl⟩
      rw [show ({ sys.toEpaCtx with sched := sched } : EpaSys T D E M).ctl = .loop from hctl]
      rintro _ _ ⟨⟩
    · exact ⟨hinv (hok.setCtl fun e => (hloop e).symm) (by rintro _ _ ⟨⟩), rfl⟩
    · exact ⟨hinv (h₁.start hctl (hne t _ rfl)) (by rintro _ _ ⟨⟩), rfl⟩

/-! ## one step -/

/-- the steps of the agents that a step of the system is -/
structure EdsPath (cfg : SchedConfig) (fuel : ℕ) (saturates : Bool) (s : Eds T D E M σ)
    (step : EdsStep T D E M β) (note : Option (Note T E)) (s' : Eds T D E M σ)
    (steps : List (EpaStep T D E M)) : Prop where
  path : ∃ notes, EpaPath cfg fuel saturates s.registered s.ctx.toEpaCtx steps notes s'.ctx.toEpaCtx ∧
    (step.Quiet → notes = note.toList)
  registered : steps.foldl registeredAfter s.registered = s'.registered
  turns : schedules steps = edsTurns [step]
  quiet : step.Quiet → (∀ x ∈ steps, x.Quiet) ∧ s'.registered = s.registered

/-- **A step of the system is a path of steps of the agents.** -/
theorem runEdsStep_path {step : EdsStep T D E M β} (hl : LegalEdsStep sizeofNevent asks static s step)
    (hrun : runEdsStep cfg fuel saturates A sizeofNevent s step = .ok (note, s')) :
    ∃ steps, EdsPath cfg fuel saturates s step note s' steps := by
  cases step with
  | register t =>
    obtain ⟨⟨note₁, ctx⟩, hstep, hrun⟩ := bind_eq_ok.mp hrun
    obtain ⟨rfl, rfl⟩ := Prod.mk.inj (Except.ok.inj hrun)
    exact ⟨[.register t], ⟨_, .single hl hstep, fun _ => rfl⟩, rfl, rfl, fun hq => absurd hq id⟩
  | schedule =>
    obtain ⟨⟨note₁, ctx⟩, hstep, hrun⟩ := bind_eq_ok.mp hrun
    obtain ⟨rfl, rfl⟩ := Prod.mk.inj (Except.ok.inj hrun)
    refine ⟨[.schedule], ⟨_, .single ⟨hl.1, hl.2.2⟩ hstep, fun _ => rfl⟩, rfl, rfl,
      fun _ => ⟨fun x hx => ?_, rfl⟩⟩
    rw [List.mem_singleton.mp hx]
    trivial
  | call op =>
    obtain ⟨⟨op', sys⟩, hcall, hrun⟩ := bind_eq_ok.mp hrun
    obtain ⟨rfl, rfl⟩ := Prod.mk.inj (Except.ok.inj hrun)
    obtain ⟨⟨op₁, mems⟩, hanswer, hcall⟩ := bind_eq_ok.mp hcall
    obtain ⟨ctx, hevent, hcall⟩ := bind_eq_ok.mp hcall
    obtain ⟨mems', _, hcall⟩ := bind_eq_ok.mp hcall
    obtain ⟨rfl, rfl⟩ := Prod.mk.inj (Except.ok.inj hcall)
    have hop : ¬ op₁.IsChoice ∧ ((.call op : EdsStep T D E M β).Quiet → op₁.Quiet) := by
      cases op with
      | create id mem size =>
        obtain ⟨_, _, hanswer⟩ := bind_eq_ok.mp hanswer
        obtain ⟨rfl, _⟩ := Prod.mk.inj (Except.ok.inj hanswer)
        exact ⟨fun hc => hc, fun _ => trivial⟩
      | signal t eventId mem =>
        obtain ⟨_, _, hanswer⟩ := bind_eq_ok.mp hanswer
        obtain ⟨rfl, _⟩ := Prod.mk.inj (Except.ok.inj hanswer)
        exact ⟨fun hc => hc, fun hq => absurd hq id⟩
      | call op =>
        obtain ⟨rfl, _⟩ := Prod.mk.inj (Except.ok.inj hanswer)
        exact ⟨hl.1, fun hq => hq⟩
    have hcalls : CallPath cfg fuel saturates s.registered (¬ op₁.Quiet) s.ctx.toEpaCtx ctx.toEpaCtx :=
      runEventOp_path hop.1 hevent
    obtain ⟨steps, notes, hpath, hcalls, hquiet⟩ := hcalls
    exact ⟨steps, ⟨notes, hpath, fun hq => (hquiet (fun hn => hn (hop.2 hq))).1⟩,
      foldl_registeredAfter steps hcalls, schedules_of_calls hcalls,
      fun hq => ⟨(hquiet (fun hn => hn (hop.2 hq))).2, rfl⟩⟩
  | write e offset x =>
    obtain ⟨rfl, rfl⟩ := Prod.mk.inj (Except.ok.inj hrun)
    refine ⟨[], ⟨[], ?_, fun _ => rfl⟩, rfl, rfl, fun _ => ⟨fun x hx => (by cases hx), rfl⟩⟩
    show EpaPath cfg fuel saturates s.registered s.ctx.toEpaCtx [] []
      (s.toMemEpa.write A e offset x).ctx.toEpaCtx
    rw [MemEpa.write_ctx]
    exact EpaPath.nil

namespace EdsInv

/-- **A step faults only where a request is refused.** -/
theorem step_fault (hcfg : OneBucketPerLevel cfg) (hA : A.Apart asks own Rep)
    (hstatic : ∀ mem e, own mem e → static e = false) (h : EdsInv cfg Rep static s)
    {step : EdsStep T D E M β} (hl : LegalEdsStep sizeofNevent asks static s step) {f : Fault}
    (hf : runEdsStep cfg fuel saturates A sizeofNevent s step = .error f) : f = .assertion ∧ step.Asks := by
  obtain ⟨m, hagents⟩ := h.agents
  have hstep : ∀ {x : EpaStep T D E M} {g : Option (Note T E) × EpaSys T D E M →
      Option (Note T E) × Eds T D E M σ}, LegalEpaStep s.ctx.toEpaCtx s.registered x →
      (runEpaStep cfg fuel saturates s.ctx.toEpaCtx x >>= fun r => pure (g r)) ≠ .error f := by
    intro x g hx hc
    obtain ⟨note, ctx', m', hrun, _⟩ := hagents.step hcfg fuel saturates hx
    rw [hrun, ok_bind] at hc
    cases hc
  cases step with
  | register t => exact absurd hf (hstep (x := .register t) hl)
  | schedule => exact absurd hf (hstep (x := .schedule) ⟨hl.1, hl.2.2⟩)
  | call op =>
    rcases bind_eq_error.mp hf with hcall | ⟨_, _, hf⟩
    · rcases h.events.step_fault hA hstatic hl.2 hcall with ⟨op', hevent⟩ | ⟨rfl, hop⟩
      · obtain ⟨ctx', hok⟩ := hagents.eventOp hcfg fuel saturates op'
        cases hevent.symm.trans hok
      · cases op with
        | call op => exact absurd rfl (hop op)
        | _ => exact ⟨rfl, trivial⟩
    · cases hf
  | write e offset x => cases hf

/-- **A step keeps the invariants.** -/
theorem step (hcfg : OneBucketPerLevel cfg) (hA : A.Apart asks own Rep)
    (hstatic : ∀ mem e, own mem e → static e = false) (h : EdsInv cfg Rep static s)
    {step : EdsStep T D E M β} (hl : LegalEdsStep sizeofNevent asks static s step)
    (hrun : runEdsStep cfg fuel saturates A sizeofNevent s step = .ok (note, s')) :
    EdsInv cfg Rep static s' := by
  obtain ⟨m, hagents⟩ := h.agents
  obtain ⟨steps, hpath⟩ := runEdsStep_path hl hrun
  obtain ⟨notes', hepa, _⟩ := hpath.path
  have hagents' : ∃ m', EpaInv cfg s'.ctx.toEpaCtx s'.registered m' := by
    rw [← hpath.registered]
    exact hepa.inv hcfg hagents
  refine ⟨hagents', ?_⟩
  cases step with
  | register t =>
    obtain ⟨⟨note₁, ctx⟩, hstep, hrun⟩ := bind_eq_ok.mp hrun
    obtain ⟨rfl, rfl⟩ := Prod.mk.inj (Except.ok.inj hrun)
    obtain ⟨ctx₁, hreg, hstep⟩ := bind_eq_ok.mp hstep
    obtain ⟨rfl, rfl⟩ := Prod.mk.inj (Except.ok.inj hstep)
    obtain ⟨sched, _, hreg⟩ := bind_eq_ok.mp hreg
    obtain rfl := Except.ok.inj hreg
    exact h.events.setCtx (h.events.events.setSched sched) rfl
  | schedule =>
    obtain ⟨⟨note₁, ctx⟩, hstep, hrun⟩ := bind_eq_ok.mp hrun
    obtain ⟨rfl, rfl⟩ := Prod.mk.inj (Except.ok.inj hrun)
    obtain ⟨note₂, ctx₂, m', hstep', _, _, hne⟩ := hagents.schedule hcfg fuel saturates hl.1 hl.2.2
    obtain ⟨rfl, rfl⟩ := Prod.mk.inj (Except.ok.inj (hstep.symm.trans hstep'))
    obtain ⟨hev, hevent⟩ := h.events.events.schedule hl.1 hl.2.1 hstep hne
    exact h.events.setCtx hev hevent
  | call op =>
    obtain ⟨⟨op', sys⟩, hcall, hrun⟩ := bind_eq_ok.mp hrun
    obtain ⟨rfl, rfl⟩ := Prod.mk.inj (Except.ok.inj hrun)
    exact (h.events.step hA hstatic hl.2).2 op' sys hcall
  | write e offset x =>
    obtain ⟨rfl, rfl⟩ := Prod.mk.inj (Except.ok.inj hrun)
    exact h.events.write hA hl.1 hl.2.1 x

end EdsInv

/-! ## runs -/

theorem EdsStart.inv {s : Eds T D E M σ} (h : EdsStart cfg Rep static s) : EdsInv cfg Rep static s := by
  refine ⟨⟨Mailbox.empty, ?_⟩, ?_⟩
  · rw [h.registered]
    exact h.agents.inv
  · rw [h.live, h.sent]
    exact h.events.ok s.asked

theorem edsRun_cons {step : EdsStep T D E M β} {steps : List (EdsStep T D E M β)}
    {notes : List (Note T E)}
    (h : edsRun cfg fuel saturates A sizeofNevent s (step :: steps) = .ok (notes, s')) :
    ∃ note s₁ notes₁, runEdsStep cfg fuel saturates A sizeofNevent s step = .ok (note, s₁) ∧
      edsRun cfg fuel saturates A sizeofNevent s₁ steps = .ok (notes₁, s') := by
  obtain ⟨⟨note, s₁⟩, hstep, h⟩ := bind_eq_ok.mp h
  obtain ⟨⟨notes₁, s₂⟩, hrest, h⟩ := bind_eq_ok.mp h
  obtain ⟨_, rfl⟩ := Prod.mk.inj (Except.ok.inj h)
  exact ⟨note, s₁, notes₁, hstep, hrest⟩

/-- **Every legal run keeps the invariants.** -/
theorem EdsInv.run (hcfg : OneBucketPerLevel cfg) (hA : A.Apart asks own Rep)
    (hstatic : ∀ mem e, own mem e → static e = false) (steps : List (EdsStep T D E M β)) :
    ∀ {s s' : Eds T D E M σ} {notes : List (Note T E)}, EdsInv cfg Rep static s →
      LegalEdsRun cfg fuel saturates A sizeofNevent asks static s steps →
      edsRun cfg fuel saturates A sizeofNevent s steps = .ok (notes, s') → EdsInv cfg Rep static s' := by
  induction steps with
  | nil =>
    intro s s' notes h _ hrun
    obtain ⟨_, rfl⟩ := Prod.mk.inj (Except.ok.inj hrun)
    exact h
  | cons step steps ih =>
    intro s s' notes h hl hrun
    obtain ⟨note, s₁, notes₁, hstep, hrest⟩ := edsRun_cons hrun
    exact ih (h.step hcfg hA hstatic hl.1 hstep) (hl.2 note s₁ hstep) hrest

theorem edsTurns_cons (step : EdsStep T D E M β) (steps : List (EdsStep T D E M β)) :
    edsTurns (step :: steps) = edsTurns [step] + edsTurns steps := by
  unfold edsTurns
  rw [← List.countP_append]
  rfl

/-- **A quiet run does not fault**, and is a quiet run of the agents. -/
theorem EdsInv.quietRun (hcfg : OneBucketPerLevel cfg) (hA : A.Apart asks own Rep)
    (hstatic : ∀ mem e, own mem e → static e = false) (steps : List (EdsStep T D E M β)) :
    ∀ {s : Eds T D E M σ}, EdsInv cfg Rep static s → (∀ step ∈ steps, step.Quiet) →
      LegalEdsRun cfg fuel saturates A sizeofNevent asks static s steps →
      ∃ notes s' steps', edsRun cfg fuel saturates A sizeofNevent s steps = .ok (notes, s') ∧
        EdsInv cfg Rep static s' ∧ s'.registered = s.registered ∧
        EpaPath cfg fuel saturates s.registered s.ctx.toEpaCtx steps' notes s'.ctx.toEpaCtx ∧
        (∀ x ∈ steps', x.Quiet) ∧ schedules steps' = edsTurns steps := by
  induction steps with
  | nil => exact fun h _ _ => ⟨[], _, [], rfl, h, rfl, .nil, fun x hx => (by cases hx), rfl⟩
  | cons step steps ih =>
    intro s h hq hl
    have hstep := hq step List.mem_cons_self
    cases hrun : runEdsStep cfg fuel saturates A sizeofNevent s step with
    | error f =>
      have hasks := (h.step_fault hcfg hA hstatic hl.1 hrun).2
      cases step with
      | call op =>
        cases op with
        | call op => exact absurd hasks id
        | _ => exact absurd hstep id
      | _ => exact absurd hasks id
    | ok r =>
      obtain ⟨note, s₁⟩ := r
      obtain ⟨steps₁, hpath⟩ := runEdsStep_path hl.1 hrun
      obtain ⟨notes₁, hepa, hnotes⟩ := hpath.path
      obtain ⟨hquiet₁, hreg₁⟩ := hpath.quiet hstep
      obtain ⟨notes, s', steps', hrest, h', hreg, hepa', hquiet, hturns⟩ :=
        ih (h.step hcfg hA hstatic hl.1 hrun) (fun x hx => hq x (List.mem_cons_of_mem _ hx))
          (hl.2 note s₁ hrun)
      obtain rfl := hnotes hstep
      refine ⟨note.toList ++ notes, s', steps₁ ++ steps', ?_, h', hreg.trans hreg₁,
        hepa.append steps₁ ?_, fun x hx => ?_, ?_⟩
      · rw [edsRun, hrun, ok_bind]
        show (edsRun cfg fuel saturates A sizeofNevent s₁ steps >>= _) = _
        rw [hrest, ok_bind]
        rfl
      · rw [hpath.registered]
        exact hepa'
      · rcases List.mem_append.mp hx with hx | hx
        · exact hquiet₁ x hx
        · exact hquiet x hx
      · rw [edsTurns_cons, ← hpath.turns, ← hturns]
        exact List.countP_append

/-! ### the turns of the loop -/

theorem schedule_ctl {ctx ctx' : EpaSys T D E M} (hctl : ctx.ctl = .loop)
    (hrun : runEpaStep cfg fuel saturates ctx .schedule = .ok (note, ctx')) :
    ctx'.ctl = .loop ∨ (∃ t, ctx'.ctl = .initialising t) ∨ ∃ t e, ctx'.ctl = .dispatching t e := by
  obtain ⟨⟨n, sched⟩, _, hvf⟩ := bind_eq_ok.mp hrun
  cases n with
  | sentinel p => cases hvf
  | thread u =>
    rcases vfDispatchI_cases hvf with ⟨_, _, rfl⟩ | ⟨t, _, _, _, rfl⟩ | ⟨t, _, _, _, rfl⟩
    · exact Or.inl hctl
    · exact Or.inr (Or.inl ⟨t, rfl⟩)
    · exact Or.inr (Or.inr ⟨t, _, rfl⟩)

/-- the steps that end a dispatch -/
def EventOp.IsEnd : EventOp T D E M → Prop
  | .initFinish => True
  | .returns => True
  | .finish => True
  | _ => False

section
variable {S : Type} {sch : Scheduler S T} {sys sys₁ sys' : EventSys S T D E M} {op : EventOp T D E M}

theorem runEventOp_end (hop : op.IsEnd) (hrun : runEventOp sch saturates sys op = .ok sys') :
    sys'.fetching = sys.fetching ∧ sys'.unlocking = sys.unlocking := by
  cases op with
  | initFinish =>
    simp only [runEventOp] at hrun
    split at hrun
    · obtain ⟨ctx, _, hrun⟩ := bind_eq_ok.mp hrun
      obtain rfl := Except.ok.inj hrun
      exact ⟨rfl, rfl⟩
    · obtain rfl := Except.ok.inj hrun
      exact ⟨rfl, rfl⟩
  | returns =>
    simp only [runEventOp] at hrun
    split at hrun
    · obtain rfl := Except.ok.inj hrun
      exact ⟨rfl, rfl⟩
    · obtain rfl := Except.ok.inj hrun
      exact ⟨rfl, rfl⟩
  | finish =>
    simp only [runEventOp] at hrun
    split at hrun
    · obtain ⟨ctx, _, hrun⟩ := bind_eq_ok.mp hrun
      obtain rfl := Except.ok.inj hrun
      exact ⟨rfl, rfl⟩
    · obtain rfl := Except.ok.inj hrun
      exact ⟨rfl, rfl⟩
  | _ => exact absurd hop id

theorem initFinish_ctl (hrun : runEventOp sch saturates sys .initFinish = .ok sys') :
    sys'.ctl = .loop ∨ (∀ t, sys.ctl ≠ .initialising t) ∧ sys' = sys := by
  simp only [runEventOp] at hrun
  split at hrun
  · obtain ⟨ctx, hend, hrun⟩ := bind_eq_ok.mp hrun
    obtain ⟨sched, _, hend⟩ := bind_eq_ok.mp hend
    obtain rfl := Except.ok.inj hend
    obtain rfl := Except.ok.inj hrun
    exact .inl rfl
  · rename_i hctl
    exact .inr ⟨hctl, (Except.ok.inj hrun).symm⟩

theorem finish_loop (hctl : sys.ctl = .loop ∨ ∃ t e, sys.ctl = .dispatching t e)
    (hreturns : runEventOp sch saturates sys .returns = .ok sys₁)
    (hfinish : runEventOp sch saturates sys₁ .finish = .ok sys') : sys'.ctl = .loop := by
  rcases hctl with hctl | ⟨t, e, hctl⟩
  · simp only [runEventOp, hctl] at hreturns
    obtain rfl := Except.ok.inj hreturns
    simp only [runEventOp, hctl] at hfinish
    obtain rfl := Except.ok.inj hfinish
    exact hctl
  · simp only [runEventOp, hctl] at hreturns
    obtain rfl := Except.ok.inj hreturns
    obtain ⟨ctx, hend, hfinish⟩ := bind_eq_ok.mp hfinish
    obtain ⟨sched, _, hend⟩ := bind_eq_ok.mp hend
    obtain rfl := Except.ok.inj hend
    obtain rfl := Except.ok.inj hfinish
    rfl

end

theorem runEdsStep_call {op : EventOp T D E M}
    (hrun : runEdsStep cfg fuel saturates A sizeofNevent s (.call (.call op)) = .ok (note, s')) :
    runEventOp (edsScheduler cfg fuel) saturates s.ctx op = .ok s'.ctx := by
  obtain ⟨⟨op', sys⟩, hcall, hrun⟩ := bind_eq_ok.mp hrun
  obtain ⟨_, rfl⟩ := Prod.mk.inj (Except.ok.inj hrun)
  obtain ⟨⟨op₁, mems⟩, hanswer, hcall⟩ := bind_eq_ok.mp hcall
  obtain ⟨ctx, hevent, hcall⟩ := bind_eq_ok.mp hcall
  obtain ⟨mems', _, hcall⟩ := bind_eq_ok.mp hcall
  obtain ⟨_, rfl⟩ := Prod.mk.inj (Except.ok.inj hcall)
  obtain ⟨rfl, _⟩ := Prod.mk.inj (Except.ok.inj hanswer)
  exact hevent

/-- a turn of the loop starts here -/
structure AtTurn (s : Eds T D E M σ) : Prop where
  ctl : s.ctx.ctl = .loop
  unlocking : s.ctx.unlocking = []
  registered : ∀ t, nqueueIsEmpty (s.ctx.queue t) = false → s.registered t = true

/-- queues that are not empty after a quiet step were not before -/
theorem EdsInv.registered_quiet (hcfg : OneBucketPerLevel cfg) (h : EdsInv cfg Rep static s)
    {step : EdsStep T D E M β} (hl : LegalEdsStep sizeofNevent asks static s step) (hq : step.Quiet)
    (hrun : runEdsStep cfg fuel saturates A sizeofNevent s step = .ok (note, s'))
    (h' : EdsInv cfg Rep static s')
    (hreg : ∀ t, nqueueIsEmpty (s.ctx.queue t) = false → s.registered t = true) :
    ∀ t, nqueueIsEmpty (s'.ctx.queue t) = false → s'.registered t = true := by
  obtain ⟨m, hagents⟩ := h.agents
  obtain ⟨steps, hpath⟩ := runEdsStep_path hl hrun
  obtain ⟨notes, hepa, _⟩ := hpath.path
  obtain ⟨hquiet, hsame⟩ := hpath.quiet hq
  obtain ⟨_, hpassed⟩ := hepa.quiet hcfg hagents hquiet
  intro t ht
  rw [hsame]
  refine hreg t (Bool.eq_false_of_not_eq_true fun hempty => ?_)
  have hnil := hpassed t
  rw [(h.events.events.ok.queue t).isEmpty_iff.mp hempty] at hnil
  have hempty' := (h'.events.events.ok.queue t).isEmpty_iff.mpr (List.append_eq_nil_iff.mp hnil).2
  rw [ht] at hempty'
  cases hempty'

/-- nothing is fetched and no `nevent_unlock` is under way -/
structure HandsFree (s : Eds T D E M σ) : Prop where
  fetching : s.ctx.fetching = none
  unlocking : s.ctx.unlocking = []

namespace HandsFree

theorem legal_end (h : HandsFree s) (op : EventOp T D E M) (hop : op.IsEnd) :
    LegalEdsStep sizeofNevent asks static s (.call (.call op) : EdsStep T D E M β) := by
  cases op with
  | initFinish => exact ⟨id, rfl, ⟨h.fetching, h.unlocking⟩, fun _ _ hc => (by cases hc),
      fun _ _ hc => (by cases hc), fun _ _ hc => (by cases hc)⟩
  | returns => exact ⟨id, rfl, ⟨h.fetching, h.unlocking⟩, fun _ _ hc => (by cases hc),
      fun _ _ hc => (by cases hc), fun _ _ hc => (by cases hc)⟩
  | finish => exact ⟨id, rfl, h.unlocking, fun _ _ hc => (by cases hc), fun _ _ hc => (by cases hc),
      fun _ _ hc => (by cases hc)⟩
  | _ => exact absurd hop id

theorem step_end (h : HandsFree s) {op : EventOp T D E M}
    (hrun : runEdsStep cfg fuel saturates A sizeofNevent s (.call (.call op)) = .ok (note, s'))
    (hop : op.IsEnd) : HandsFree s' := by
  obtain ⟨hfetching, hunlocking⟩ := runEventOp_end hop (runEdsStep_call hrun)
  exact ⟨hfetching.trans h.fetching, hunlocking.trans h.unlocking⟩

end HandsFree

theorem EdsInv.handsFree (h : EdsInv cfg Rep static s) (hturn : AtTurn s)
    (hrun : runEdsStep cfg fuel saturates A sizeofNevent s .schedule = .ok (note, s')) :
    HandsFree s' := by
  obtain ⟨⟨note₁, ctx⟩, _, hrun⟩ := bind_eq_ok.mp hrun
  obtain ⟨_, rfl⟩ := Prod.mk.inj (Except.ok.inj hrun)
  exact ⟨h.events.events.fetching_none (by rw [hturn.ctl]; rfl), hturn.unlocking⟩

theorem EdsInv.turn (hcfg : OneBucketPerLevel cfg) (hA : A.Apart asks own Rep)
    (hstatic : ∀ mem e, own mem e → static e = false) (h : EdsInv cfg Rep static s) (hturn : AtTurn s)
    {note₁ note₂ note₃ note₄ : Option (Note T E)} {s₁ s₂ s₃ s₄ : Eds T D E M σ}
    (h₁ : runEdsStep cfg fuel saturates A sizeofNevent s .schedule = .ok (note₁, s₁))
    (h₂ : runEdsStep cfg fuel saturates A sizeofNevent s₁ (.call (.call .initFinish))
      = .ok (note₂, s₂))
    (h₃ : runEdsStep cfg fuel saturates A sizeofNevent s₂ (.call (.call .returns)) = .ok (note₃, s₃))
    (h₄ : runEdsStep cfg fuel saturates A sizeofNevent s₃ (.call (.call .finish)) = .ok (note₄, s₄)) :
    EdsInv cfg Rep static s₄ ∧ AtTurn s₄ := by
  have hl₁ : LegalEdsStep sizeofNevent asks static s (.schedule : EdsStep T D E M β) :=
    ⟨hturn.ctl, hturn.unlocking, hturn.registered⟩
  have hfree₁ := h.handsFree hturn h₁
  have hfree₂ := hfree₁.step_end h₂ trivial
  have hfree₃ := hfree₂.step_end h₃ trivial
  have hfree₄ := hfree₃.step_end h₄ trivial
  have hl₂ : LegalEdsStep sizeofNevent asks static s₁ (.call (.call .initFinish) : EdsStep T D E M β) :=
    hfree₁.legal_end .initFinish trivial
  have hl₃ : LegalEdsStep sizeofNevent asks static s₂ (.call (.call .returns) : EdsStep T D E M β) :=
    hfree₂.legal_end .returns trivial
  have hl₄ : LegalEdsStep sizeofNevent asks static s₃ (.call (.call .finish) : EdsStep T D E M β) :=
    hfree₃.legal_end .finish trivial
  have hinv₁ := h.step hcfg hA hstatic hl₁ h₁
  have hinv₂ := hinv₁.step hcfg hA hstatic hl₂ h₂
  have hinv₃ := hinv₂.step hcfg hA hstatic hl₃ h₃
  have hinv₄ := hinv₃.step hcfg hA hstatic hl₄ h₄
  have hreg₁ := h.registered_quiet hcfg hl₁ trivial h₁ hinv₁ hturn.registered
  have hreg₂ := hinv₁.registered_quiet hcfg hl₂ trivial h₂ hinv₂ hreg₁
  have hreg₃ := hinv₂.registered_quiet hcfg hl₃ trivial h₃ hinv₃ hreg₂
  have hreg₄ := hinv₃.registered_quiet hcfg hl₄ trivial h₄ hinv₄ hreg₃
  refine ⟨hinv₄, finish_loop ?_ (runEdsStep_call h₃) (runEdsStep_call h₄), hfree₄.unlocking, hreg₄⟩
  obtain ⟨⟨note, ctx⟩, hsched, hs₁⟩ := bind_eq_ok.mp h₁
  obtain ⟨_, rfl⟩ := Prod.mk.inj (Except.ok.inj hs₁)
  rcases initFinish_ctl (runEdsStep_call h₂) with hctl | ⟨hnot, hsame⟩
  · exact .inl hctl
  · rw [hsame]
    rcases schedule_ctl hturn.ctl hsched with hctl | ⟨t, hctl⟩ | hctl
    · exact .inl hctl
    · exact absurd hctl (hnot t)
    · exact .inr hctl

end

section
variable {P : HeapPort} {init : M → MemInit} {static : ℕ → Bool} {cfg : SchedConfig} {fuel : ℕ}
  {saturates : Bool} {junk sizeofNevent : ℕ} {s₀ s : Eds T D ℕ M MemObj}

end

/-- one agent with a queue of two events, on the heap of 200 bytes -/
def oneEds : Eds Unit Unit ℕ Unit MemObj where
  ctx :=
    { event := fun _ => { mem := none, id := 0, attrib := 0#32, ref := 0#32 }
      frees := []
      sched := oneThread
      queue := fun _ => nqueueInit 2 (fun _ => 0)
      deferred := fun _ => nqueueInit 2 (fun _ => 0)
      ctl := .loop
      fetching := none
      unlocking := [] }
  mems := fun _ => .heap heap200
  registered := fun _ => false
  live := fun _ => false
  sent := fun _ => false
  asked := fun _ => 0

theorem oneEds_start : EdsStart cfg32 (fun mem => (heap200Init mem).Rep heapPort32) (fun _ => false)
    oneEds := by
  have hqueue := nqueueInit_ok (k := 1) (by decide) (by decide) (fun _ => (0 : ℕ))
  exact ⟨⟨oneAgent_start.ready, fun _ => hqueue, oneAgent_start.ref, oneAgent_start.idle, rfl⟩,
    ⟨⟨fun _ => hqueue, fun _ => hqueue, rfl, rfl, rfl, fun _ hs => absurd hs Bool.false_ne_true⟩,
      fun _ => HeapReach.start⟩, rfl, rfl, rfl⟩

theorem oneEds_create : (runEdsStep cfg32 0 false (MemObj.allocator heapPort32 0) 16 oneEds
    (.call (.create 1 () 20))).toOption.map (fun r => (r.2.registered (), r.2.live 1008,
      r.2.asked 1008)) = some (false, true, 20) := by decide +kernel

end NeonEds
