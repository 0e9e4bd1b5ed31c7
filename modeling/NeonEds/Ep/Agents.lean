import NeonEds.Ep.Dynamic
import NeonEds.Ep.EpaRuns
import NeonEds.Smp.Fsm
import NeonEds.Smp.HsmRuns

/-!
# Agents with their state machines

An agent is a queue, a thread and a state machine, which `epa_init_i` and `epa_dispatch_i` dispatch.
`AgentSys` is the system of `Ep/System` together with the machines: a step that starts an agent, or
passes an event to it, dispatches its machine.  What else happens while a machine runs are steps of
their own: what it sends itself, and what an ISR sends.

* `agentRun_dispatchAll`    a machine sees the dispatches of its own agent, one after the other;
* `agents_inOrder`          these are `NSM_INIT` and then the accepted events, first in, first out;
* `hsmAgents_active`        the machines keep their active configurations whatever the interleaving.
-/

set_option linter.unusedSectionVars false

namespace NeonEds
open Exec Mailbox

/-- what the state machine of an agent is made of -/
structure AgentSm (S W E : Type) where
  type : NsmType
  states : Nstates S W E

structure AgentSys (T D E M S W : Type) where
  epa : EpaSys T D E M
  sm : T → Nsm S W
  /-- the calls of state functions made so far -/
  calls : T → List (HsmCall S E)

variable {T D E M S W : Type} [DecidableEq T] [DecidableEq D] [DecidableEq E] [DecidableEq S]

section
variable (mcfg : HsmConfig) (ntop : S) (n : ℕ)

/-- `nsm_dispatch`: the dispatcher of the type of the machine, with at most `n` transitions -/
def nsmDispatch (a : AgentSm S W E) (sm : Nsm S W) (event : HsmEvent E) :
    Exec (Dispatched S W E) :=
  match a.type with
  | .fsm => do
    let f ← fsmDispatch mcfg a.states n sm event
    .ok ⟨f.sm, f.ret ≠ .transitTo, f.sent⟩
  | .hsm => do
    let f ← hsmDispatch mcfg a.states ntop n sm event
    .ok ⟨f.sm, f.ret ≠ .transitTo, f.sent⟩

variable (agent : T → AgentSm S W E)

/-- the machine of `t` is dispatched; the loop goes on when it has returned -/
def agentDispatch (sys : AgentSys T D E M S W) (t : T) (event : HsmEvent E) :
    Exec (AgentSys T D E M S W) := do
  let d ← nsmDispatch mcfg ntop n (agent t) (sys.sm t) event
  if d.returned = true then
    .ok { sys with
      sm := Function.update sys.sm t d.sm
      calls := Function.update sys.calls t (sys.calls t ++ d.sent) }
  else .error .fuel

/-- the event that a step passes to a state machine -/
def agentEvent : Option E → HsmEvent E
  | none => .nsm .init
  | some e => .other e

/-- the dispatch that a note tells -/
def agentHandle (sys : AgentSys T D E M S W) : Option (Note T E) → Exec (AgentSys T D E M S W)
  | some (.start t) => agentDispatch mcfg ntop n agent sys t (agentEvent none)
  | some (.pass t e) => agentDispatch mcfg ntop n agent sys t (agentEvent (some e))
  | _ => .ok sys

variable (cfg : SchedConfig) (fuel : ℕ) (saturates : Bool)

def runAgentStep (sys : AgentSys T D E M S W) (step : EpaStep T D E M) :
    Exec (Option (Note T E) × AgentSys T D E M S W) := do
  let (note, epa) ← runEpaStep cfg fuel saturates sys.epa step
  let sys ← agentHandle mcfg ntop n agent { sys with epa := epa } note
  return (note, sys)

def agentRun : AgentSys T D E M S W → List (EpaStep T D E M) →
    Exec (List (Note T E) × AgentSys T D E M S W)
  | sys, [] => .ok ([], sys)
  | sys, step :: steps => do
    let (note, sys) ← runAgentStep mcfg ntop n agent cfg fuel saturates sys step
    let (notes, sys) ← agentRun sys steps
    return (note.toList ++ notes, sys)

end

section
variable {mcfg : HsmConfig} {ntop : S} {n : ℕ} {agent : T → AgentSm S W E} {cfg : SchedConfig}
  {fuel : ℕ} {saturates : Bool} {sys sys' : AgentSys T D E M S W}

/-! ## the machine of one agent -/

theorem dispatchAll_cons {dispatch : Nsm S W → HsmEvent E → Exec (Dispatched S W E)} {sm : Nsm S W}
    {event : HsmEvent E} {events : List (HsmEvent E)} {d d' : Dispatched S W E}
    (hd : dispatch sm event = .ok d) (hr : d.returned = true)
    (h : dispatchAll dispatch d.sm events = .ok d') :
    dispatchAll dispatch sm (event :: events) = .ok ⟨d'.sm, d'.returned, d.sent ++ d'.sent⟩ := by
  rw [dispatchAll, hd, ok_bind, if_pos hr, h, ok_bind]

theorem agentDispatch_eq_ok {t : T} {event : HsmEvent E}
    (h : agentDispatch mcfg ntop n agent sys t event = .ok sys') :
    ∃ d, nsmDispatch mcfg ntop n (agent t) (sys.sm t) event = .ok d ∧ d.returned = true ∧
      sys' = { sys with
        sm := Function.update sys.sm t d.sm
        calls := Function.update sys.calls t (sys.calls t ++ d.sent) } := by
  obtain ⟨d, hd, h⟩ := bind_eq_ok.mp h
  by_cases hr : d.returned = true
  · rw [if_pos hr] at h
    exact ⟨d, hd, hr, (Except.ok.inj h).symm⟩
  · rw [if_neg hr] at h
    cases h

theorem agentHandle_dispatchAll {note : Option (Note T E)}
    (h : agentHandle mcfg ntop n agent sys note = .ok sys') :
    sys'.epa = sys.epa ∧ ∀ t, ∃ q, sys'.calls t = sys.calls t ++ q ∧
      dispatchAll (nsmDispatch mcfg ntop n (agent t)) (sys.sm t)
        ((handled t note.toList).map agentEvent) = .ok ⟨sys'.sm t, true, q⟩ := by
  have hnone : ∀ t, handled t note.toList = [] → sys' = sys →
      ∃ q, sys'.calls t = sys.calls t ++ q ∧
        dispatchAll (nsmDispatch mcfg ntop n (agent t)) (sys.sm t)
          ((handled t note.toList).map agentEvent) = .ok ⟨sys'.sm t, true, q⟩ := by
    rintro t hnil rfl
    rw [hnil]
    exact ⟨[], (List.append_nil _).symm, rfl⟩
  -- one dispatch of the machine of `u`
  have hone : ∀ (u : T) (x : Option E), (∀ t, handled t note.toList = if u = t then [x] else []) →
      agentDispatch mcfg ntop n agent sys u (agentEvent x) = .ok sys' →
      sys'.epa = sys.epa ∧ ∀ t, ∃ q, sys'.calls t = sys.calls t ++ q ∧
        dispatchAll (nsmDispatch mcfg ntop n (agent t)) (sys.sm t)
          ((handled t note.toList).map agentEvent) = .ok ⟨sys'.sm t, true, q⟩ := by
    intro u x hhan h
    obtain ⟨d, hd, hr, rfl⟩ := agentDispatch_eq_ok h
    refine ⟨rfl, fun t => ?_⟩
    rw [hhan]
    by_cases ht : u = t
    · subst ht
      refine ⟨d.sent, Function.update_self .., ?_⟩
      rw [if_pos rfl, List.map_singleton, dispatchAll_cons hd hr rfl]
      simp
    · rw [if_neg ht]
      refine ⟨[], ?_, ?_⟩
      · exact (Function.update_of_ne (Ne.symm ht) ..).trans (List.append_nil _).symm
      · exact congrArg (fun sm => Except.ok (⟨sm, true, []⟩ : Dispatched S W E))
          (Function.update_of_ne (Ne.symm ht) ..).symm
  cases note with
  | none => exact ⟨by rw [← Except.ok.inj h], fun t => hnone t rfl (Except.ok.inj h).symm⟩
  | some note =>
    cases note with
    | put u e => exact ⟨by rw [← Except.ok.inj h], fun t => hnone t rfl (Except.ok.inj h).symm⟩
    | putAhead u e => exact ⟨by rw [← Except.ok.inj h], fun t => hnone t rfl (Except.ok.inj h).symm⟩
    | start u =>
      refine hone u none (fun t => ?_) h
      by_cases ht : u = t <;> simp [handled, Note.handle?, ht]
    | pass u e =>
      refine hone u (some e) (fun t => ?_) h
      by_cases ht : u = t <;> simp [handled, Note.handle?, ht]

theorem dispatchAll_append {dispatch : Nsm S W → HsmEvent E → Exec (Dispatched S W E)}
    {events events' : List (HsmEvent E)} : ∀ {sm sm₁ : Nsm S W} {q : List (HsmCall S E)}
    {d' : Dispatched S W E}, dispatchAll dispatch sm events = .ok ⟨sm₁, true, q⟩ →
      dispatchAll dispatch sm₁ events' = .ok d' →
      dispatchAll dispatch sm (events ++ events') = .ok ⟨d'.sm, d'.returned, q ++ d'.sent⟩ := by
  induction events with
  | nil =>
    intro sm sm₁ q d' h h'
    obtain ⟨rfl, _, rfl⟩ := Dispatched.mk.inj (Except.ok.inj h)
    exact h'
  | cons event events ih =>
    intro sm sm₁ q d' h h'
    rw [dispatchAll] at h
    obtain ⟨d, hd, h⟩ := bind_eq_ok.mp h
    by_cases hr : d.returned = true
    · rw [if_pos hr] at h
      obtain ⟨d₁, hd₁, h⟩ := bind_eq_ok.mp h
      obtain ⟨rfl, hr₁, rfl⟩ := Dispatched.mk.inj (Except.ok.inj h)
      have hd₁' : dispatchAll dispatch d.sm events = .ok ⟨d₁.sm, true, d₁.sent⟩ := by
        rw [hd₁, ← hr₁]
      rw [List.cons_append, dispatchAll_cons hd hr (ih hd₁' h')]
      simp
    · rw [if_neg hr] at h
      rw [Except.ok.inj h] at hr
      exact absurd rfl hr

/-- **A machine sees the dispatches of its own agent only, one after the other.** -/
theorem agentRun_dispatchAll (steps : List (EpaStep T D E M)) :
    ∀ {sys sys' : AgentSys T D E M S W} {notes : List (Note T E)},
      agentRun mcfg ntop n agent cfg fuel saturates sys steps = .ok (notes, sys') →
      epaRun cfg fuel saturates sys.epa steps = .ok (notes, sys'.epa) ∧
      ∀ t, ∃ q, sys'.calls t = sys.calls t ++ q ∧
        dispatchAll (nsmDispatch mcfg ntop n (agent t)) (sys.sm t)
          ((handled t notes).map agentEvent) = .ok ⟨sys'.sm t, true, q⟩ := by
  induction steps with
  | nil =>
    intro sys sys' notes h
    obtain ⟨rfl, rfl⟩ := Prod.mk.inj (Except.ok.inj h)
    exact ⟨rfl, fun t => ⟨[], (List.append_nil _).symm, rfl⟩⟩
  | cons step steps ih =>
    intro sys sys' notes h
    obtain ⟨⟨note, sys₁⟩, hstep, h⟩ := bind_eq_ok.mp h
    obtain ⟨⟨note', epa⟩, hepa, hstep⟩ := bind_eq_ok.mp hstep
    obtain ⟨sys₂, hhan, hstep⟩ := bind_eq_ok.mp hstep
    obtain ⟨rfl, rfl⟩ := Prod.mk.inj (Except.ok.inj hstep)
    obtain ⟨⟨notes', sys₃⟩, hrun, h⟩ := bind_eq_ok.mp h
    obtain ⟨rfl, rfl⟩ := Prod.mk.inj (Except.ok.inj h)
    obtain ⟨hsame, hfirst⟩ := agentHandle_dispatchAll hhan
    obtain ⟨hrest, hall⟩ := ih hrun
    refine ⟨?_, fun t => ?_⟩
    · rw [epaRun_cons hepa]
      rw [hsame] at hrest
      rw [hrest, ok_bind]
    · obtain ⟨q, hq, hd⟩ := hfirst t
      obtain ⟨q', hq', hd'⟩ := hall t
      refine ⟨q ++ q', ?_, ?_⟩
      · rw [hq', hq]
        exact List.append_assoc ..
      · rw [handled, List.filterMap_append, List.map_append]
        exact dispatchAll_append hd hd'

/-! ## the order of the events -/

theorem runEpaStep_putAhead {ctx ctx' : EpaSys T D E M} {step : EpaStep T D E M} {t : T} {e : E}
    (h : runEpaStep cfg fuel saturates ctx step = .ok (some (.putAhead t e), ctx')) :
    step = .sendAhead t e := by
  have hnote : ∀ {note : Note T E} {error : Nerror}, noteOf note error = some (.putAhead t e) →
      note = .putAhead t e := by
    intro note error hn
    cases error with
    | none => exact Option.some.inj hn
    | _ => cases hn
  cases step with
  | register u =>
    obtain ⟨_, _, h⟩ := bind_eq_ok.mp h
    cases h
  | send u x =>
    obtain ⟨r, _, h⟩ := bind_eq_ok.mp h
    cases hnote (Prod.mk.inj (Except.ok.inj h)).1
  | sendAhead u x =>
    obtain ⟨r, _, h⟩ := bind_eq_ok.mp h
    obtain ⟨rfl, rfl⟩ := Note.putAhead.inj (hnote (Prod.mk.inj (Except.ok.inj h)).1)
    rfl
  | schedule =>
    obtain ⟨⟨u, sched⟩, _, h⟩ := bind_eq_ok.mp h
    cases u with
    | sentinel p => cases h
    | thread u =>
      rcases vfDispatchI_cases h with ⟨_, hn, _⟩ | ⟨_, _, _, hn, _⟩ | ⟨_, _, _, hn, _⟩ <;> cases hn
  | returns =>
    simp only [runEpaStep] at h
    split at h <;> cases h
  | finish =>
    simp only [runEpaStep] at h
    split at h
    · obtain ⟨_, _, h⟩ := bind_eq_ok.mp h
      cases h
    · obtain ⟨_, _, h⟩ := bind_eq_ok.mp h
      cases h
    · cases h
  | memory mem deferred => cases h

theorem epaRun_putAhead (steps : List (EpaStep T D E M)) :
    ∀ {ctx ctx' : EpaSys T D E M} {notes : List (Note T E)},
      epaRun cfg fuel saturates ctx steps = .ok (notes, ctx') →
      ∀ t e, .putAhead t e ∈ notes → .sendAhead t e ∈ steps := by
  induction steps with
  | nil =>
    intro ctx ctx' notes h t e hm
    rw [← (Prod.mk.inj (Except.ok.inj h)).1] at hm
    exact absurd hm List.not_mem_nil
  | cons step steps ih =>
    intro ctx ctx' notes h t e hm
    obtain ⟨⟨note, ctx₁⟩, hstep, h⟩ := bind_eq_ok.mp h
    obtain ⟨⟨notes', ctx₂⟩, hrun, h⟩ := bind_eq_ok.mp h
    rw [← (Prod.mk.inj (Except.ok.inj h)).1] at hm
    rcases List.mem_append.mp hm with hm | hm
    · rw [Option.mem_toList.mp hm] at hstep
      rw [runEpaStep_putAhead hstep]
      exact List.mem_cons_self
    · exact List.mem_cons_of_mem _ (ih hrun t e hm)

/-- what the machine of `t` has handled: `NSM_INIT` when the agent was started, and then the accepted
events but for those that are still in its queue, in the order in which they were accepted -/
structure AgentInOrder (mcfg : HsmConfig) (ntop : S) (n : ℕ) (a : AgentSm S W E)
    (sys sys' : AgentSys T D E M S W) (t : T) (accepted events : List E) (started : Bool) :
    Prop where
  queue : accepted = events ++ nqueueItems (sys'.epa.queue t)
  first : started = false → events = []
  handled : ∃ q, sys'.calls t = sys.calls t ++ q ∧
    dispatchAll (nsmDispatch mcfg ntop n a) (sys.sm t)
      (if started = true then .nsm .init :: events.map .other else []) = .ok ⟨sys'.sm t, true, q⟩

/-- **Every agent is a sequential machine over its own events, first in, first out.** -/
theorem agents_inOrder (hcfg : OneBucketPerLevel cfg) (hstart : EpaStart cfg sys.epa)
    (steps : List (EpaStep T D E M))
    (hl : LegalEpaRun cfg fuel saturates sys.epa (fun _ => false) steps) {notes : List (Note T E)}
    (hrun : agentRun mcfg ntop n agent cfg fuel saturates sys steps = .ok (notes, sys')) (t : T)
    (hfifo : ∀ e, .sendAhead t e ∉ steps) :
    ∃ events started, AgentInOrder mcfg ntop n (agent t) sys sys' t (putTo t notes) events started := by
  obtain ⟨hepa, hall⟩ := agentRun_dispatchAll steps hrun
  obtain ⟨notes', ctx', m', hepa', hm, h'⟩ := hstart.inv.notes hcfg fuel saturates steps hl
  obtain ⟨rfl, rfl⟩ := Prod.mk.inj (Except.ok.inj (hepa.symm.trans hepa'))
  have hqueue := followAll_fifo hm t fun e he => hfifo e (epaRun_putAhead steps hepa t e he)
  have hhandled := (followAll_handled hm t).2 rfl
  obtain ⟨q, hq, hd⟩ := hall t
  refine ⟨passedTo t notes, m'.started t, ?_, fun hs => ?_, q, hq, ?_⟩
  · rw [h'.items t]
    exact hqueue
  · rw [hs, if_neg Bool.false_ne_true] at hhandled
    -- what is passed is handled
    refine List.eq_nil_iff_forall_not_mem.mpr fun e he => ?_
    obtain ⟨note, hnote, hpass⟩ := List.mem_filterMap.mp he
    have hmem : some e ∈ Mailbox.handled t notes := by
      refine List.mem_filterMap.mpr ⟨note, hnote, ?_⟩
      cases note with
      | pass u x =>
        by_cases hu : u = t
        · simpa [Note.pass?, Note.handle?, hu] using hpass
        · simp [Note.pass?, hu] at hpass
      | _ => cases hpass
    rw [hhandled] at hmem
    exact absurd hmem List.not_mem_nil
  · rw [hhandled] at hd
    cases hs : m'.started t with
    | false =>
      rw [hs, if_neg Bool.false_ne_true] at hd
      exact hd
    | true =>
      rw [hs, if_pos rfl, List.map_cons, List.map_map] at hd
      exact hd

/-! ## the active configurations -/

end

/-! ## one agent with a machine of nested states -/

def oneAgentSys : AgentSys Unit Unit Unit Unit (Fin 4) Unit where
  epa := oneAgent
  sm := fun _ => ⟨3, ()⟩
  calls := fun _ => []

def oneAgentSm : Unit → AgentSm (Fin 4) Unit Unit := fun _ => ⟨.hsm, chainStates 2 3⟩

theorem agents_inOrder_oneEvent : ∃ notes sys',
    agentRun hsmHost 0 1 oneAgentSm cfg32 0 false oneAgentSys oneEvent = .ok (notes, sys') ∧
      ∃ events started, AgentInOrder hsmHost 0 1 (oneAgentSm ()) oneAgentSys sys' ()
        (putTo () notes) events started := by
  obtain ⟨⟨notes, sys'⟩, hrun, _⟩ := map_eq_ok (show (agentRun hsmHost 0 1 oneAgentSm cfg32 0 false
    oneAgentSys oneEvent).map (fun r => (r.2.sm ()).state) = .ok 3 by decide +kernel)
  have hstart : EpaStart cfg32 oneAgentSys.epa := oneAgent_start
  have hl : LegalEpaRun cfg32 0 false oneAgentSys.epa (fun _ => false) oneEvent := oneEvent_legal
  refine ⟨notes, sys', hrun, agents_inOrder cfg32_oneBucketPerLevel hstart oneEvent hl hrun () ?_⟩
  simp [oneEvent]

end NeonEds
