import NeonEds.Smp.Hsm

/-!
# Flat state machines (source/smp.c)

`n_sm_fsm_dispatch`, in the same terms as the dispatcher of hierarchical machines: `FsmFrame` is the
machine with the local variables of the function and the calls of state functions made so far, and
`fsmDispatch` is given the number of transitions that it may make.

`dispatchAll` dispatches one event after the other with either of the two.
-/

namespace NeonEds
open Exec

structure FsmFrame (S W E : Type) where
  sm : Nsm S W
  ret : Naction
  currentState : S
  event : HsmEvent E
  sent : List (HsmCall S E)

section
variable {S W E : Type} (cfg : HsmConfig) (h : Nstates S W E)

/-- a call of `current_state`, with its answer -/
def fsmCall (f : FsmFrame S W E) (event : HsmEvent E) : FsmFrame S W E × Naction :=
  let r := h f.currentState f.sm event
  ({ f with sm := r.1, sent := f.sent ++ [⟨f.currentState, event, r.2⟩] }, r.2)

/-- `ret = current_state(sm, event)` -/
def fsmAsk (f : FsmFrame S W E) : FsmFrame S W E :=
  let r := fsmCall h f f.event
  { r.1 with ret := r.2 }

/-- the body of `while ((ret = current_state(sm, event)) == NACTION_TRANSIT_TO)`, and the call in the
condition that follows it -/
def fsmTransit (f : FsmFrame S W E) : Exec (FsmFrame S W E) := do
  let r := fsmCall h f (.nsm .exit)
  require cfg.apiValidation (r.2 = .ignored ∨ r.2 = .handled)
  let f := { r.1 with currentState := r.1.sm.state }
  let r := fsmCall h f (.nsm .entry)
  require cfg.apiValidation (r.2 = .ignored ∨ r.2 = .handled)
  .ok (fsmAsk h { r.1 with event := .nsm .init })

/-- the end of `n_sm_fsm_dispatch`; a dispatch that still transits has not got there -/
def fsmReturn (f : FsmFrame S W E) : Exec (FsmFrame S W E) :=
  if f.ret = .transitTo then .ok f
  else do
    require cfg.apiValidation (f.ret ≠ .super)
    .ok { f with sm := { f.sm with state := f.currentState } }

/-- `n_sm_fsm_dispatch` with at most `n` transitions: it has returned when `ret` is not
`Naction.transitTo` -/
def fsmDispatch (n : ℕ) (sm : Nsm S W) (event : HsmEvent E) : Exec (FsmFrame S W E) := do
  let f := fsmAsk h ⟨sm, .super, sm.state, event, []⟩
  let f ← iterLoop (fun f => f.ret = .transitTo) (fsmTransit cfg h) n f
  fsmReturn cfg f

end

/-! ## one event after the other -/

/-- what a list of dispatches has come to: the machine, whether all of them returned, and the calls of
state functions -/
structure Dispatched (S W E : Type) where
  sm : Nsm S W
  returned : Bool
  sent : List (HsmCall S E)

section
variable {S W E : Type}

/-- an event is dispatched when the dispatch of the event before it has returned -/
def dispatchAll (dispatch : Nsm S W → HsmEvent E → Exec (Dispatched S W E)) :
    Nsm S W → List (HsmEvent E) → Exec (Dispatched S W E)
  | sm, [] => .ok ⟨sm, true, []⟩
  | sm, event :: events => do
    let d ← dispatch sm event
    if d.returned = true then do
      let d' ← dispatchAll dispatch d.sm events
      .ok ⟨d'.sm, d'.returned, d.sent ++ d'.sent⟩
    else .ok d

/-- every event is dispatched with at most `n` transitions -/
def hsmDispatchAll [DecidableEq S] (cfg : HsmConfig) (h : Nstates S W E) (ntop : S) (n : ℕ) :
    Nsm S W → List (HsmEvent E) → Exec (Dispatched S W E) :=
  dispatchAll fun sm event => do
    let f ← hsmDispatch cfg h ntop n sm event
    .ok ⟨f.sm, f.ret ≠ .transitTo, f.sent⟩

def fsmDispatchAll (cfg : HsmConfig) (h : Nstates S W E) (n : ℕ) :
    Nsm S W → List (HsmEvent E) → Exec (Dispatched S W E) :=
  dispatchAll fun sm event => do
    let f ← fsmDispatch cfg h n sm event
    .ok ⟨f.sm, f.ret ≠ .transitTo, f.sent⟩

end

end NeonEds
