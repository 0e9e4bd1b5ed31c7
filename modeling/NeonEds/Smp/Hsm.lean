import NeonEds.Lib.Exec

/-!
# Hierarchical state machines (source/smp.c)

`S` are the states, that is the pointers to state functions, `W` what the state functions read and
write apart from `sm->state`, `E` the events other than the four of `g_smp_events`.  `HsmFrame` is
the machine together with the local variables of `n_sm_hsm_dispatch` and the list of all calls of
state functions made so far.  A transition may start another one for ever, so `hsmDispatch` is
given the number of transitions it may make.
-/

namespace NeonEds
open Exec

/-- the configuration (`base/config.h`) and what the state machines take from the port -/
structure HsmConfig where
  /-- `CONFIG_SMP_HSM_PATH_DEPTH` -/
  depth : ℕ
  /-- the width of `uint_fast8_t` -/
  fast8 : ℕ
  /-- `CONFIG_API_VALIDATION == 1` -/
  apiValidation : Bool
  /-- an index of a path that would fall below zero stops the run; the code goes on with the greatest
  `uint_fast8_t` -/
  trapUnderflow : Bool

/-- the events of `g_smp_events` -/
inductive NsmEvent where
  | super
  | entry
  | exit
  | init
  deriving DecidableEq, Repr

inductive HsmEvent (E : Type) where
  | nsm (id : NsmEvent)
  | other (e : E)
  deriving DecidableEq, Repr

inductive Naction where
  | super
  | transitTo
  | handled
  | ignored
  deriving DecidableEq, Repr

/-- `struct nsm`, the work space included -/
structure Nsm (S W : Type) where
  state : S
  wspace : W
  deriving DecidableEq, Repr

/-- the state functions -/
abbrev Nstates (S W E : Type) := S → Nsm S W → HsmEvent E → Nsm S W × Naction

/-- one call of a state function -/
structure HsmCall (S E : Type) where
  state : S
  event : HsmEvent E
  answer : Naction
  deriving DecidableEq, Repr

/-- `struct hsm_path`; the elements of `buff` are not set at first -/
structure HsmPath (S : Type) where
  buff : ℕ → Option S
  index : ℕ

structure HsmFrame (S W E : Type) where
  sm : Nsm S W
  ret : Naction
  currentState : S
  entry : HsmPath S
  exit : HsmPath S
  sent : List (HsmCall S E)

section
variable {S W E : Type} [DecidableEq S] (cfg : HsmConfig)

namespace HsmPath

def init : HsmPath S := ⟨fun _ => none, 0⟩

def read (p : HsmPath S) (k : ℕ) : Exec S :=
  if k < cfg.depth then deref (p.buff k) else .error .bounds

def write (p : HsmPath S) (k : ℕ) (s : S) : Exec (HsmPath S) :=
  if k < cfg.depth then .ok { p with buff := Function.update p.buff k (some s) }
  else .error .bounds

def indexInc (p : HsmPath S) : HsmPath S := { p with index := (p.index + 1) % 2 ^ cfg.fast8 }

def indexDec (p : HsmPath S) : Exec (HsmPath S) :=
  if 0 < p.index then .ok { p with index := p.index - 1 }
  else if cfg.trapUnderflow then .error .bounds
  else .ok { p with index := 2 ^ cfg.fast8 - 1 }

end HsmPath

section
variable (h : Nstates S W E) (f : HsmFrame S W E)

/-- a call of the state function `s`, with its answer -/
def hsmCall (s : S) (event : HsmEvent E) : HsmFrame S W E × Naction :=
  let r := h s f.sm event
  ({ f with sm := r.1, sent := f.sent ++ [⟨s, event, r.2⟩] }, r.2)

/-- the super state is left in `sm->state` -/
def hsmGetStateSuper (state : S) : Exec (HsmFrame S W E) := do
  let r := hsmCall h f state (.nsm .super)
  require cfg.apiValidation (r.2 = .super)
  .ok r.1

/-- `exit->buff[exit->index] == entry->buff[entry->index]` -/
def hsmPathsMeet : Exec Bool := do
  let a ← f.exit.read cfg f.exit.index
  let b ← f.entry.read cfg f.entry.index
  .ok (a = b)

/-- `current_state = hsm_get_state_super(sm, entry->buff[entry->index++])` and
`entry->buff[entry->index] = current_state` -/
def hsmEntryUp : Exec (HsmFrame S W E) := do
  let s ← f.entry.read cfg f.entry.index
  let f ← hsmGetStateSuper cfg h { f with entry := f.entry.indexInc cfg } s
  let entry ← f.entry.write cfg f.entry.index f.sm.state
  .ok { f with entry }

/-- the same with `exit` -/
def hsmExitUp : Exec (HsmFrame S W E) := do
  let s ← f.exit.read cfg f.exit.index
  let f ← hsmGetStateSuper cfg h { f with exit := f.exit.indexInc cfg } s
  let exit ← f.exit.write cfg f.exit.index f.sm.state
  .ok { f with exit }

def hsmEntryInc : HsmFrame S W E := { f with entry := f.entry.indexInc cfg }

def hsmEntryDec : Exec (HsmFrame S W E) := do
  let entry ← f.entry.indexDec cfg
  .ok { f with entry }

def hsmExitInc : HsmFrame S W E := { f with exit := f.exit.indexInc cfg }

def hsmExitDec : Exec (HsmFrame S W E) := do
  let exit ← f.exit.indexDec cfg
  .ok { f with exit }

end

/-! ## `hsm_build_path`, the last case first

An iteration of a loop is counted against `CONFIG_SMP_HSM_PATH_DEPTH`. -/

section
variable (h : Nstates S W E) (ntop : S)

/-- the `do` loop of path g, `true` when it returned -/
def hsmScanEntry : ℕ → HsmFrame S W E → Exec (HsmFrame S W E × Bool)
  | 0, _ => .error .fuel
  | n + 1, f => do
    let meet ← hsmPathsMeet cfg (hsmEntryInc cfg f)
    if meet then .ok (hsmEntryInc cfg f, true)
    else do
      let e ← (hsmEntryInc cfg f).entry.read cfg (hsmEntryInc cfg f).entry.index
      if e = ntop then .ok (hsmEntryInc cfg f, false) else hsmScanEntry n (hsmEntryInc cfg f)

/-- path g: `...super(super(source)) ?== ...super(super(destination))` -/
def hsmPathG : ℕ → HsmFrame S W E → Exec (HsmFrame S W E)
  | 0, _ => .error .fuel
  | n + 1, f => do
    let f ← hsmExitUp cfg h f
    let r ← hsmScanEntry cfg ntop cfg.depth { f with entry := { f.entry with index := 0 } }
    if r.2 then .ok r.1 else hsmPathG n r.1

/-- path f: `super(source) ?== ...super(super(destination))` -/
def hsmPathF : ℕ → HsmFrame S W E → Exec (HsmFrame S W E)
  | 0, _ => .error .fuel
  | n + 1, f =>
    if f.entry.index = 1 then hsmPathG cfg h ntop cfg.depth f
    else do
      let meet ← hsmPathsMeet cfg f
      if meet then .ok f
      else do
        let f ← hsmEntryDec cfg f
        hsmPathF n f

/-- path e: `source ?== ...super(super(destination))` -/
def hsmPathE : ℕ → HsmFrame S W E → Exec (HsmFrame S W E)
  | 0, _ => .error .fuel
  | n + 1, f => do
    let e ← f.entry.read cfg f.entry.index
    if e = ntop then hsmPathF cfg h ntop cfg.depth (hsmExitInc cfg f)
    else do
      let f ← hsmEntryUp cfg h f
      let meet ← hsmPathsMeet cfg f
      if meet then .ok f else hsmPathE n f

/-- path d: `super(source) ?== destination` -/
def hsmPathD (f : HsmFrame S W E) : Exec (HsmFrame S W E) := do
  let f ← hsmEntryDec cfg f
  let meet ← hsmPathsMeet cfg f
  if meet then .ok f
  else do
    let f ← hsmExitDec cfg f
    hsmPathE cfg h ntop cfg.depth (hsmEntryInc cfg f)

/-- path c: `super(source) ?== super(destination)` -/
def hsmPathC (f : HsmFrame S W E) : Exec (HsmFrame S W E) := do
  let f ← hsmExitUp cfg h f
  let meet ← hsmPathsMeet cfg f
  if meet then .ok f else hsmPathD cfg h ntop f

/-- path b: `source ?== super(destination)` -/
def hsmPathB (f : HsmFrame S W E) : Exec (HsmFrame S W E) := do
  let f ← hsmEntryUp cfg h f
  let meet ← hsmPathsMeet cfg f
  if meet then .ok f else hsmPathC cfg h ntop f

/-- path a: `source ?== destination` -/
def hsmBuildPath (f : HsmFrame S W E) : Exec (HsmFrame S W E) := do
  let f ← hsmExitDec cfg { f with entry := { f.entry with index := 0 } }
  let meet ← hsmPathsMeet cfg f
  if meet then .ok (hsmExitInc cfg (hsmEntryInc cfg f))
  else hsmPathB cfg h ntop f

end

/-! ## the dispatcher -/

section
variable (h : Nstates S W E) (ntop : S)

/-- the body of the loops of `hsm_path_enter` and `hsm_path_exit` -/
def hsmSignal (id : NsmEvent) (path : HsmFrame S W E → HsmPath S) (f : HsmFrame S W E) (k : ℕ) :
    Exec (HsmFrame S W E) := do
  let s ← (path f).read cfg k
  let r := hsmCall h f s (.nsm id)
  require cfg.apiValidation (r.2 = .ignored ∨ r.2 = .handled ∨ r.2 = .super)
  .ok r.1

def hsmPathEnter (f : HsmFrame S W E) : Exec (HsmFrame S W E) :=
  (List.range f.entry.index).reverse.foldlM (hsmSignal cfg h .entry HsmFrame.entry) f

def hsmPathExit (f : HsmFrame S W E) : Exec (HsmFrame S W E) :=
  (List.range f.exit.index).foldlM (hsmSignal cfg h .exit HsmFrame.exit) f

/-- the body of `do .. while (ret == NACTION_SUPER)` -/
def hsmAsk (event : HsmEvent E) (f : HsmFrame S W E) : Exec (HsmFrame S W E) := do
  let exit ← f.exit.write cfg f.exit.index f.sm.state
  let r := hsmCall h { f with exit := exit.indexInc cfg } f.sm.state event
  .ok { r.1 with ret := r.2 }

/-- the body of `while (ret == NACTION_TRANSIT_TO)` -/
def hsmTransit (f : HsmFrame S W E) : Exec (HsmFrame S W E) := do
  let entry ← f.entry.write cfg 0 f.sm.state
  let f ← hsmBuildPath cfg h ntop { f with entry }
  let f ← hsmPathExit cfg h f
  let f ← hsmPathEnter cfg h f
  let target ← f.entry.read cfg 0
  let r := hsmCall h f target (.nsm .init)
  let exit ← r.1.exit.write cfg 0 target
  .ok { r.1 with ret := r.2, currentState := target, exit := { exit with index := 1 } }

/-- `n_sm_hsm_dispatch` up to the end of the first loop -/
def hsmOffer (sm : Nsm S W) (event : HsmEvent E) : Exec (HsmFrame S W E) := do
  let f ← hsmAsk cfg h event ⟨sm, .super, sm.state, HsmPath.init, HsmPath.init, []⟩
  whileLoop (fun f => f.ret = .super) (hsmAsk cfg h event) cfg.depth f

/-- the end of `n_sm_hsm_dispatch`; a dispatch that still transits has not got there -/
def hsmReturn (f : HsmFrame S W E) : HsmFrame S W E :=
  if f.ret = .transitTo then f else { f with sm := { f.sm with state := f.currentState } }

/-- `n_sm_hsm_dispatch` with at most `n` transitions: it has returned when `ret` is not
`Naction.transitTo` -/
def hsmDispatch (n : ℕ) (sm : Nsm S W) (event : HsmEvent E) : Exec (HsmFrame S W E) := do
  let f ← hsmOffer cfg h sm event
  let f ← iterLoop (fun f => f.ret = .transitTo) (hsmTransit cfg h ntop) n f
  .ok (hsmReturn f)

end

end

end NeonEds
