import NeonEds.Base.Queue
import NeonEds.Ep.Event
import NeonEds.Lib.Exec

/-!
# Event processing agents (source/epa.c)

`EpaCtx` is the memory of the agents `T`, of the deferred queues `D` and of the events `E`, with the
state `S` of the scheduler and the place `ctl` at which the scheduler loop stands.  The functions are
those of `epa.c` with the debug assertions disabled; the scheduler is a parameter (`Scheduler`), so
that what is proved about the events holds whatever the scheduler does.

`epa_dispatch_i` and `epa_init_i` leave the critical section while the state machine runs; they are
cut there: `epaDispatchStart`, `epaDispatchRefDown`, `epaDispatchEnd`, and `epaInitEnd`.
-/

namespace NeonEds
open Exec

/-- the values of `vf_dispatch_i` -/
inductive EpaFn where
  | idle
  | init
  | dispatch
  deriving DecidableEq

/-- what `epa.c` uses of the scheduler -/
structure Scheduler (S T : Type) where
  insertI : S → T → Exec S
  removeI : S → T → Exec S
  setDispatch : S → T → EpaFn → S

inductive Nerror where
  | none
  | noMemory
  | noResource
  | noReference
  deriving DecidableEq

/-- where the scheduler loop stands -/
inductive EpaCtl (T E : Type) where
  /-- between two dispatches -/
  | loop
  /-- the state machine of `t` handles `NSM_INIT` -/
  | initialising (t : T)
  /-- the state machine of `t` handles `e` -/
  | dispatching (t : T) (e : E)
  /-- the state machine of `t` has returned and the reference to `e` is given up -/
  | dispatched (t : T) (e : E)

structure EpaCtx (S T D E M : Type) extends EventMem E M where
  sched : S
  queue : T → Nqueue E
  deferred : D → Nqueue E
  ctl : EpaCtl T E

section
variable {S T D E M : Type} [DecidableEq T] [DecidableEq D] [DecidableEq E]

namespace EpaCtx

def withMem (ctx : EpaCtx S T D E M) (m : EventMem E M) : EpaCtx S T D E M :=
  { ctx with toEventMem := m }

def setQueue (ctx : EpaCtx S T D E M) (t : T) (qu : Nqueue E) : EpaCtx S T D E M :=
  { ctx with queue := Function.update ctx.queue t qu }

def setDeferred (ctx : EpaCtx S T D E M) (d : D) (qu : Nqueue E) : EpaCtx S T D E M :=
  { ctx with deferred := Function.update ctx.deferred d qu }

end EpaCtx

variable (sch : Scheduler S T) (saturates : Bool)

def nepaRegister (ctx : EpaCtx S T D E M) (t : T) : Exec (EpaCtx S T D E M) := do
  let sched ← sch.insertI (sch.setDispatch ctx.sched t .init) t
  return { ctx with sched := sched }

def nepaSendEventI (ctx : EpaCtx S T D E M) (t : T) (e : E) :
    Exec (Nerror × EpaCtx S T D E M) :=
  if neventRef (ctx.event e) < neventRefLimit then
    let ctx := ctx.withMem (ctx.refUp saturates e)
    if nqueueIsFull (ctx.queue t) = false then do
      let ctx := ctx.setQueue t (nqueuePutFifo (ctx.queue t) e)
      let sched ← sch.insertI ctx.sched t
      return (.none, { ctx with sched := sched })
    else
      .ok (.noResource, ctx.withMem (neventDestroyI (ctx.refDown saturates e) e))
  else .ok (.noReference, ctx)

/-- a full queue: the reference that was taken is not given up -/
def nepaSendEventAheadI (ctx : EpaCtx S T D E M) (t : T) (e : E) :
    Exec (Nerror × EpaCtx S T D E M) :=
  if neventRef (ctx.event e) < neventRefLimit then
    let ctx := ctx.withMem (ctx.refUp saturates e)
    if nqueueIsFull (ctx.queue t) = false then do
      let ctx := ctx.setQueue t (nqueuePutLifo (ctx.queue t) e)
      let sched ← sch.insertI ctx.sched t
      return (.none, { ctx with sched := sched })
    else
      .ok (.noResource, ctx.withMem (neventDestroyI ctx.toEventMem e))
  else .ok (.noReference, ctx)

/-- `mem` and `answer` are those of `neventCreate` -/
def nepaSendSignalI (ctx : EpaCtx S T D E M) (t : T) (eventId : ℕ) (mem : M) (answer : Option E) :
    Exec (Nerror × EpaCtx S T D E M) :=
  match neventCreate ctx.toEventMem eventId mem answer with
  | (some e, m) => nepaSendEventI sch saturates (ctx.withMem m) t e
  | (none, m) => .ok (.noMemory, ctx.withMem m)

omit [DecidableEq T] in
def nepaDeferEvent (ctx : EpaCtx S T D E M) (d : D) (e : E) : Nerror × EpaCtx S T D E M :=
  if nqueueIsFull (ctx.deferred d) = false then
    let ctx := ctx.withMem (ctx.refUp saturates e)
    (.none, ctx.setDeferred d (nqueuePutFifo (ctx.deferred d) e))
  else (.noResource, ctx)

/-- the front of the deferred queue `d` is sent to the current agent `t` -/
def deferFetch (d : D) (t : T) (ctx : EpaCtx S T D E M) : Exec (Nerror × EpaCtx S T D E M) :=
  let (e, qu) := nqueueGet (ctx.deferred d)
  let ctx := ctx.setDeferred d qu
  nepaSendEventI sch saturates (ctx.withMem (ctx.refDown saturates e)) t e

def nepaDeferFetchOne (ctx : EpaCtx S T D E M) (t : T) (d : D) :
    Exec (Nerror × EpaCtx S T D E M) :=
  if nqueueIsEmpty (ctx.deferred d) = false then deferFetch sch saturates d t ctx
  else .ok (.none, ctx)

omit [DecidableEq T] [DecidableEq D] [DecidableEq E] in
def fetchCond (d : D) (s : Nerror × EpaCtx S T D E M) : Bool :=
  decide (s.1 = .none) && !nqueueIsEmpty (s.2.deferred d)

def fetchLoop (d : D) (t : T) (bound : ℕ) (s : Nerror × EpaCtx S T D E M) :
    Exec (Nerror × EpaCtx S T D E M) :=
  whileLoop (fetchCond d) (fun s => deferFetch sch saturates d t s.2) bound s

/-- a queue holds no more events than its size, which bounds the loop -/
def nepaDeferFetchAll (ctx : EpaCtx S T D E M) (t : T) (d : D) :
    Exec (Nerror × EpaCtx S T D E M) :=
  fetchLoop sch saturates d t (nqueueSize (ctx.deferred d)) (.none, ctx)

omit [DecidableEq D] [DecidableEq E] in
def epaDispatchStart (ctx : EpaCtx S T D E M) (t : T) : EpaCtx S T D E M :=
  let (e, qu) := nqueueGet (ctx.queue t)
  { ctx.setQueue t qu with ctl := .dispatching t e }

omit [DecidableEq T] [DecidableEq D] in
def epaDispatchRefDown (ctx : EpaCtx S T D E M) (t : T) (e : E) : EpaCtx S T D E M :=
  { ctx.withMem (ctx.refDown saturates e) with ctl := .dispatched t e }

omit [DecidableEq T] [DecidableEq D] [DecidableEq E] in
def epaDispatchEnd (ctx : EpaCtx S T D E M) (t : T) (e : E) : Exec (EpaCtx S T D E M) := do
  let ctx := ctx.withMem (neventDestroyI ctx.toEventMem e)
  let sched ← sch.removeI ctx.sched t
  return { ctx with sched := sched, ctl := .loop }

omit [DecidableEq T] [DecidableEq D] [DecidableEq E] in
def epaInitEnd (ctx : EpaCtx S T D E M) (t : T) : Exec (EpaCtx S T D E M) := do
  let sched ← sch.removeI ctx.sched t
  return { ctx with sched := sch.setDispatch sched t .dispatch, ctl := .loop }

end

end NeonEds
