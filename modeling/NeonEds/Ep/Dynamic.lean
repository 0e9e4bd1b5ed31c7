import NeonEds.Base.Queue
import NeonEds.Ep.Event
import NeonEds.Lib.BlockLedger

/-!
# Agents in dynamic memory (source/epa.c, source/base.c, source/smp.c)

`nqueue_alloc`, `nqueue_free`, `nsm_alloc`, `nsm_free`, `nepa_alloc` and `nepa_destroy`, with the debug
assertions disabled.  A pointer is an address, NULL is 0; the members of the objects are kept by
address, and an object is read and written only while its block is live and large enough.

The memory objects `M` are any allocators: what they answer is the stream `answer`, of which each
`nmem_alloc` takes the head.  `nthread_init` and `nthread_term` are a parameter (`ThreadOps`).  Where
`nqueue_free` has `buf`, which is not declared, the member `queue->buf` is meant.
-/

namespace NeonEds
open Exec

/-- the sizes of the types in bytes, and of `size_t` in bits -/
structure DynPort where
  sizeBits : ℕ
  ptr : ℕ
  nepa : ℕ
  nqueue : ℕ
  nsm : ℕ
  nepa_lt : nepa < 2 ^ sizeBits
  nqueue_lt : nqueue < 2 ^ sizeBits
  nsm_lt : nsm < 2 ^ sizeBits

/-- a number as a `size_t` -/
def DynPort.sizeT (P : DynPort) (n : ℕ) : ℕ := n % 2 ^ P.sizeBits

inductive NsmType where
  | fsm
  | hsm
  deriving DecidableEq

/-- `struct nepa` without its thread -/
structure NepaObj (M : Type) where
  mem : Option M
  sm : ℕ
  queue : ℕ

/-- `struct nqueue` in dynamic memory: the queue and the address of its buffer -/
structure NqueueObj (E M : Type) where
  mem : Option M
  qu : Nqueue E
  buf : ℕ

/-- `struct nsm` in dynamic memory; `N` are the state functions -/
structure NsmObj (M N : Type) where
  mem : Option M
  vfDispatch : Option NsmType
  state : Option N
  wspace : ℕ

/-- what is used of the scheduler: `nthread_init` with NULL for `vf_dispatch`, and `nthread_term` -/
structure ThreadOps (S : Type) where
  init : S → ℕ → Exec S
  term : S → ℕ → Exec S

structure DynCtx (S E M N : Type) extends EventMem E M where
  blocks : BlockLedger M
  answer : ℕ → ℕ
  epa : ℕ → NepaObj M
  queue : ℕ → NqueueObj E M
  sm : ℕ → NsmObj M N
  sched : S

section
variable {S E M N : Type}

namespace DynCtx

def setEpa (ctx : DynCtx S E M N) (a : ℕ) (x : NepaObj M) : DynCtx S E M N :=
  { ctx with epa := Function.update ctx.epa a x }

def setQueue (ctx : DynCtx S E M N) (a : ℕ) (x : NqueueObj E M) : DynCtx S E M N :=
  { ctx with queue := Function.update ctx.queue a x }

def setSm (ctx : DynCtx S E M N) (a : ℕ) (x : NsmObj M N) : DynCtx S E M N :=
  { ctx with sm := Function.update ctx.sm a x }

end DynCtx

/-! ## the memory -/

def dynAlloc (ctx : DynCtx S E M N) (m : M) (size : ℕ) : ℕ × DynCtx S E M N :=
  let answer := ctx.answer 0
  let ctx := { ctx with answer := fun k => ctx.answer (k + 1) }
  if answer ≠ 0 then (answer, { ctx with blocks := ctx.blocks.take m answer size })
  else (0, ctx)

/-- `memset` of a whole new block, the agent or the state machine that it is for -/
def memsetZero (ctx : DynCtx S E M N) (a : ℕ) : DynCtx S E M N :=
  (ctx.setEpa a ⟨none, 0, 0⟩).setSm a ⟨none, none, none, 0⟩

def dynZalloc (ctx : DynCtx S E M N) (m : M) (size : ℕ) : ℕ × DynCtx S E M N :=
  let (memStorage, ctx) := dynAlloc ctx m size
  if memStorage ≠ 0 then (memStorage, memsetZero ctx memStorage) else (memStorage, ctx)

def dynFree [DecidableEq M] (ctx : DynCtx S E M N) (mem : Option M) (a : ℕ) :
    Exec (DynCtx S E M N) := do
  let m ← deref mem
  let blocks ← ctx.blocks.give m a
  return { ctx with blocks := blocks }

variable (P : DynPort)

def readEpa (ctx : DynCtx S E M N) (a : ℕ) : Exec (NepaObj M) := do
  ctx.blocks.use a P.nepa
  return ctx.epa a

def writeEpa (ctx : DynCtx S E M N) (a : ℕ) (x : NepaObj M) : Exec (DynCtx S E M N) := do
  ctx.blocks.use a P.nepa
  return ctx.setEpa a x

def readQueue (ctx : DynCtx S E M N) (a : ℕ) : Exec (NqueueObj E M) := do
  ctx.blocks.use a P.nqueue
  return ctx.queue a

def writeQueue (ctx : DynCtx S E M N) (a : ℕ) (x : NqueueObj E M) : Exec (DynCtx S E M N) := do
  ctx.blocks.use a P.nqueue
  return ctx.setQueue a x

def readSm (ctx : DynCtx S E M N) (a : ℕ) : Exec (NsmObj M N) := do
  ctx.blocks.use a P.nsm
  return ctx.sm a

def writeSm (ctx : DynCtx S E M N) (a : ℕ) (x : NsmObj M N) : Exec (DynCtx S E M N) := do
  ctx.blocks.use a P.nsm
  return ctx.setSm a x

/-! ## queues -/

/-- the macro `N_IS_POWEROF_2` -/
def isPowerof2 (num : ℕ) : Bool := decide (num ≠ 0) && decide (num &&& (num - 1) = 0)

/-- the buffer is not there: the queue is freed, but its address is returned -/
def nqueueAlloc [DecidableEq M] (ctx : DynCtx S E M N) (m : M) (elements : ℕ) (buf : ℕ → E) :
    Exec (ℕ × DynCtx S E M N) :=
  if 2 ≤ elements ∧ isPowerof2 elements = true then
    let (queue, ctx) := dynAlloc ctx m P.nqueue
    if queue ≠ 0 then
      let (bufAddr, ctx) := dynAlloc ctx m (P.sizeT (elements * P.ptr))
      if bufAddr = 0 then do
        let ctx ← dynFree ctx (some m) queue
        return (queue, ctx)
      else do
        let ctx ← writeQueue P ctx queue ⟨some m, nqueueInit elements buf, bufAddr⟩
        return (queue, ctx)
    else .ok (queue, ctx)
  else .ok (0, ctx)

def nqueueFree [DecidableEq M] (ctx : DynCtx S E M N) (queue : ℕ) : Exec (DynCtx S E M N) := do
  let qu ← readQueue P ctx queue
  let ctx ← dynFree ctx qu.mem qu.buf
  let qu ← readQueue P ctx queue
  dynFree ctx qu.mem queue

/-! ## state machines -/

/-- `sm->wspace` is not written -/
def nsmAlloc (ctx : DynCtx S E M N) (m : M) (wspaceSize : ℕ) (initState : N) (type : NsmType) :
    Exec (ℕ × DynCtx S E M N) :=
  let (sm, ctx) := dynZalloc ctx m (P.sizeT (P.nsm + wspaceSize))
  if sm = 0 then .ok (sm, ctx)
  else do
    let x ← readSm P ctx sm
    let ctx ← writeSm P ctx sm
      { x with mem := some m, state := some initState, vfDispatch := some type }
    return (sm, ctx)

def nsmFree [DecidableEq M] (ctx : DynCtx S E M N) (sm : ℕ) : Exec (DynCtx S E M N) := do
  let x ← readSm P ctx sm
  let ctx ← writeSm P ctx sm { x with state := none, vfDispatch := none }
  if x.mem.isSome then dynFree ctx x.mem sm else .ok ctx

/-! ## agents -/

/-- what the caller gives to `nepa_alloc`, without the name and the priority; the new buffer holds
`junk` -/
structure NepaArgs (E N : Type) where
  qSize : ℕ
  wspaceSize : ℕ
  initState : N
  type : NsmType
  junk : ℕ → E

variable (threads : ThreadOps S)

/-- `nepa_alloc` from the call of `nsm_alloc` on -/
def nepaAllocSm [DecidableEq M] (ctx : DynCtx S E M N) (m : M) (args : NepaArgs E N)
    (epa queue : ℕ) : Exec (ℕ × DynCtx S E M N) := do
  let (sm, ctx) ← nsmAlloc P ctx m args.wspaceSize args.initState args.type
  if sm = 0 then
    let ctx ← nqueueFree P ctx queue
    let ctx ← dynFree ctx (some m) epa
    return (0, ctx)
  else
    let ctx ← writeEpa P ctx epa { mem := some m, sm := sm, queue := queue }
    let sched ← threads.init ctx.sched epa
    return (epa, { ctx with sched := sched })

/-- `nqueue_alloc` takes the size as a `uint32_t` -/
def nepaAlloc [DecidableEq M] (ctx : DynCtx S E M N) (m : M) (args : NepaArgs E N) :
    Exec (ℕ × DynCtx S E M N) :=
  let (epa, ctx) := dynZalloc ctx m P.nepa
  if epa = 0 then .ok (0, ctx)
  else do
    let (queue, ctx) ← nqueueAlloc P ctx m (args.qSize % 2 ^ 32) args.junk
    if queue = 0 then
      let ctx ← dynFree ctx (some m) epa
      return (0, ctx)
    else nepaAllocSm P threads ctx m args epa queue

def drainCond (s : Nqueue E × EventMem E M) : Bool := !nqueueIsEmpty s.1

/-- the loop of `nepa_destroy`: no reference is given up -/
def drainLoop (bound : ℕ) (s : Nqueue E × EventMem E M) : Exec (Nqueue E × EventMem E M) :=
  whileLoop drainCond
    (fun s => .ok ((nqueueGet s.1).2, neventDestroyI s.2 (nqueueGet s.1).1)) bound s

/-- a queue holds no more events than its size, which bounds the loop -/
def nepaDestroy [DecidableEq M] (ctx : DynCtx S E M N) (epa : ℕ) : Exec (DynCtx S E M N) := do
  let x ← readEpa P ctx epa
  let sched ← threads.term ctx.sched epa
  let ctx ← nsmFree P { ctx with sched := sched } x.sm
  let qu ← readQueue P ctx x.queue
  let (rest, mem) ← drainLoop (nqueueSize qu.qu) (qu.qu, ctx.toEventMem)
  let ctx ← writeQueue P { ctx with toEventMem := mem } x.queue { qu with qu := rest }
  let ctx ← nqueueFree P ctx x.queue
  let x ← readEpa P ctx epa
  dynFree ctx x.mem epa

end

end NeonEds
