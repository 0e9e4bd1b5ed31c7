import NeonEds.Base.BiasList
import NeonEds.Sched.Bitmap

/-!
# The scheduler (source/sched.c)

The run queue is an array of circular lists, the buckets, with the bitmap of the buckets in use; a
thread is on the list of its bucket while its reference count is positive.  `SchedCtx` is
`g_sched_ctx` together with the members of all threads; `T` are the threads of the application, `V`
the dispatch functions.  The name and the registry node of a thread are left out: the scheduler does
not read them.
-/

namespace NeonEds
open Exec

/-- the idle thread is a static variable of `nthread_init` -/
inductive ThreadId (T : Type) where
  | idle
  | app (t : T)
  deriving DecidableEq

/-- the nodes of the run queue -/
inductive SchedNode (T : Type) where
  | sentinel (bucket : ℕ)
  | thread (t : ThreadId T)
  deriving DecidableEq

/-- `struct nthread` without its node -/
structure Nthread (V : Type) where
  /-- `NSIGNATURE_OF(thread) == NSIGNATURE_THREAD` -/
  signature : Bool
  ref : ℕ
  vfDispatch : Option V

structure SchedCtx (w : ℕ) (T V : Type) where
  node : BiasLists (SchedNode T)
  bitmap : PrioBitmap w
  current : Option (SchedNode T)
  isInitialized : Bool
  thread : ThreadId T → Nthread V

/-- `NPRIO_ARRAY_BUCKET_BITS` -/
def SchedConfig.bucketBits (cfg : SchedConfig) : ℕ :=
  nlog2_8 (ndivisionRoundup cfg.levels cfg.buckets)

section
variable {w : ℕ} {T V : Type} [DecidableEq T]

namespace SchedCtx

/-- zeroed memory -/
def init : SchedCtx w T V where
  node := ⟨⟨fun _ => none, fun _ => none⟩, fun _ => 0⟩
  bitmap := ⟨0#w, fun _ => 0#32⟩
  current := none
  isInitialized := false
  thread := fun _ => ⟨false, 0, none⟩

def setThread (ctx : SchedCtx w T V) (t : ThreadId T) (x : Nthread V) : SchedCtx w T V :=
  { ctx with thread := Function.update ctx.thread t x }

def ref (ctx : SchedCtx w T V) (t : ThreadId T) : ℕ := (ctx.thread t).ref

def setRef (ctx : SchedCtx w T V) (t : ThreadId T) (x : ℕ) : SchedCtx w T V :=
  ctx.setThread t { ctx.thread t with ref := x }

end SchedCtx

/-- `queue->sentinel[bucket]` -/
def sentinelAt (cfg : SchedConfig) (bucket : ℕ) : Exec (SchedNode T) :=
  if bucket < cfg.buckets then .ok (.sentinel bucket) else .error .bounds

def initSentinels : ℕ → BiasLists (SchedNode T) → BiasLists (SchedNode T)
  | 0, L => L
  | count + 1, L => initSentinels count (nbiasListInit L (.sentinel count) nbiasListMaxPrio)

def prioQueueInit (cfg : SchedConfig) (ctx : SchedCtx w T V) : SchedCtx w T V :=
  { ctx with
    bitmap := if cfg.buckets ≠ 1 then bitmapInit cfg ctx.bitmap else ctx.bitmap
    node := initSentinels (cfg.buckets % 2 ^ cfg.fast8) ctx.node }

def bucketOf (cfg : SchedConfig) (ctx : SchedCtx w T V) (n : SchedNode T) : ℕ :=
  if cfg.buckets ≠ 1 then nbiasListGetBias ctx.node n >>> cfg.bucketBits else 0

/-- at the end of the list with one bucket for each level, else sorted -/
def bucketInsert (cfg : SchedConfig) (fuel : ℕ) (ctx : SchedCtx w T V) (sentinel n : SchedNode T) :
    Exec (SchedCtx w T V) := do
  let node ← if cfg.buckets ≠ cfg.levels then nbiasListSortInsert fuel ctx.node sentinel n
    else nbiasListFifoInsert ctx.node sentinel n
  return { ctx with node := node }

/-- the first entry in a list marks the bucket as used -/
def bitmapMark (cfg : SchedConfig) (ctx : SchedCtx w T V) (sentinel : SchedNode T) (bucket : ℕ) :
    Exec (PrioBitmap w) :=
  if cfg.buckets ≠ 1 ∧ nbiasListIsEmpty ctx.node sentinel then bitmapSet cfg ctx.bitmap bucket
  else .ok ctx.bitmap

/-- the last node that leaves a list marks the bucket as unused -/
def bitmapUnmark (cfg : SchedConfig) (ctx : SchedCtx w T V) (bucket : ℕ) : Exec (PrioBitmap w) :=
  if cfg.buckets ≠ 1 then do
    let sentinel ← sentinelAt cfg bucket
    if nbiasListIsEmpty ctx.node sentinel then bitmapClear cfg ctx.bitmap bucket
    else .ok ctx.bitmap
  else .ok ctx.bitmap

def prioQueueInsert (cfg : SchedConfig) (fuel : ℕ) (ctx : SchedCtx w T V) (n : SchedNode T) :
    Exec (SchedCtx w T V) := do
  let bucket := bucketOf cfg ctx n
  let sentinel ← sentinelAt cfg bucket
  let bitmap ← bitmapMark cfg ctx sentinel bucket
  bucketInsert cfg fuel { ctx with bitmap := bitmap } sentinel n

def prioQueueRemove (cfg : SchedConfig) (ctx : SchedCtx w T V) (n : SchedNode T) :
    Exec (SchedCtx w T V) := do
  let bucket := bucketOf cfg ctx n
  let node ← nbiasListRemove cfg.apiValidation ctx.node n
  let bitmap ← bitmapUnmark cfg { ctx with node := node } bucket
  return { ctx with node := node, bitmap := bitmap }

def prioQueueRotate (cfg : SchedConfig) (fuel : ℕ) (ctx : SchedCtx w T V) (n : SchedNode T) :
    Exec (SchedCtx w T V) := do
  let bucket := bucketOf cfg ctx n
  let node ← nbiasListRemove cfg.apiValidation ctx.node n
  let sentinel ← sentinelAt cfg bucket
  bucketInsert cfg fuel { ctx with node := node } sentinel n

def highestBucket (cfg : SchedConfig) (ctx : SchedCtx w T V) : Exec ℕ :=
  if cfg.buckets ≠ 1 then bitmapGetHighest cfg ctx.bitmap else .ok 0

def prioQueuePeek (cfg : SchedConfig) (ctx : SchedCtx w T V) : Exec (SchedNode T) := do
  let bucket ← highestBucket cfg ctx
  let sentinel ← sentinelAt cfg bucket
  nbiasListNext ctx.node sentinel

/-- the new node, which the caller takes for the node of a thread -/
def schedScheduleI (cfg : SchedConfig) (fuel : ℕ) (ctx : SchedCtx w T V) :
    Exec (SchedNode T × SchedCtx w T V) := do
  let newNode ← prioQueuePeek cfg ctx
  let ctx ← prioQueueRotate cfg fuel { ctx with current := some newNode } newNode
  return (newNode, ctx)

def nthreadInsertI (cfg : SchedConfig) (fuel : ℕ) (ctx : SchedCtx w T V) (t : ThreadId T) :
    Exec (SchedCtx w T V) := do
  require cfg.asserts ((ctx.thread t).signature = false)
  let ctx ← if ctx.ref t = 0 then prioQueueInsert cfg fuel ctx (.thread t) else .ok ctx
  return ctx.setRef t ((ctx.ref t + 1) % 2 ^ cfg.fast32)

def nthreadRemoveI (cfg : SchedConfig) (ctx : SchedCtx w T V) (t : ThreadId T) :
    Exec (SchedCtx w T V) := do
  require cfg.asserts ((ctx.thread t).signature = false)
  let ctx := ctx.setRef t ((ctx.ref t + 2 ^ cfg.fast32 - 1) % 2 ^ cfg.fast32)
  if ctx.ref t = 0 then prioQueueRemove cfg ctx (.thread t) else return ctx

/-- `nthread_init` behind the preparation of the run queue; `priority` is a `uint8_t` -/
def nthreadSetup (cfg : SchedConfig) (ctx : SchedCtx w T V) (t : ThreadId T) (priority : ℕ)
    (vfDispatch : V) : SchedCtx w T V :=
  { ctx with
    node := nbiasListInit ctx.node (.thread t) (priority % 2 ^ 8)
    thread := Function.update ctx.thread t
      ⟨if cfg.apiValidation then true else (ctx.thread t).signature, 0, some vfDispatch⟩ }

/-- the first call of `nthread_init` prepares the run queue; `idleDispatch` is
`sched_idle_dispatch_i` -/
def prepareRunQueue (cfg : SchedConfig) (fuel : ℕ) (idleDispatch : V) (ctx : SchedCtx w T V) :
    Exec (SchedCtx w T V) :=
  if ctx.isInitialized = false then do
    let ctx := prioQueueInit cfg { ctx with isInitialized := true, current := none }
    require cfg.asserts ((ctx.thread .idle).signature = false)
    nthreadInsertI cfg fuel (nthreadSetup cfg ctx .idle 0 idleDispatch) .idle
  else .ok ctx

def nthreadInit (cfg : SchedConfig) (fuel : ℕ) (idleDispatch : V) (ctx : SchedCtx w T V)
    (t : ThreadId T) (priority : ℕ) (vfDispatch : V) : Exec (SchedCtx w T V) := do
  require cfg.asserts ((ctx.thread t).signature = false)
  let ctx ← prepareRunQueue cfg fuel idleDispatch ctx
  return nthreadSetup cfg ctx t priority vfDispatch

/-- a ready thread leaves the run queue whatever its reference count is -/
def removeIfReady (cfg : SchedConfig) (ctx : SchedCtx w T V) (t : ThreadId T) :
    Exec (SchedCtx w T V) :=
  if ctx.ref t ≠ 0 then prioQueueRemove cfg ctx (.thread t) else .ok ctx

def nthreadTerm (cfg : SchedConfig) (ctx : SchedCtx w T V) (t : ThreadId T) :
    Exec (SchedCtx w T V) := do
  require cfg.asserts ((ctx.thread t).signature = true)
  let ctx ← removeIfReady cfg ctx t
  let ctx := { ctx with node := nbiasListTerm ctx.node (.thread t) }
  return ctx.setThread t { ctx.thread t with
    signature := if cfg.apiValidation then false else (ctx.thread t).signature }

end

end NeonEds
