import NeonEds.Timer.Refine
import NeonEds.Timer.CancelRuns
import NeonEds.Timer.Early
import NeonEds.Timer.Rearm
import NeonEds.Sched.SharedBuckets
import NeonEds.Sched.Startup
import NeonEds.Sched.Deferred
import NeonEds.Ep.Delivery
import NeonEds.Ep.RefCount
import NeonEds.Mm.HeapRuns
import NeonEds.Smp.HsmRuns
import NeonEds.Ep.Storage
import NeonEds.Ep.Create
import NeonEds.Ep.Forward
import NeonEds.Mm.PoolRuns
import NeonEds.Ep.Etimer
import NeonEds.Smp.Flat
import NeonEds.Ep.Wakeups
import NeonEds.Ep.Ahead
import NeonEds.Ep.Fetch
import NeonEds.Ep.Destroy
import NeonEds.Mm.FreeBytes
import NeonEds.Base.DlistRuns
import NeonEds.Base.BiasList
import NeonEds.Base.QueueRuns
import NeonEds.Sched.BitmapX64
import NeonEds.Sched.DeferredPass
import NeonEds.Sched.Fairness
import NeonEds.Timer.Ticks
import NeonEds.Timer.Drift
import NeonEds.Port.CoreLock
import NeonEds.Ep.Agents
import NeonEds.Port.Idle
import NeonEds.Port.Pic32Lock
import NeonEds.Ep.TornRef
import NeonEds.Mm.PoolData
import NeonEds.Ep.Alarms
import NeonEds.Ep.Response
import NeonEds.Ep.EventData
