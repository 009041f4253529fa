import GasCity.Awake.MandatoryWake
import GasCity.BdStore.CompareAndSet
import GasCity.Beads.Pages
import GasCity.Caching.Cadence
import GasCity.Caching.DirtyMarks
import GasCity.Caching.Notifications
import GasCity.Caching.Readiness
import GasCity.Caching.ReadyOrder
import GasCity.Caching.Shortcuts
import GasCity.Caching.SpuriousClose
import GasCity.Caching.Writers
import GasCity.CityWriteAuth.Binding
import GasCity.CityWriteAuth.SingleUse
import GasCity.Convergence.Guarantees
import GasCity.Dispatch.Cancellation
import GasCity.Dispatch.LineageIsolation
import GasCity.Dispatch.RetryEval
import GasCity.Drain.Projection
import GasCity.ExtMsg.Transcript
import GasCity.FileStore.Continuity
import GasCity.FileStore.Rollback
import GasCity.Formula.RalphOrder
import GasCity.Formula.RecipeOrder
import GasCity.Launch.Guard
import GasCity.MemStore.Fence
import GasCity.Nudge.Isolation
import GasCity.Nudge.Leases
import GasCity.Orders.CronSlots
import GasCity.Orders.CursorSafety
import GasCity.Packman.Resolve
import GasCity.Pool.Urgency
import GasCity.SessionLog.Pages
import GasCity.WispGC.Deletion
import GasCity.Workflow.CloseSubtree
