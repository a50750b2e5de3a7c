import ExpertKit.Control.DrainDelivery
import ExpertKit.Control.DrainOrder
import ExpertKit.Control.FullStateDelivery
import ExpertKit.Control.RemovalReports
import ExpertKit.Control.ReportOrder
import ExpertKit.Control.StateReports
import ExpertKit.Control.TargetOrder
import ExpertKit.Controller.Cancellation
import ExpertKit.Controller.ExpertDrains
import ExpertKit.Controller.Failures
import ExpertKit.Controller.Heartbeats
import ExpertKit.Controller.WeightSessions
import ExpertKit.Elastic.Balance
import ExpertKit.Elastic.Coverage
import ExpertKit.Elastic.Dispatcher
import ExpertKit.Elastic.Eviction
import ExpertKit.Elastic.ExpertIds
import ExpertKit.Elastic.Lifecycle
import ExpertKit.Elastic.ManualSchedule
import ExpertKit.Elastic.Placement
import ExpertKit.Elastic.Rebalance
import ExpertKit.Frontend.Connections
import ExpertKit.Lib.Attempts
import ExpertKit.Lib.Files
import ExpertKit.Lib.Gathering
import ExpertKit.Lib.Pruning
import ExpertKit.Lib.Shares
import ExpertKit.Lib.Split
import ExpertKit.Lib.Tiling
import ExpertKit.Routing.Execute
import ExpertKit.Routing.Retry
import ExpertKit.Topology.Watch
import ExpertKit.Transport.Accounts
import ExpertKit.Transport.GrpcRoundTrip
import ExpertKit.Transport.OutputPool
import ExpertKit.Transport.ShmClient
import ExpertKit.Transport.ShmErrors
import ExpertKit.Transport.ShmLayout
import ExpertKit.Transport.ShmOwnership
import ExpertKit.Weights.ExpertIndex
import ExpertKit.Weights.FastPath
import ExpertKit.Weights.Resume
import ExpertKit.Worker.Changes
import ExpertKit.Worker.CpuLeases
import ExpertKit.Worker.DirectIo
import ExpertKit.Worker.DirectWrites
import ExpertKit.Worker.DiskCache
import ExpertKit.Worker.DrainSafety
import ExpertKit.Worker.DramCache
import ExpertKit.Worker.Executor
import ExpertKit.Worker.FullDevice
import ExpertKit.Worker.ReadyWeights
import ExpertKit.Worker.Reports
import ExpertKit.Worker.SafeTensors
import ExpertKit.Worker.SharedLoads
import ExpertKit.Worker.Slot
