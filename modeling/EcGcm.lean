import EcGcm.Lib.Word
import EcGcm.Lib.UnorderedMap
import EcGcm.Lib.Handler
import EcGcm.Lib.System
import EcGcm.Lib.Bytes
import EcGcm.Types
import EcGcm.Stats.Window
import EcGcm.Stats.Global
import EcGcm.Stats.Local
import EcGcm.SubContainer
import EcGcm.ElasticContainer
import EcGcm.Api
import EcGcm.Manager.CpuReport
import EcGcm.Manager.Memory
import EcGcm.Manager.Admission
import EcGcm.Deploy
import EcGcm.System
import EcGcm.Server
import EcGcm.Proof.Counters
import EcGcm.Proof.Resize
import EcGcm.Proof.Queues
import EcGcm.Proof.Agents
import EcGcm.Proof.Deletion
import EcGcm.Proof.Reports
import EcGcm.Proof.CpuBooks
import EcGcm.Proof.CpuRuns
import EcGcm.Proof.Frames
import EcGcm.Proof.FairShare
import EcGcm.Proof.Fixed
import EcGcm.Proof.Quiet
import EcGcm.Proof.Reclaim
import EcGcm.Proof.ReclaimBounds
import EcGcm.Proof.Rounding
import EcGcm.Proof.Recovery
import EcGcm.Proof.Grants
import EcGcm.Proof.Convergence
import EcGcm.Proof.LeakRepair
import EcGcm.Proof.Mismatch
import EcGcm.Proof.IdleSweep
import EcGcm.Proof.SweepOrder
import EcGcm.Proof.QuotaFloor
import EcGcm.Proof.Rejections
import EcGcm.Proof.Survival
import EcGcm.Proof.MemBooks
import EcGcm.Proof.MemRuns
import EcGcm.Proof.InFlight
import EcGcm.Proof.QuotaLink
import EcGcm.Proof.Tolerance
import EcGcm.Proof.AgentMap
import EcGcm.Proof.DeleteFrame
import EcGcm.Proof.Registries
import EcGcm.Lib.Threads
import EcGcm.Proof.CpuThreads
import EcGcm.Proof.MemThreads
import EcGcm.Proof.StartUp
import EcGcm.Proof.Completions
import EcGcm.Proof.Framing
import EcGcm.Proof.Keys
import EcGcm.Lib.Ring
import EcGcm.Proof.SlidingMean
import EcGcm.Proof.Throttle
import EcGcm.Proof.FlushedWindow
import EcGcm.Proof.Fifo
import EcGcm.Proof.ReclaimTasks
import EcGcm.Lib.Monitor
import EcGcm.Proof.Registrations
import EcGcm.Proof.Rendezvous
import EcGcm.Lib.Snapshots
import EcGcm.Proof.Fields
import EcGcm.Proof.ResizeThreads
import EcGcm.Proof.ResizeBooks
import EcGcm.Proof.OverlappingPasses
import EcGcm.Proof.Sessions
import EcGcm.Lib.Shadow
import EcGcm.Proof.Observers
import EcGcm.Proof.MemoryAlone
import EcGcm.Lib.Heap
import EcGcm.Proof.Pointers
import EcGcm.Proof.MemLock
