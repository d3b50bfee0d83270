import PerfStats.Monitor.StreamedText
import PerfStats.Frame.CounterWrap
import PerfStats.Ingest.WriteReport
import PerfStats.Ingest.WriteStage
import PerfStats.Listend.Acks
import PerfStats.Listend.PendingFrames
import PerfStats.Listend.Reorder
import PerfStats.Listend.Rotation
import PerfStats.Listend.ShardAccounting
import PerfStats.Ingest.ProcUpsert
import PerfStats.Monitor.CpuAlgebra
import PerfStats.Monitor.LustreRuns
import PerfStats.Monitor.RingOrder
import PerfStats.Monitor.RingDump
import PerfStats.Monitor.Sampling
import PerfStats.Monitor.SchemaDense
import PerfStats.Monitor.SharedBurst
import PerfStats.Archive.DayManifest
import PerfStats.Archive.TarDrop
import PerfStats.Archive.TarRewrite
import PerfStats.Archive.Authority
import PerfStats.Archive.SingleFlight
import PerfStats.Archive.StoreSidecar
import PerfStats.Archive.IdentityMaps
import PerfStats.Archive.WriteBehind
import PerfStats.Archive.WriteBehindFlush
import PerfStats.Archive.WriteBehindKeys
import PerfStats.Archive.RestoreAdmission
import PerfStats.Metrics.ChunkedFetch
import PerfStats.Metrics.DirtyStamps
import PerfStats.Metrics.SchedulerAccounts
import PerfStats.Metrics.OwnershipBisection
import PerfStats.Metrics.TimeImbalance
import PerfStats.Metrics.CopyBounds
import PerfStats.Metrics.BucketMeans
import PerfStats.Metrics.BackfillBrake
import PerfStats.Metrics.DeferralAttempts
import PerfStats.Metrics.FetchOrder
import PerfStats.JobStore.BestClaims
import PerfStats.JobStore.Snapshots
import PerfStats.Orchestrator.FailureBounds
import PerfStats.Orchestrator.PathOwners
import PerfStats.JobStore.DeadLetterCycles
import PerfStats.Ingest.CopyVectorized
import PerfStats.Feed.LiveArchive
import PerfStats.Feed.MarkBinding
import PerfStats.Ingest.CoalesceFrames
import PerfStats.Ingest.AccountingFile
import PerfStats.Ingest.AccountingInsert
import PerfStats.Metrics.FaithfulKeys
import PerfStats.Frame.StampedDeltas
import PerfStats.Frame.PercorePlan
import PerfStats.Ingest.InsertArms
import PerfStats.Archive.IngestGate
import PerfStats.Feed.StartResolve
import PerfStats.Archive.PaxHeader
