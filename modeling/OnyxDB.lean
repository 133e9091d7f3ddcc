import OnyxDB.Persistence.AppendContract
import OnyxDB.Persistence.CoveredSegments
import OnyxDB.Persistence.CodecRoundTrip
import OnyxDB.Persistence.Writing
import OnyxDB.Persistence.FurtherWrites
import OnyxDB.Engine.SnapshotEpoch
import OnyxDB.Persistence.Lifecycle
import OnyxDB.Persistence.CrashSafety
import OnyxDB.Persistence.SnapshotInstall
import OnyxDB.Persistence.TornWrites
import OnyxDB.Library.Interrupted
import OnyxDB.Persistence.RecoverySteps
import OnyxDB.Persistence.RepeatedRecovery
import OnyxDB.Replication.ReplicaState
import OnyxDB.Replication.FullSync
import OnyxDB.Library.Arrival
import OnyxDB.Protocol.Resp
import OnyxDB.Protocol.RespAgreement
import OnyxDB.Protocol.Pipeline
import OnyxDB.Protocol.RespEncoding
import OnyxDB.Protocol.Response
import OnyxDB.Protocol.ResponseAgreement
import OnyxDB.Protocol.Obp
import OnyxDB.Engine.Accounting
import OnyxDB.Engine.Operation
import OnyxDB.Engine.AccountingRuns
import OnyxDB.Engine.FlatMap
import OnyxDB.Engine.FlatRefinement
import OnyxDB.Store.StoreSnapshot
import OnyxDB.Replication.Node
import OnyxDB.Replication.Promotion
import OnyxDB.Replication.Lineage
import OnyxDB.Replication.DurableIdentity
import OnyxDB.Library.Tasks
import OnyxDB.Maintenance.Runtime
import OnyxDB.Maintenance.Tasks
import OnyxDB.Maintenance.WriteBudget
import OnyxDB.Maintenance.Counters
import OnyxDB.Maintenance.FullCatalog
import OnyxDB.Maintenance.Scheduling
import OnyxDB.Maintenance.Backpressure
import OnyxDB.Engine.Double
import OnyxDB.Library.LossyText
import OnyxDB.Store.JsonPath
import OnyxDB.Store.Glob
import OnyxDB.Store.Typed
import OnyxDB.Command.Execution
import OnyxDB.Coordinator.Prepare
import OnyxDB.Coordinator.Group
import OnyxDB.Engine.Confinement
import OnyxDB.Store.Programs
import OnyxDB.Command.Confinement
import OnyxDB.Engine.EvictionSpec
import OnyxDB.Store.AdmissionSpec
import OnyxDB.Coordinator.Undertaking
import OnyxDB.Coordinator.Process
import OnyxDB.Coordinator.Preparation
import OnyxDB.Coordinator.Transparency
import OnyxDB.Server.ObpCommand
import OnyxDB.Library.Wildcard
import OnyxDB.Store.GlobSpec
import OnyxDB.Store.ListRange
import OnyxDB.Library.Descent
import OnyxDB.Store.JsonPathLaws
import OnyxDB.Store.ByteFidelity
import OnyxDB.Store.Honesty
import OnyxDB.Command.Honesty
import OnyxDB.Engine.Provenance
import OnyxDB.Store.ValueShape
import OnyxDB.Command.ValueShape
import OnyxDB.Coordinator.Invariance
import OnyxDB.Server.WellFormedValues
import OnyxDB.Command.Composition
import OnyxDB.Engine.KeyCount
import OnyxDB.Coordinator.KeyLimit
import OnyxDB.Coordinator.KeyLimitRuns
import OnyxDB.Engine.EvictionOrder
import OnyxDB.Store.AdmissionExact
import OnyxDB.Persistence.Sealing
import OnyxDB.Persistence.SealingSpec
import OnyxDB.Library.Hexadecimal
import OnyxDB.Replication.ChunkedRecord
import OnyxDB.Replication.ChunkedRoundTrip
import OnyxDB.Server.ObpAnswers
import OnyxDB.Library.Stepping
import OnyxDB.Store.JsonPathScan
import OnyxDB.Store.JsonPathGrammar
import OnyxDB.Coordinator.Coherence
import OnyxDB.Coordinator.GroupRollback
import OnyxDB.Coordinator.FleetingKeys
import OnyxDB.Store.JsonDepth
import OnyxDB.Command.DocumentDepth
import OnyxDB.Coordinator.LoggedBatches
import OnyxDB.Server.ReadableBatches
import OnyxDB.Coordinator.StorableGroups
import OnyxDB.Server.OversizedBatches
import OnyxDB.Coordinator.Visibility
import OnyxDB.Replication.Delivery
import OnyxDB.Replication.WireFormat
import OnyxDB.Replication.Convergence
import OnyxDB.Replication.Observers
import OnyxDB.Coordinator.QueueProgress
import OnyxDB.Library.Rounds
import OnyxDB.Server.ClientSession
import OnyxDB.Server.Transactions
import OnyxDB.Server.SessionOrder
import OnyxDB.Server.SessionRuns
