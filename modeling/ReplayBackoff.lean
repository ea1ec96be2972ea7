import ReplayBackoff.DeployedQueue
import ReplayBackoff.Batching
import ReplayBackoff.AllAttempts
import ReplayBackoff.Library.JsonReader
import ReplayBackoff.ConfigFormat
import ReplayBackoff.ConfigUpdate
import ReplayBackoff.RetryRefinement
import ReplayBackoff.Library.Simulation
import ReplayBackoff.QueueLoop
import ReplayBackoff.ConstructedReplay
import ReplayBackoff.StageResources
import ReplayBackoff.Synthesis
import ReplayBackoff.LoadRate
import ReplayBackoff.ConcurrentInvocations
import ReplayBackoff.Library.Mutex
import ReplayBackoff.ExactlyOnce
import ReplayBackoff.Library.Chain
import ReplayBackoff.QueueSettlement
import ReplayBackoff.MeteredQueues
import ReplayBackoff.Library.Potential
import ReplayBackoff.ConfigFailure
import ReplayBackoff.Paging
import ReplayBackoff.SendableReplay
import ReplayBackoff.ChunkPayload
import ReplayBackoff.AttemptCount
import ReplayBackoff.Delay
import ReplayBackoff.Chunks
import ReplayBackoff.Library.GreedyCut
import ReplayBackoff.QueueSafety
import ReplayBackoff.QueueInvariant
import ReplayBackoff.QueueSystem
import ReplayBackoff.Library.Lineage
import ReplayBackoff.Registration
import ReplayBackoff.TuningAgreement
import ReplayBackoff.Construct
import ReplayBackoff.Library.JsNumber
import ReplayBackoff.Library.NumberText
import ReplayBackoff.Routing
import ReplayBackoff.CacheSnapshot
import ReplayBackoff.ConfigCache
import ReplayBackoff.Library.SnapshotCache
import ReplayBackoff.Acknowledgement
import ReplayBackoff.ReplayFrame
import ReplayBackoff.ReplayChain
import ReplayBackoff.Hops
import ReplayBackoff.WireFormat
import ReplayBackoff.Accounting
import ReplayBackoff.Handle
import ReplayBackoff.ReplayBatch
import ReplayBackoff.ReplayRequest
import ReplayBackoff.QueueConfig
import ReplayBackoff.ConfigStore
import ReplayBackoff.Environment
import ReplayBackoff.Backoff
import ReplayBackoff.Library.JsonRoundTrip
import ReplayBackoff.Library.JsonText
import ReplayBackoff.Library.DecimalText
import ReplayBackoff.Library.Grouping
import ReplayBackoff.Library.GreedySplit
