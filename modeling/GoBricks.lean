import GoBricks.Lib.StepSystem
import GoBricks.Lib.ElementList
import GoBricks.Lib.ListUpdate
import GoBricks.ResourcePool.Pool
import GoBricks.ResourcePool.System
import GoBricks.ResourcePool.Sweep
import GoBricks.ResourcePool.Effect
import GoBricks.ResourcePool.Cleanup
import GoBricks.ResourcePool.Bookkeeping
import GoBricks.ResourcePool.Closing
import GoBricks.ResourcePool.Recency
import GoBricks.Outbox.Order
import GoBricks.Outbox.Settlement
import GoBricks.Hold.ReadCommitted
import GoBricks.Hold.Fencing
import GoBricks.Streams.Reopening
import GoBricks.Streams.Settled
import GoBricks.Streams.Waiters
import GoBricks.Delivery.Settlement
import GoBricks.Amqp.Mandatory
import GoBricks.Sealed.Locate
import GoBricks.Logger.Payload
import GoBricks.Logger.Interference
import GoBricks.Logger.Redaction
import GoBricks.Sql.Rendering
import GoBricks.SqlRedact.Clause
import GoBricks.Provisioning.Exclusion
import GoBricks.Server.Conflicts
import GoBricks.Server.ClientIP
import GoBricks.Trace.Pairing
import GoBricks.Messaging.Redeclare
import GoBricks.Messaging.ConsumerSetups
import GoBricks.KeyStore.Nest
import GoBricks.Cache.Namespace
import GoBricks.Migration.Fanout
import GoBricks.Outbox.Counts
import GoBricks.Outbox.OrderingKey
import GoBricks.Trace.Lineage
import GoBricks.Messaging.DeadLetter
import GoBricks.Messaging.DeclarationsHash
import GoBricks.KeyStore.Generation
import GoBricks.Provisioning.Refinement
import GoBricks.Config.Merge
import GoBricks.Messaging.DedupKey
