import StreetJS.Workflow.Pause
import StreetJS.Workflow.Delivery
import StreetJS.Workflow.Cancellation
import StreetJS.Workflow.LocalReads
import StreetJS.Workflow.Timers
import StreetJS.Workflow.Signals
import StreetJS.Workflow.Saga
import StreetJS.Workflow.Substitution
import StreetJS.Postgres.Receive
import StreetJS.Postgres.Serialisation
import StreetJS.Pool.Exclusion
import StreetJS.Pool.Shutdown
import StreetJS.Jobs.SingleAdvance
import StreetJS.Jobs.SagaAtomicity
import StreetJS.Jobs.JobBounds
import StreetJS.Queue.RateBound
import StreetJS.Microservices.AppendContract
import StreetJS.Microservices.CircuitBreaker
import StreetJS.Microservices.DistributedLock
import StreetJS.Http.Lifecycle
import StreetJS.Http.Pipeline
import StreetJS.GraphQl.Execution
import StreetJS.Http.Validation
import StreetJS.Database.Conjunction
import StreetJS.Database.ValueSlots
import StreetJS.Store.SharedRateLimit
import StreetJS.Http.Router
import StreetJS.GraphQl.VariableIsolation
import StreetJS.Auth.RotationSafety
import StreetJS.Auth.AssertionSoundness
import StreetJS.Kafka.AtLeastOnce
import StreetJS.Kafka.ProducerSettlement
import StreetJS.Kafka.IdempotentProduction
import StreetJS.Amqp.PublisherConfirms
import StreetJS.Amqp.Reconnect
import StreetJS.Redis.Replies
import StreetJS.Redis.ClusterRouting
import StreetJS.Commerce.Payments
import StreetJS.Migrations.Tracking
import StreetJS.Cache.Coherence
import StreetJS.Container.Lifetimes
import StreetJS.Subscriptions.Billing
import StreetJS.Subscriptions.PeriodEnds
import StreetJS.Events.Interchange
import StreetJS.Events.Delivery
import StreetJS.Storage.DriverAgreement
import StreetJS.Storage.Mediation
import StreetJS.Storage.UploadRuns
import StreetJS.Realtime.Closing
import StreetJS.Workflow.ConcurrentIssue
import StreetJS.Workflow.TimerOrder
import StreetJS.Queue.ReservationOrder
import StreetJS.Queue.Worker
import StreetJS.Queue.Settlement
import StreetJS.Offline.Outbox
import StreetJS.Enterprise.AuditKept
import StreetJS.Tenancy.Isolation
import StreetJS.Auth.LoginSoundness
import StreetJS.Auth.RecoveryCodes
import StreetJS.Auth.Rbac
import StreetJS.Mysql.Lending
import StreetJS.Workflow.NextCron
import StreetJS.Jobs.CronScheduler
import StreetJS.Auth.ApiKeys
import StreetJS.Platform.Replication
import StreetJS.Platform.PluginArchive
