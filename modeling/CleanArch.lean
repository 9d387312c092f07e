import CleanArch.Amqp.Topics
import CleanArch.Analytics.Conservation
import CleanArch.Auth.Exchange
import CleanArch.Cache.EarlyRefresh
import CleanArch.Catalog.CursorErrors
import CleanArch.Catalog.Keyset
import CleanArch.Dlq.Conservation
import CleanArch.Dlq.SuccessFinal
import CleanArch.Dsa.HashMapCapacity
import CleanArch.Dsa.HashMapRefines
import CleanArch.Dsa.Search
import CleanArch.Idempotency.Isolation
import CleanArch.Idempotency.PayloadBinding
import CleanArch.Identifiers.Ulid
import CleanArch.Jobs.Scheduler
import CleanArch.Kafka.DeliveryOrder
import CleanArch.Ledger.BurstLimit
import CleanArch.Ledger.CompensationLimits
import CleanArch.Ledger.Currency
import CleanArch.Ledger.DomainErrors
import CleanArch.Ledger.ExactlyOnce
import CleanArch.Ledger.FailedTransfer
import CleanArch.Ledger.Matching
import CleanArch.Ledger.ReplayBinding
import CleanArch.Ledger.VelocityInspection
import CleanArch.Ledger.VelocityOutages
import CleanArch.Locks.LockOrder
import CleanArch.Locks.Ownership
import CleanArch.Logging.Redaction
import CleanArch.Memory.Accounting
import CleanArch.Memory.Rollback
import CleanArch.Outbox.StatusTruth
import CleanArch.Query.ReadOnlyGuard
import CleanArch.RateLimit.BucketExpiry
import CleanArch.RateLimit.DistributedHint
import CleanArch.RateLimit.RetryHint
import CleanArch.RateLimit.StatusInspection
import CleanArch.Resilience.BulkheadBounds
import CleanArch.Resilience.FailFast
import CleanArch.Resilience.Recovery
import CleanArch.Users.CacheCoherence
import CleanArch.Users.Privilege
import CleanArch.Users.SearchIndex
