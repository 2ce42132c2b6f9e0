import OpenTrace.Api.ClientIP
import OpenTrace.Api.RateLimiter
import OpenTrace.Api.SseGate
import OpenTrace.Connector.CircuitBreaker
import OpenTrace.Encoding.Codecs
import OpenTrace.Engine.CacheCoherence
import OpenTrace.Engine.FailedRotation
import OpenTrace.Engine.GroupCommit.Durability
import OpenTrace.Engine.LruAccounts
import OpenTrace.Engine.Query.Paging
import OpenTrace.Engine.Query.Requests
import OpenTrace.Engine.Seal.Lookup
import OpenTrace.Engine.Seal.Statistics
import OpenTrace.Engine.SharedCaches
import OpenTrace.Engine.Store.Guarantees
import OpenTrace.Engine.Tail
import OpenTrace.Guardrail.Soundness
import OpenTrace.Ingest.BatchTable
import OpenTrace.Ingest.Conservation
import OpenTrace.Jobs.Lifecycle
import OpenTrace.Mcp.CatchupGuarantee
import OpenTrace.Sqlite.ErrorGroups
import OpenTrace.Sqlite.Users
import OpenTrace.Watcher.Guarantees
