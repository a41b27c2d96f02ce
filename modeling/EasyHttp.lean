import EasyHttp.Db.SqliteQueryBuilderTheorems
import EasyHttp.Message.HttpUtilTheorems
import EasyHttp.Cache.HttpCacheStrategyFreshness
import EasyHttp.Engine.InterceptorChainTheorems
import EasyHttp.Engine.AuthorizationTheorems
import EasyHttp.Engine.RequestReuse
import EasyHttp.Connection.ConnectionInternal
import EasyHttp.Connection.ConnectionPoolInternal
import EasyHttp.Connection.ConnectionPoolInternalTheorems
import EasyHttp.Connection.PoolClients
import EasyHttp.Engine.CallCancel
import EasyHttp.Engine.CallCancelTheorems
import EasyHttp.Cache.HttpLruCacheStrategy
import EasyHttp.Cache.HttpFileCache
import EasyHttp.Cache.LruCacheByDataSizeStrategyTheorems
import EasyHttp.Cache.HttpLruCacheStrategyTheorems
import EasyHttp.Cache.LruOperations
import EasyHttp.Library.ExecPost
import EasyHttp.Cache.HttpFileCacheTheorems
import EasyHttp.Cache.CacheReaders
import EasyHttp.Cache.LruCapacity
import EasyHttp.Cache.FileUtilTheorems
import EasyHttp.Cache.CacheRemoval
import EasyHttp.Cache.HttpFileCacheSpecs
import EasyHttp.Cache.MetadataStatement
import EasyHttp.Cache.StoreCoherence
import EasyHttp.Cache.CacheEnumeration
import EasyHttp.Cache.DeferredRemoval
import EasyHttp.Cache.StoredBodies
import EasyHttp.Engine.SharedCache
import EasyHttp.Engine.StoredRows
import EasyHttp.Engine.SharedCacheTheorems
import EasyHttp.Engine.PlainWrites
import EasyHttp.Engine.Revalidation
import EasyHttp.Engine.Invalidation
import EasyHttp.Body.ResponseBodyStreamInternal
import EasyHttp.Body.ResponseBodyStreamWithCaching
import EasyHttp.Body.ResponseBodyStreamWithCachingTheorems
import EasyHttp.Body.ConnectionReuse
import EasyHttp.Connection.IdleConnections
import EasyHttp.Connection.SessionReuse
import EasyHttp.Cache.FailingRemoval
import EasyHttp.Cache.PutRetrieval
import EasyHttp.Cache.OrderedRemoval
import EasyHttp.Cache.Reopening
import EasyHttp.Cache.RefusedEvictions
import EasyHttp.Cache.Orphans
import EasyHttp.Cache.ResumedInitialization
import EasyHttp.Message.CacheControlTheorems
import EasyHttp.Engine.Admission
import EasyHttp.Engine.AuthorizedCalls
import EasyHttp.Engine.PrivateResponses
import EasyHttp.Cache.HttpCacheStrategyOutcome
import EasyHttp.Cache.ExactSpace
import EasyHttp.Engine.CacheLookup
import EasyHttp.Library.UriText
import EasyHttp.Engine.RedirectTarget
import EasyHttp.Engine.AsyncTasks
import EasyHttp.Cache.ListOrder
import EasyHttp.Cache.QuietCalls
import EasyHttp.Cache.PersistedOrder
import EasyHttp.ExecutorService.QueuedThreadPool
import EasyHttp.ExecutorService.WaitingTasks
import EasyHttp.Body.ByteArrayBuffer
import EasyHttp.Cache.FailedMove
import EasyHttp.Db.SqliteCursor
import EasyHttp.Body.RequestBodyForStream
import EasyHttp.ExecutorService.FutureTask
import EasyHttp.Db.SqliteOpenHelper
import EasyHttp.Cache.ReplacedEntry
import EasyHttp.Db.ContentValues
import EasyHttp.Engine.ConnectionRetry
import EasyHttp.Engine.ConnectionRetryTheorems
import EasyHttp.Engine.ExecutionCancel
import EasyHttp.Engine.ExecutionCancelTheorems
import EasyHttp.Engine.GracefulShutdown
import EasyHttp.Library.Guards
import EasyHttp.Cache.DatabaseTransactions
import EasyHttp.Engine.SequentialExecution
import EasyHttp.Engine.ExecutionBound
import EasyHttp.Engine.ClientRuns
import EasyHttp.Engine.ClientShutdown
