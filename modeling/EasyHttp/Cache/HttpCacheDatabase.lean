import EasyHttp.Cache.FileUtil
import EasyHttp.Message.HttpUtil
import Mathlib.Data.List.Sort

/-!
# `HttpCacheDatabase`: the metadata of the cache entries

One row an entry, by its cache key. A call that throws leaves the rows as they are: its
transaction is rolled back. The statements are written out by `SqliteQueryBuilder`, the values of an
`INSERT` between quotes as they stand: `MetadataStatement` has the texts for which the statement of
`updateMetadata` does what is said here.
-/

namespace EasyHttp

open Exec

/-- The metadata of a cache entry, without the time of creation, which is only logged.
`responseHeaders` is `none` where the stored text could not be read. -/
structure HttpCacheMetadata where
  key : String
  url : String
  httpMethod : HttpMethod
  statusCode : ℤ
  statusMessage : String
  responseHeaders : Option Headers
  responseBodySize : UInt64
  sentRequestAtEpoch : Int64
  receivedResponseAtEpoch : Int64
deriving DecidableEq

/-- `Poco::JSON` for objects whose members are strings; `parse` is `none` where Poco throws. -/
structure PocoJson where
  stringify : JsonObject → String
  parse : String → Option JsonObject

/-- `Poco::JSON` reads a stored text by its own rules, and what `Headers::add` throws then passes
through. -/
def Row.getMetadata (json : PocoJson) (key : String) (row : Row) :
    Except HttpException HttpCacheMetadata := do
  let responseHeaders ← HttpUtil.exchangeJsonStrToHeaders json.parse row.responseHeaderJson
  return {
    key := key
    url := row.url
    httpMethod := row.httpMethod
    statusCode := row.statusCode
    statusMessage := row.statusMessage
    responseHeaders := responseHeaders
    responseBodySize := row.responseBodySize
    sentRequestAtEpoch := row.sentRequestAtEpoch
    receivedResponseAtEpoch := row.receivedResponseAtEpoch }

/-- An `HttpException` thrown below the cache passes through it. -/
def liftHttp {σ α : Type} : Except HttpException α → Exec CacheException σ α
  | .ok a => return a
  | .error e => throw (.http e)

namespace HttpCacheDatabase

/-- What the row of a key says, if there is one. -/
def getMetadata (json : PocoJson) (key : String) : DiskExec (Option HttpCacheMetadata) := do
  Disk.databaseCall
  match (← getState).rows.find? key with
  | some row => return some (← liftHttp (row.getMetadata json key))
  | none => return none

/-- The answer is whether there was a row. -/
def deleteMetadata (key : String) : DiskExec Bool := do
  Disk.databaseCall
  let deleted := ((← getState).rows.find? key).isSome
  modifyState fun disk => { disk with rows := disk.rows.erase key }
  return deleted

/-- The row of the metadata's own key is replaced. For metadata of plain texts this is what the
statement gives (`writesRow_of_plainTexts`). -/
def updateMetadata (json : PocoJson) (httpCacheMetadata : HttpCacheMetadata) : DiskExec Unit := do
  Disk.databaseCall
  modifyState fun disk => { disk with rows := disk.rows.set httpCacheMetadata.key {
    url := httpCacheMetadata.url
    httpMethod := httpCacheMetadata.httpMethod
    statusCode := httpCacheMetadata.statusCode
    statusMessage := httpCacheMetadata.statusMessage
    responseHeaderJson :=
      HttpUtil.exchangeHeadersToJsonStr json.stringify httpCacheMetadata.responseHeaders
    responseBodySize := httpCacheMetadata.responseBodySize
    sentRequestAtEpoch := httpCacheMetadata.sentRequestAtEpoch
    receivedResponseAtEpoch := httpCacheMetadata.receivedResponseAtEpoch
    lastAccessedAtEpoch := disk.nowAtEpoch } }

/-- The row was used now. -/
def updateLastAccessedSec (key : String) : DiskExec Bool := do
  Disk.databaseCall
  let disk ← getState
  match disk.rows.find? key with
  | some row =>
    modifyState fun disk => { disk with
      rows := disk.rows.set key { row with lastAccessedAtEpoch := disk.nowAtEpoch } }
    return true
  | none => return false

/-- The query of `enumerate`: key and size of every row, ordered by the time of last access
(rows of one second by key). -/
def queryAll : DiskExec (List (String × UInt64)) := do
  Disk.databaseCall
  let rows := (← getState).rows.entries.insertionSort
    fun a b => a.2.lastAccessedAtEpoch ≤ b.2.lastAccessedAtEpoch
  return rows.map fun e => (e.1, e.2.responseBodySize)

/-- With the file go its rows. -/
def deleteDatabaseFile : DiskExec Bool :=
  Exec.tryCatch (do
    Disk.fileCall "cache_metadata.db"
    modifyState fun disk => { disk with rows := SortedMap.empty }
    return true)
    (catchPoco (return false))

end HttpCacheDatabase

end EasyHttp
