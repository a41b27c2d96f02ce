import EasyHttp.Cache.StoredBodies
import EasyHttp.Engine.HttpEngine

/-!
# Calls that share a cache

Any number of calls are under way, each somewhere in `HttpEngine::execute`, and each call of the
cache manager is one step; the steps of different calls come in any order. What a call waits for
from outside is part of the action: the answer of the server, the time, the failures of the disk,
what the header lists hold at that moment, and what was read from the connection into the
temporary file by the time a body stream is closed (a stream that is closed without storing
anything, and a temporary file after its `put`, are not followed).

* `Stage`: where a call stands;
* `calls`, `resume`: what a step asks of the cache, and where the call stands after it;
* `System`: the cache with its open streams, the calls, and a record of what was put, of the
  answers that confirmed an entry and of the entries that were removed, which no call reads.
-/

namespace EasyHttp.SharedCache

open Exec HttpFileCache CacheReaders HttpCacheStrategy HttpEngine

/-! ## A call -/

/-- A stored response as the lookup found it, and the entry it was read from. -/
structure Found where
  response : Response
  serial : ℕ

/-- Where a task is between two operations of the cache. -/
inductive Stage where
  | idle
  /-- the strategy has been created -/
  | sending (networkRequest : Request) (found : Option Found)
  /-- the request was sent at `sentAt` -/
  | receiving (networkRequest : Request) (found : Option Found) (sentAt : ℕ)
  /-- at the start of `updateCache` -/
  | updating (found : Found) (networkResponse : Response) (combinedHeaders : Headers)
  /-- in `updateCache`, with the metadata to put; `serial` is the entry they were read from -/
  | rewriting (found : Found) (networkResponse : Response)
    (httpCacheMetadata : HttpCacheMetadata) (serial : ℕ)
  /-- before `createResponseBodyFromCache` -/
  | opening (found : Found) (networkResponse : Option Response)
  /-- the user has a response whose body comes from the cache -/
  | served (response : Response) (found : Found) (stream : CacheStream)
  /-- the user has a response whose body is stored while it is read; `receivedAt` is the time -/
  | storing (networkResponse : Response) (receivedAt : ℕ)
  /-- before `removeFromCache` -/
  | removing (networkResponse : Response) (sentAt : ℕ)
  | finished

/-- A task with its request and where it is. -/
structure Task where
  request : Request
  begunAt : ℕ
  stage : Stage

/-- What a task does next. -/
inductive Event where
  /-- `execute` begins, and creates the strategy if the request is available to the cache -/
  | begin (request : Request) (headers : HeaderStore)
  | send
  | receive (answer : Except HttpException NetworkAnswer) (headers : HeaderStore)
  /-- the next call of the cache manager -/
  | proceed
  /-- a body that was stored in the file `path` while it was read is closed -/
  | close (content : String) (writtenDataSize : UInt64) (path : String)
  /-- a body from the cache is closed -/
  | release
  /-- `HttpCache::evictAll` -/
  | evictAll

/-- A step of one call, with its time and the failures it meets. -/
structure Action where
  task : ℕ
  event : Event
  nowAtEpoch : Int64 := 0
  faults : Faults := {}

/-- What was put for an entry: its row, its body, and when its response was received. -/
structure Put where
  row : Option Row
  body : Option String
  receivedAt : ℕ

/-- An answer that was taken to confirm the entry from which a response had been found. -/
structure Validation where
  key : String
  found : Found
  networkResponse : Response

/-- The removal of the entry of a URL, for a request that was sent at `sentAt`. -/
structure Removal where
  url : String
  sentAt : ℕ
  removedAt : ℕ

/-- The cache, the tasks, and what they have put, validated and removed. -/
structure System where
  store : CacheReaders.System
  tasks : ℕ → Task
  clock : ℕ
  /-- by key and number of the entry -/
  puts : String → ℕ → Put
  validations : List Validation
  removals : List Removal

variable (poco : Poco) (json : PocoJson) (makeCacheKey : HttpMethod → String → String)

/-- `HttpUtil::makeCacheKey(pRequest)`. -/
def keyOf (request : Request) : String := makeCacheKey request.method request.url

/-- What the functions of one engine meet, as far as the next step reads it. -/
def meets (network : Except HttpException NetworkAnswer) (dataStream : Bool) : Surroundings where
  cancelled := false
  nowAtEpoch := 0
  metadata := none
  dataStream := dataStream
  network := network
  readAll := .ok ()

/-! ## What a step asks of the cache -/

/-- The metadata that `putCache` puts. -/
def putCacheMetadata (networkResponse : Response) (writtenDataSize : UInt64) :
    HttpCacheMetadata where
  key := keyOf makeCacheKey networkResponse.request
  url := networkResponse.request.url
  httpMethod := networkResponse.request.method
  statusCode := networkResponse.statusCode
  statusMessage := networkResponse.statusMessage
  responseHeaders := some networkResponse.headers
  responseBodySize := writtenDataSize
  sentRequestAtEpoch := networkResponse.sentRequestSec
  receivedResponseAtEpoch := networkResponse.receivedResponseSec

/-- The metadata that `updateCache` puts, made from those it has read. -/
def updatedMetadata (httpCacheMetadata : HttpCacheMetadata) (networkResponse : Response)
    (combinedHeaders : Headers) : HttpCacheMetadata :=
  { httpCacheMetadata with
    responseHeaders := some combinedHeaders
    sentRequestAtEpoch := networkResponse.sentRequestSec
    receivedResponseAtEpoch := networkResponse.receivedResponseSec }

/-- The calls of the cache manager that a step makes: at most one, and before a `put` the file
that is put. Without a key there is none. -/
def callsOf (task : Task) : Event → List Call
  | .begin request headers =>
    if isAvailableToCache request headers && keyOf makeCacheKey request ≠ "" then
      [.getMetadata (keyOf makeCacheKey request)]
    else []
  | .proceed =>
    match task.stage with
    | .updating found _ _ =>
      let key := keyOf makeCacheKey found.response.request
      if key ≠ "" then [.getMetadata key] else []
    | .rewriting found _ httpCacheMetadata _ =>
      [.putMetadata (keyOf makeCacheKey found.response.request) httpCacheMetadata]
    | .opening found _ =>
      let key := keyOf makeCacheKey found.response.request
      if key ≠ "" then [.getData key] else []
    | .removing networkResponse _ =>
      let key := makeCacheKey .get networkResponse.request.url
      if key ≠ "" then [.remove key] else []
    | _ => []
  | .close content writtenDataSize path =>
    match task.stage with
    | .storing networkResponse _ =>
      let httpCacheMetadata := putCacheMetadata makeCacheKey networkResponse writtenDataSize
      if httpCacheMetadata.key ≠ "" then
        [.createFile path content, .put httpCacheMetadata.key httpCacheMetadata path]
      else []
    | _ => []
  | .release =>
    match task.stage with
    | .served _ found stream =>
      [.close ⟨keyOf makeCacheKey found.response.request, stream.serial⟩]
    | _ => []
  | .evictAll => [.purge true]
  | .send | .receive _ _ => []

/-- The operations of the cache that a step makes. -/
def calls (s : System) (action : Action) : List CacheReaders.Action :=
  (callsOf makeCacheKey (s.tasks action.task) action.event).map fun call =>
    { call := call, nowAtEpoch := action.nowAtEpoch, faults := action.faults }

/-! ## Where a call stands after a step -/

/-- What the cache answers to a call in the state at hand. -/
def answer {α : Type} (x : CacheExec α) (s : System) (action : Action) :
    Except CacheException α :=
  (exec x { s.store.cache with disk := { s.store.cache.disk with
    nowAtEpoch := action.nowAtEpoch
    faults := action.faults } }).1

/-- The number of the entry that is listed. -/
def listedSerial (s : System) (key : String) : ℕ :=
  ((s.store.cache.entry key).map (·.serial)).getD 0

/-- `createCacheStrategy` and the end of `checkCacheBeforeSendRequest`. -/
def afterLookup (request : Request) (metadata : Option HttpCacheMetadata) (nowAtEpoch : Int64)
    (headers : HeaderStore) (serial : ℕ) : Stage :=
  match (exec (HttpCacheInternal.createCacheStrategy poco request metadata nowAtEpoch.toUInt64)
    headers).1 with
  | .error _ => .finished
  | .ok cacheStrategy =>
    match cacheStrategy.networkRequest, cacheStrategy.cacheResponse with
    | none, none => .finished -- 504
    | none, some cacheResponse => .opening ⟨cacheResponse, serial⟩ none
    | some networkRequest, cacheResponse =>
      .sending networkRequest (cacheResponse.map (Found.mk · serial))

/-- `checkCacheBeforeSendRequest`. -/
def checkCache (s : System) (action : Action) (request : Request) (headers : HeaderStore) : Stage :=
  let key := keyOf makeCacheKey request
  if !isAvailableToCache request headers then .sending request none
  else if key = "" then afterLookup poco request none action.nowAtEpoch headers 0
  else match answer (getMetadata json key) s action with
    | .error _ => .finished
    | .ok metadata =>
      afterLookup poco request metadata action.nowAtEpoch headers (listedSerial s key)

/-- The rest of `execute`, from the network response. -/
def afterReceive (networkResponse : Response) (found : Option Found) (sentAt receivedAt : ℕ)
    (headers : HeaderStore) : Stage :=
  match found.filter fun found => isValidCacheResponse poco found.response networkResponse with
  | some found =>
    match combineCacheAndNetworkHeader found.response networkResponse with
    | .error _ => .finished
    | .ok combinedHeaders => .updating found networkResponse combinedHeaders
  | none =>
    if isCacheable networkResponse headers then .storing networkResponse receivedAt
    else if isInvalidCacheMethod networkResponse then .removing networkResponse sentAt
    else .finished

/-- `createResponseBodyFromCache` and the end of `createUserResponseFromCacheResponse`. -/
def afterOpen (request : Request) (found : Found) (networkResponse : Option Response)
    (stream : Option CacheStream) : Stage :=
  match stream, createUserResponseFromCacheResponse (meets (.error (.poco "")) stream.isSome)
    request found.response networkResponse with
  | some stream, .ok response => .served response found stream
  | _, _ => .finished

/-- The next call of the cache manager, and what follows it. -/
def proceed (s : System) (action : Action) (task : Task) : Option Stage :=
  match task.stage with
  | .updating found networkResponse combinedHeaders =>
    let key := keyOf makeCacheKey found.response.request
    if key = "" then some (.opening found (some networkResponse))
    else match answer (getMetadata json key) s action with
      | .error _ => some .finished
      | .ok none => some (.opening found (some networkResponse))
      | .ok (some httpCacheMetadata) => some (.rewriting found networkResponse
          (updatedMetadata httpCacheMetadata networkResponse combinedHeaders)
          (listedSerial s key))
  | .rewriting found networkResponse httpCacheMetadata _ =>
    match answer (putMetadata json (keyOf makeCacheKey found.response.request)
      httpCacheMetadata) s action with
    | .error _ => some .finished
    | .ok _ => some (.opening found (some networkResponse))
  | .opening found networkResponse =>
    let key := keyOf makeCacheKey found.response.request
    if key = "" then some .finished
    else match answer (getData key) s action with
      | .error _ => some .finished
      | .ok stream => some (afterOpen task.request found networkResponse stream)
  | .removing _ _ => some .finished
  | _ => none

/-- The task after a step; `none` when it cannot take it. -/
def resume (s : System) (action : Action) : Option Task :=
  let task := s.tasks action.task
  match action.event with
  | .begin request headers =>
    match task.stage with
    | .idle | .finished =>
      some ⟨request, s.clock, checkCache poco json makeCacheKey s action request headers⟩
    | _ => none
  | .send =>
    match task.stage with
    | .sending networkRequest found =>
      some { task with stage := .receiving networkRequest found s.clock }
    | _ => none
  | .receive answer headers =>
    match task.stage with
    | .receiving networkRequest found sentAt =>
      match sendRequestAndReceiveResponseWithRetryByConnection poco (meets answer false)
        networkRequest with
      | .error _ => some { task with stage := .finished }
      | .ok networkResponse => some { task with
          stage := afterReceive poco networkResponse found sentAt s.clock headers }
    | _ => none
  | .proceed =>
    (proceed json makeCacheKey s action task).map fun stage => { task with stage := stage }
  | .close _ _ _ =>
    match task.stage with
    | .storing _ _ => some { task with stage := .finished }
    | _ => none
  | .release =>
    match task.stage with
    | .served _ _ _ => some { task with stage := .finished }
    | _ => none
  | .evictAll => some task

/-! ## The record -/

/-- Entries that a `put` makes have their numbers from the next one on. -/
def putsAfter (s : System) (action : Action) : String → ℕ → Put :=
  match action.event, (s.tasks action.task).stage with
  | .close content writtenDataSize _, .storing networkResponse receivedAt =>
    let httpCacheMetadata := putCacheMetadata makeCacheKey networkResponse writtenDataSize
    fun key serial =>
      if key = httpCacheMetadata.key ∧ s.store.cache.nextSerial ≤ serial then
        ⟨some (httpCacheMetadata.toRow json action.nowAtEpoch), some content, receivedAt⟩
      else s.puts key serial
  | _, _ => s.puts

/-- A call that goes on to `updateCache` has had its stored response confirmed. -/
def validationsAfter (s : System) (action : Action) (task : Task) : List Validation :=
  match action.event, task.stage with
  | .receive _ _, .updating found networkResponse _ =>
    ⟨keyOf makeCacheKey found.response.request, found, networkResponse⟩ :: s.validations
  | _, _ => s.validations

/-- The entry is gone, or will be with its last reader. -/
def isRemoved (store : CacheReaders.System) (key : String) : Bool :=
  match store.cache.entry key with
  | none => true
  | some info => info.reservedRemove

/-- What has been removed is recorded. -/
def removalsAfter (s : System) (action : Action) (store : CacheReaders.System) : List Removal :=
  match action.event, (s.tasks action.task).stage with
  | .proceed, .removing networkResponse sentAt =>
    if isRemoved store (makeCacheKey .get networkResponse.request.url) then
      ⟨networkResponse.request.url, sentAt, s.clock⟩ :: s.removals
    else s.removals
  | _, _ => s.removals

/-! ## Runs -/

/-- A task goes on, and its operations of the cache are made. -/
def step (s : System) (action : Action) : Option System := do
  let task ← resume poco json makeCacheKey s action
  let store ← Runs.run (CacheReaders.step json) s.store (calls makeCacheKey s action)
  return {
    store := store
    tasks := Function.update s.tasks action.task task
    clock := s.clock + 1
    puts := putsAfter json makeCacheKey s action
    validations := validationsAfter makeCacheKey s action task
    removals := removalsAfter makeCacheKey s action store }

/-- An idle task. -/
def Task.idle : Task := ⟨⟨.get, "", none, 0, {}, none⟩, 0, .idle⟩

/-- A cache that has been initialized over a disk, with the entries found there. -/
def System.init (cacheRootDir : String) (maxSize : UInt64) (disk : Disk) : System :=
  let store := StoreCoherence.initialized cacheRootDir maxSize disk
  { store := store
    tasks := fun _ => Task.idle
    clock := 1
    puts := fun key _ => ⟨store.cache.disk.row key, (storedIn store.cache key).2.2, 0⟩
    validations := []
    removals := [] }

end EasyHttp.SharedCache
