import EasyHttp.Engine.SharedCache

/-!
# Calls that share a cache, with the header lists of their requests

The header lists of all requests stand in one store: users make them, an engine writes a
conditional header into the list of its request and copies it, and a redirect makes a list for the
next hop. Each hop of a call is a task of `SharedCache`; which hop follows which is part of the
run, so a chain of redirects is one run among others.

* `Event`: what users, engines and servers do;
* `headersAfterLookup`: what the lookup of a hop does to the header lists;
* `System`: the shared cache, the header lists, and a record of which requests carried
  `Authorization` and of what was written into the cache, which no call reads.
-/

namespace EasyHttp.AuthorizedCalls

open Exec HttpConstants HttpCacheStrategy HttpEngine SharedCache

/-- What a task does next. -/
inductive Event where
  /-- a user makes a header list -/
  | make (headers : Headers)
  /-- the first hop of a call, for a request with a header list that exists -/
  | begin (request : Request)
  /-- the next hop, for the request that `getRetryRequest` makes of the response of a hop -/
  | redirect (response : Response)
  | send
  | receive (answer : Except HttpException NetworkAnswer)
  | proceed
  | close (content : String) (writtenDataSize : UInt64) (path : String)
  | release
  | evictAll

/-- A task and what it does. -/
structure Action where
  task : ℕ
  event : Event
  nowAtEpoch : Int64 := 0
  faults : Faults := {}

/-- The action of the shared cache. -/
def Action.ask (action : Action) (event : SharedCache.Event) : SharedCache.Action :=
  { task := action.task, event := event, nowAtEpoch := action.nowAtEpoch, faults := action.faults }

/-- What a call has written into the cache: the response that it wrote, the body if it wrote one,
and whether the request that was sent for the response carried `Authorization`. -/
structure Write where
  networkResponse : Response
  content : Option String
  authorized : Bool

/-- The cache that tasks share, with the header lists and what has been written. -/
structure System where
  shared : SharedCache.System
  headers : HeaderStore
  /-- whether the request of a hop carried `Authorization` when the hop began -/
  begunWith : ℕ → Bool
  /-- whether the request that was sent for it did, when it was sent -/
  sentWith : ℕ → Bool
  writes : List Write

/-- Any number of `Authorization` headers, in any letter case. -/
def carriesAuthorization (request : Request) (headers : HeaderStore) : Bool :=
  request.hasHeader headers HeaderNames.Authorization

variable (poco : Poco) (json : PocoJson) (makeCacheKey : HttpMethod → String → String)

/-- The header lists after `checkCacheBeforeSendRequest`. -/
def headersAfterLookup (s : System) (action : SharedCache.Action) (request : Request)
    (headers : HeaderStore) : HeaderStore :=
  let key := keyOf makeCacheKey request
  let found := if key = "" then .ok none
    else answer (HttpFileCache.getMetadata json key) s.shared action
  match found with
  | .error _ => headers
  | .ok metadata =>
    let env := { meets (.error (.poco "")) false with
      metadata := metadata
      nowAtEpoch := action.nowAtEpoch.toUInt64 }
    (exec (checkCacheBeforeSendRequest poco true env request) headers).2

/-- A hop begins. -/
def beginHop (s : System) (action : Action) (request : Request) (headers : HeaderStore) :
    Option System := do
  let asked := action.ask (.begin request headers)
  let shared ← SharedCache.step poco json makeCacheKey s.shared asked
  return {
    shared := shared
    headers := headersAfterLookup poco json makeCacheKey s asked request headers
    begunWith := Function.update s.begunWith action.task (carriesAuthorization request headers)
    sentWith := Function.update s.sentWith action.task false
    writes := s.writes }

/-- The event of the shared cache in a hop that has begun. -/
def Event.shared (headers : HeaderStore) : Event → Option SharedCache.Event
  | .make _ | .begin _ | .redirect _ => none
  | .send => some .send
  | .receive answer => some (.receive answer headers)
  | .proceed => some .proceed
  | .close content writtenDataSize path => some (.close content writtenDataSize path)
  | .release => some .release
  | .evictAll => some .evictAll

/-- Whether the task has sent a request with credentials. -/
def sentAfter (s : System) (action : Action) : ℕ → Bool :=
  match action.event, (s.shared.tasks action.task).stage with
  | .send, .sending networkRequest _ =>
    Function.update s.sentWith action.task (carriesAuthorization networkRequest s.headers)
  | _, _ => s.sentWith

/-- A closed body is put with its response, and `updateCache` puts combined headers. -/
def writesAfter (s : System) (action : Action) : List Write :=
  match action.event, (s.shared.tasks action.task).stage with
  | .close content _ _, .storing networkResponse _ =>
    ⟨networkResponse, some content, s.sentWith action.task⟩ :: s.writes
  | .proceed, .rewriting _ networkResponse _ _ =>
    ⟨networkResponse, none, s.sentWith action.task⟩ :: s.writes
  | _, _ => s.writes

/-- A hop goes on. -/
def continueHop (s : System) (action : Action) : Option System := do
  let event ← action.event.shared s.headers
  let shared ← SharedCache.step poco json makeCacheKey s.shared (action.ask event)
  return { s with
    shared := shared
    sentWith := sentAfter s action
    writes := writesAfter s action }

/-- A task begins a hop, or goes on with one. -/
def step (s : System) (action : Action) : Option System :=
  match action.event with
  | .make headers => some { s with headers := s.headers.alloc headers }
  | .begin request =>
    if request.headers < s.headers.next then
      beginHop poco json makeCacheKey s action request s.headers
    else none
  | .redirect response =>
    match exec (getRetryRequest poco response) s.headers with
    | (.ok (some retryRequest), headers) =>
      beginHop poco json makeCacheKey s action retryRequest headers
    | _ => none
  | _ => continueHop poco json makeCacheKey s action

/-- A cache that has been initialized over a disk, and no header lists. -/
def System.init (cacheRootDir : String) (maxSize : UInt64) (disk : Disk) : System where
  shared := SharedCache.System.init cacheRootDir maxSize disk
  headers := ⟨[]⟩
  begunWith := fun _ => false
  sentWith := fun _ => false
  writes := []

end EasyHttp.AuthorizedCalls
