import EasyHttp.Connection.ConnectionPoolInternalTheorems
import EasyHttp.Engine.HttpEngine
import EasyHttp.Library.Runs

/-!
# `cancel` while `execute` runs

One thread is in `HttpRequestExecutor::execute`, without interceptors, and others call `cancel`.
`cancel` is one section under the executor's mutex, and each section of `execute`, under the mutex
of the executor or of the engine, is a step of its own.

* `Stage`: where the executing thread stands;
* `cancel`: the whole of `HttpRequestExecutor::cancel`;
* `step`: the sections; what the server, the cache and the connections do is part of the action;
* `NotMissed`: when `execute` returns, a `cancel` before the publication has had its effect;
* `CheckedLast`: no `cancel` came between the last check and the publication.
-/

namespace EasyHttp.ExecutionCancel

open Exec

/-! ## The state -/

/-- The fields of an engine that a cancel has to do with. -/
structure HttpEngine where
  address : ListenerPtr
  userRequest : Request
  cacheResponse : Option Response := none
  connectionInternal : Option ConnectionPtr := none
  cancelled : Bool := false

/-- The fields of an executor that a cancel has to do with. -/
structure HttpRequestExecutor where
  httpEngine : Option HttpEngine := none
  userResponse : Option Response := none
  cancelled : Bool := false

/-- An attempt to send a request. -/
structure Attempt where
  networkRequest : Request
  uri : Uri
  connectionReused : Bool := false

/-- Where the executing thread stands, named by what comes next. -/
inductive Stage where
  /-- `executeWithRetry` checks for a cancel and makes an engine -/
  | creating (currentRequest : Request)
  | checkingCache
  /-- the check before a connection is asked for -/
  | starting (networkRequest : Request) (forceToCreateConnection : Bool)
  | finding (attempt : Attempt)
  | connecting (attempt : Attempt)
  /-- the connection becomes that of the engine -/
  | installing (attempt : Attempt) (p : ConnectionPtr)
  | sending (attempt : Attempt)
  /-- the check after the request is sent -/
  | sent (attempt : Attempt)
  | receiving (attempt : Attempt)
  /-- the handler takes the connection from the engine -/
  | catching (networkRequest : Request) (connectionReused : Bool) (e : HttpException)
  | handling (networkRequest : Request) (connectionReused : Bool) (e : HttpException)
    (p : ConnectionPtr)
  /-- a response for the user is made from that of the network -/
  | received (networkResponse : Response)
  /-- `execute` of the engine has returned -/
  | answered (userResponse : Response)
  | redirecting (userResponse : Response) (retryRequest : Request)
  | publishing (userResponse : Response)
  | published
  | returned (response : Option Response)
  | thrown (e : HttpException)

/-- The response is, or was, in `m_pUserResponse`. -/
def Stage.isPublished : Stage → Bool
  | published | returned _ => true
  | _ => false

/-- An executor that executes, the pool and the header lists. -/
structure System where
  executor : HttpRequestExecutor := {}
  stage : Stage
  retryCount : ℕ := 0
  pool : ConnectionPoolInternal
  headers : HeaderStore
  /-- of the response that was made last -/
  streamClosed : Bool := false
  /-- recorded, and read by no step: a `cancel` was over before the publication -/
  cancelledBefore : Bool := false
  /-- recorded: a `cancel` came after the last check, and before the publication -/
  cancelledUnchecked : Bool := false
  /-- recorded: a `cancel` came after the publication -/
  cancelledAfter : Bool := false

/-- An executor that has not begun. -/
def System.init (request : Request) (pool : ConnectionPoolInternal) (headers : HeaderStore) :
    System where
  stage := .creating request
  pool := pool
  headers := headers

namespace System

/-- The execution is at another stage. -/
def goTo (s : System) (stage : Stage) : System := { s with stage := stage }

/-- The executor has this engine. -/
def setEngine (s : System) (engine : HttpEngine) : System :=
  { s with executor := { s.executor with httpEngine := some engine } }

/-- The thread has seen that it is not cancelled. -/
def pass (s : System) (stage : Stage) : System :=
  { s with stage := stage, cancelledUnchecked := false }

/-- A response for the user, whose stream is open. -/
def answer (s : System) (userResponse : Response) : System :=
  { s with stage := .answered userResponse, streamClosed := false }

end System

/-! ## `cancel` -/

/-- `connectionCancelled` is the answer of `ConnectionInternal::cancel`. -/
def HttpEngine.cancel (engine : HttpEngine) (pool : ConnectionPoolInternal)
    (connectionCancelled : Bool) : Bool × HttpEngine × ConnectionPoolInternal :=
  if engine.cancelled then (true, engine, pool)
  else match engine.connectionInternal with
    | some p => (connectionCancelled, { engine with cancelled := true },
        ((pool.setConnection p (pool.connections p).cancel).removeConnection p).2)
    | none => (true, { engine with cancelled := true }, pool)

/-- The connection goes back to the pool. -/
def HttpEngine.onIdle (engine : HttpEngine) (p : ConnectionPtr) : HttpEngine :=
  if engine.connectionInternal = some p then { engine with connectionInternal := none } else engine

/-- `cancel` of the engine, where there is one. -/
def cancelEngine (s : System) (connectionCancelled : Bool) : Bool × System :=
  match s.executor.httpEngine with
  | some engine =>
    let (ret, engine, pool) := engine.cancel s.pool connectionCancelled
    (ret, { s.setEngine engine with pool := pool })
  | none => (true, s)

/-- The stream of `m_pUserResponse` is closed, if it has a body. -/
def closeUserResponse (s : System) : System :=
  match s.executor.userResponse.bind Response.body with
  | some _ => { s with streamClosed := true }
  | none => s

/-- `cancel` of the executor, from any thread. -/
def cancel (s : System) (connectionCancelled : Bool) : Bool × System :=
  let (ret, s) := cancelEngine { s with executor := { s.executor with cancelled := true } }
    connectionCancelled
  (ret, closeUserResponse s)

/-- What is recorded of a `cancel`. -/
def record (s : System) : System :=
  if s.stage.isPublished then { s with cancelledAfter := true }
  else { s with cancelledBefore := true, cancelledUnchecked := true }

/-! ## `execute` -/

/-- What all engines of the call share. -/
structure Context where
  context : EasyHttpContext
  hasCache : Bool
  hasConnectionPool : Bool

section
variable (poco : Poco) (context : Context)

/-- The destructor of the engine of the hop before. -/
def destroyEngine (s : System) : System :=
  match s.executor.httpEngine.bind (·.connectionInternal) with
  | some p => { s with pool := s.pool.setListener p none }
  | none => s

/-- The new engine has this address. -/
def createEngine (s : System) (currentRequest : Request) (address : ListenerPtr) : System :=
  if s.executor.cancelled then s.goTo (.thrown (.execution "http request is cancelled."))
  else
    ((destroyEngine s).setEngine { address := address, userRequest := currentRequest }).pass
      .checkingCache

/-- The cache's answer is the user's response, or the request is sent. -/
def checkCacheBeforeSendRequest (s : System) (engine : HttpEngine) (env : Surroundings) : System :=
  let (result, headers) := exec
    (HttpEngine.checkCacheBeforeSendRequest poco context.hasCache env engine.userRequest) s.headers
  let s := { s with headers := headers }
  match result with
  | .error e => s.goTo (.thrown e)
  | .ok check =>
    let s := s.setEngine { engine with cacheResponse := check.cacheResponse }
    match check.userResponse, check.networkRequest with
    | some userResponse, _ => s.answer userResponse
    | none, some networkRequest => s.goTo (.starting networkRequest false)
    -- a NULL request is dereferenced
    | none, none => s.goTo (.thrown (.poco "Null pointer"))

/-- A temporary pool if the context has none. -/
def chooseConnectionPool (s : System) : System :=
  if context.hasConnectionPool then s else { s with pool := ConnectionPoolInternal.create 10 60 }

/-- The start of `sendRequestAndReceiveResponse`. -/
def start (s : System) (engine : HttpEngine) (networkRequest : Request)
    (forceToCreateConnection : Bool) : System :=
  if engine.cancelled then
    s.goTo (.catching networkRequest false (.execution "Http request is cancelled."))
  else
    let s := chooseConnectionPool context s
    match poco.uri networkRequest.url with
    | .error message => s.pass (.catching networkRequest false (.execution
        ("Url is not valid. [" ++ networkRequest.url ++ "] message=[" ++ message ++ "]")))
    | .ok uri =>
      s.pass (if forceToCreateConnection then .connecting ⟨networkRequest, uri, false⟩
        else .finding ⟨networkRequest, uri, false⟩)

/-- The pool is asked for a connection. -/
def findAndReuseConnection (s : System) (attempt : Attempt) : System :=
  match s.pool.findAndReuseConnection poco attempt.networkRequest.url context.context with
  | (some p, pool) =>
    { s with pool := pool }.goTo (.installing { attempt with connectionReused := true } p)
  | (none, pool) => { s with pool := pool }.goTo (.connecting attempt)

/-- The new connection has the address `p`. -/
def createConnection (s : System) (attempt : Attempt) (p : ConnectionPtr)
    (sslContext : Except HttpException Unit) : System :=
  match s.pool.createConnection poco p attempt.networkRequest.url context.context sslContext with
  | .error e => s.goTo (.catching attempt.networkRequest attempt.connectionReused e)
  | .ok pool => { s with pool := pool }.goTo (.installing attempt p)

/-- The connection is that of the engine from now on. -/
def installConnection (s : System) (engine : HttpEngine) (attempt : Attempt) (p : ConnectionPtr) :
    System :=
  { s.setEngine { engine with connectionInternal := some p } with
    pool := s.pool.setListener p (some engine.address) }.goTo (.sending attempt)

/-- The request is sent. -/
def sendRequest (s : System) (attempt : Attempt) (sending : Except HttpException Unit) : System :=
  match sending with
  | .error e => s.goTo (.catching attempt.networkRequest attempt.connectionReused e)
  | .ok () => s.goTo (.sent attempt)

/-- The check for a cancel after the connection is made. -/
def checkAfterConnect (s : System) (engine : HttpEngine) (attempt : Attempt) : System :=
  if engine.cancelled then
    s.goTo (.catching attempt.networkRequest attempt.connectionReused
      (.execution "Http request is cancelled."))
  else s.pass (.receiving attempt)

/-- A connection that is not kept alive is removed from the pool. -/
def removeClosed (s : System) (engine : HttpEngine) (keepAlive : Bool) : System :=
  match keepAlive, engine.connectionInternal with
  | false, some p => { s with pool := (s.pool.removeConnection p).2 }
  | _, _ => s

/-- The response is received. -/
def receiveResponse (s : System) (engine : HttpEngine) (attempt : Attempt)
    (network : Except HttpException NetworkAnswer) (keepAlive : Bool) : System :=
  match network with
  | .error e => s.goTo (.catching attempt.networkRequest attempt.connectionReused e)
  | .ok answer =>
    let s := removeClosed s engine keepAlive
    match HttpEngine.receiveResponse poco attempt.networkRequest attempt.uri answer with
    | .error e => s.goTo (.catching attempt.networkRequest attempt.connectionReused e)
    | .ok networkResponse => s.goTo (.received networkResponse)

/-- The section of the handlers; an exception of Poco has none. -/
def takeConnectionInternal (s : System) (engine : HttpEngine) (networkRequest : Request)
    (connectionReused : Bool) (e : HttpException) : System :=
  match e, engine.connectionInternal with
  | .poco message, _ => s.goTo (.thrown (.poco message))
  | e, none => s.goTo (.thrown e)
  | e, some p =>
    (s.setEngine { engine with connectionInternal := none }).goTo
      (.handling networkRequest connectionReused e p)

/-- The rest of the handlers; `reset` is the answer of the body of the request. -/
def handle (s : System) (engine : HttpEngine) (networkRequest : Request) (connectionReused : Bool)
    (e : HttpException) (p : ConnectionPtr) (reset : Except HttpException Bool) : System :=
  let s := { s with pool := (s.pool.removeConnection p).2 }
  match e with
  | .execution message =>
    if engine.cancelled || !connectionReused then s.goTo (.thrown (.execution message))
    else match (if networkRequest.body.isSome then reset else .ok true) with
      | .error e => s.goTo (.thrown e)
      | .ok false => s.goTo (.thrown (.connectionRetry
          "Request body does not support retry. please rebuild request body."))
      | .ok true =>
        { s with pool := s.pool.setListener p none }.pass (.starting networkRequest true)
  | e => s.goTo (.thrown e)

/-- The end of `execute` of the engine. -/
def createUserResponse (s : System) (engine : HttpEngine) (networkResponse : Response)
    (env : Surroundings) : System :=
  match HttpEngine.createUserResponse poco context.hasCache env engine.userRequest
      engine.cacheResponse networkResponse s.headers with
  | .error e => s.goTo (.thrown e)
  | .ok userResponse => s.answer userResponse

/-- The response is final, or another round is to come. -/
def checkRetry (s : System) (userResponse : Response) : System :=
  let (result, headers) := exec (HttpEngine.getRetryRequest poco userResponse) s.headers
  let s := { s with headers := headers }
  match result with
  | .error e => s.goTo (.thrown e)
  | .ok (some retryRequest) => s.goTo (.redirecting userResponse retryRequest)
  | .ok none => s.goTo (.publishing userResponse)

/-- `readAllResponseBodyForCache`, and the condition of the loop. -/
def redirect (s : System) (userResponse : Response) (retryRequest : Request)
    (readAll : Except HttpException Unit) : System :=
  match (if context.hasCache && userResponse.body.isSome then readAll else .ok ()) with
  | .error e => s.goTo (.thrown e)
  | .ok () =>
    let s := { s with
      retryCount := s.retryCount + 1
      streamClosed := s.streamClosed || context.hasCache && userResponse.body.isSome }
    if s.retryCount ≤ HttpRequestExecutor.MaxRetryCount then s.goTo (.creating retryRequest)
    else s.goTo (.thrown (.execution "too many retry request. 5 times."))

/-- The response is that of the executor from now on. -/
def publish (s : System) (userResponse : Response) : System :=
  { s with
    executor := { s.executor with userResponse := some userResponse }
    stage := .published }

/-- A section of `execute`, or a `cancel` between two of them. -/
inductive Action where
  /-- of another thread -/
  | cancel (connectionCancelled : Bool)
  /-- a stream gives its connection back -/
  | onIdle (p : ConnectionPtr)
  /-- other calls, streams that are closed and timers change the pool -/
  | others (pool : ConnectionPoolInternal)
  | createEngine (address : ListenerPtr)
  | checkCache (env : Surroundings)
  | start
  | findAndReuseConnection
  | createConnection (p : ConnectionPtr) (sslContext : Except HttpException Unit)
  | installConnection
  | sendRequest (sending : Except HttpException Unit)
  | checkAfterConnect
  | receiveResponse (network : Except HttpException NetworkAnswer) (keepAlive : Bool)
  | takeConnectionInternal
  | handle (reset : Except HttpException Bool)
  | createUserResponse (env : Surroundings)
  | checkRetry
  | redirect (readAll : Except HttpException Unit)
  | publish
  | finish

/-- One section; `none` when the thread is somewhere else. -/
def step (s : System) (action : Action) : Option System :=
  match action, s.stage, s.executor.httpEngine with
  | .cancel connectionCancelled, _, _ => some (cancel (record s) connectionCancelled).2
  | .onIdle p, _, some engine => some (s.setEngine (engine.onIdle p))
  | .others pool, _, _ => some { s with pool := pool }
  | .createEngine address, .creating currentRequest, _ =>
    some (createEngine s currentRequest address)
  | .checkCache env, .checkingCache, some engine =>
    some (checkCacheBeforeSendRequest poco context s engine env)
  | .start, .starting networkRequest forceToCreateConnection, some engine =>
    some (start poco context s engine networkRequest forceToCreateConnection)
  | .findAndReuseConnection, .finding attempt, _ =>
    some (findAndReuseConnection poco context s attempt)
  | .createConnection p sslContext, .connecting attempt, _ =>
    some (createConnection poco context s attempt p sslContext)
  | .installConnection, .installing attempt p, some engine =>
    some (installConnection s engine attempt p)
  | .sendRequest sending, .sending attempt, _ => some (sendRequest s attempt sending)
  | .checkAfterConnect, .sent attempt, some engine => some (checkAfterConnect s engine attempt)
  | .receiveResponse network keepAlive, .receiving attempt, some engine =>
    some (receiveResponse poco s engine attempt network keepAlive)
  | .takeConnectionInternal, .catching networkRequest connectionReused e, some engine =>
    some (takeConnectionInternal s engine networkRequest connectionReused e)
  | .handle reset, .handling networkRequest connectionReused e p, some engine =>
    some (handle s engine networkRequest connectionReused e p reset)
  | .createUserResponse env, .received networkResponse, some engine =>
    some (createUserResponse poco context s engine networkResponse env)
  | .checkRetry, .answered userResponse, _ => some (checkRetry poco s userResponse)
  | .redirect readAll, .redirecting userResponse retryRequest, _ =>
    some (redirect context s userResponse retryRequest readAll)
  | .publish, .publishing userResponse, _ => some (publish s userResponse)
  | .finish, .published, _ => some (s.goTo (.returned s.executor.userResponse))
  | _, _, _ => none

end

/-! ## What is to hold, and when it does -/

/-- `execute` is about to return a response with a body. -/
def System.returnsBody (s : System) : Bool :=
  match s.stage with
  | .published => (s.executor.userResponse.bind Response.body).isSome
  | _ => false

/-- The execution returns its response. -/
def Action.isFinish : Action → Bool
  | finish => true
  | _ => false

/-- When `execute` returns a response, and a `cancel` was over before the publication, the stream
of the response is closed. -/
def NotMissed (s : System) (action : Action) : Prop :=
  action.isFinish = true → s.returnsBody = true → s.cancelledBefore = true → s.streamClosed = true

/-- When `execute` returns a response, no `cancel` has come between the last check and the
publication, or another has come after it. -/
def CheckedLast (s : System) (action : Action) : Prop :=
  action.isFinish = true → s.returnsBody = true → s.cancelledUnchecked = true →
    s.cancelledAfter = true

instance (s : System) (action : Action) : Decidable (NotMissed s action) :=
  inferInstanceAs (Decidable (_ → _ → _ → _))

instance (s : System) (action : Action) : Decidable (CheckedLast s action) :=
  inferInstanceAs (Decidable (_ → _ → _ → _))

end EasyHttp.ExecutionCancel
