import EasyHttp.Body.ResponseBodyStreamWithoutCaching
import EasyHttp.Engine.CallCancel
import EasyHttp.Engine.HttpEngine
import EasyHttp.Library.ExecPost

/-!
# The retry over a new connection

`sendRequestAndReceiveResponseWithRetryByConnection` with the functions that it calls: attempts to
send a request and to receive its response, and the two handlers that clean up after a failed one.
When an exception passes a response, its body closes the stream, and this may release the
connection before a handler runs.

* `Other`, `pause`: other threads run between the sections of this call: its `cancel`, the timers
  of the pool and other calls on the pool;
* `Attempt`: what is recorded of an attempt;
* `AttemptEnv`: what an attempt meets, all outcomes of the session and the body included.
-/

namespace EasyHttp.ConnectionRetry

open Exec

/-- What is thrown: an `HttpException`, an exception of Poco by its class, or anything else. -/
inductive Thrown where
  | http (e : HttpException)
  | pocoTimeout (message : String)
  | pocoSsl (message : String)
  | poco (message : String)
  | other
deriving DecidableEq

/-! ## The state -/

/-- What is recorded of one attempt. -/
structure Attempt where
  forceToCreateConnection : Bool
  /-- How often the body of the request had been reset before. -/
  resets : ℕ
  connection : Option ConnectionPtr := none
  /-- The connection was found in the pool. -/
  reused : Bool := false
  /-- The stream released the connection; whether it was at its end then. -/
  releasedAtEof : Option Bool := none
  error : Option Thrown := none

/-- An attempt that begins. -/
def Attempt.start (forceToCreateConnection : Bool) (resets : ℕ) : Attempt where
  forceToCreateConnection := forceToCreateConnection
  resets := resets

/-- The engine, the pool that it uses, a call of `cancel` on the engine, and what is recorded of the
attempts, the last one first. -/
structure World where
  pool : ConnectionPoolInternal
  connectionInternal : Option ConnectionPtr
  cancelled : Bool
  connectionRetried : Bool
  /-- A variable of the loop, passed to the attempts by reference. -/
  connectionReused : Bool := false
  cancelling : CallCancel.Cancelling
  resets : ℕ := 0
  attempts : List Attempt := []

namespace World

/-- Something comes to the record of the last attempt. -/
def record (w : World) (f : Attempt → Attempt) : World :=
  { w with attempts := w.attempts.modifyHead f }

/-- The connections of the attempts. -/
def connections (w : World) : List ConnectionPtr := w.attempts.filterMap Attempt.connection

/-- The connections that the pool or this call knows. -/
def known (w : World) : List ConnectionPtr :=
  w.pool.connectionControls.entries.map Prod.fst ++ w.connectionInternal.toList ++ w.connections

/-- The address of a new connection. -/
def fresh (w : World) : ConnectionPtr := w.known.foldr max 0 + 1

/-- The last attempt has this connection and has not released it. -/
def holds (w : World) (p : ConnectionPtr) : Bool :=
  match w.attempts with
  | [] => false
  | a :: _ => a.connection = some p && a.releasedAtEof.isNone

/-- The connection is taken out of the pool. -/
def removeConnection (w : World) (p : ConnectionPtr) : World :=
  { w with pool := (w.pool.removeConnection p).2 }

/-- The connection of the engine is removed from the pool. -/
def removeInternal (w : World) : World :=
  match w.connectionInternal with
  | some p => w.removeConnection p
  | none => w

/-- `releaseConnection` of the pool with the `onIdle` that it calls. `self` is this engine, and
`listenerInvalidated` the answer of any other listener. -/
def releaseConnection (self : ListenerPtr) (w : World) (p : ConnectionPtr) (now : Timestamp)
    (listenerInvalidated : Bool) : World :=
  if (w.pool.connectionControls.find? p).isSome
      && (w.pool.connections p).connectionStatusListener = some self then
    if w.connectionInternal = some p then
      { w with pool := (w.pool.releaseConnection p now true).2, connectionInternal := none }
    else { w with pool := (w.pool.releaseConnection p now false).2 }
  else { w with pool := (w.pool.releaseConnection p now listenerInvalidated).2 }

end World

/-! ## Other threads -/

/-- A section of another thread. -/
inductive Other where
  /-- `cancel` of this engine, up to the end of its section under the mutex. -/
  | cancel
  | cancelConnection
  | removeCancelled
  /-- `ConnectionInternal::cancel`, from another engine. -/
  | cancelOther (p : ConnectionPtr)
  | findAndReuseConnection (url : String) (context : EasyHttpContext)
  | createConnection (p : ConnectionPtr) (url : String) (context : EasyHttpContext)
    (sslContext : Except HttpException Unit)
  | setConnectionStatusListener (p : ConnectionPtr) (listener : Option ListenerPtr)
  | removeConnection (p : ConnectionPtr)
  | releaseConnection (p : ConnectionPtr) (now : Timestamp) (listenerInvalidated : Bool)
  | onKeepAliveTimeoutExpired (task : TaskPtr)

/-- What another thread does meanwhile. -/
def World.other (poco : Poco) (self : ListenerPtr) (w : World) : Other → World
  | .cancel =>
    if w.cancelled then w
    else { w with
      cancelled := true
      cancelling := match w.connectionInternal with
        | some p => .read p
        | none => .no }
  | .cancelConnection =>
    match w.cancelling with
    | .read p => { w with
        pool := w.pool.setConnection p (w.pool.connections p).cancel
        cancelling := .applied p }
    | _ => w
  | .removeCancelled =>
    match w.cancelling with
    | .applied p => { w.removeConnection p with cancelling := .no }
    | _ => w
  | .cancelOther p => { w with pool := w.pool.setConnection p (w.pool.connections p).cancel }
  | .findAndReuseConnection url context =>
    { w with pool := (w.pool.findAndReuseConnection poco url context).2 }
  | .createConnection p url context sslContext =>
    -- the address of a new connection is not one in use
    if p ∈ w.known then w
    else match w.pool.createConnection poco p url context sslContext with
      | .ok pool => { w with pool := pool }
      | .error _ => w
  | .setConnectionStatusListener p listener => { w with pool := w.pool.setListener p listener }
  | .removeConnection p => w.removeConnection p
  | .releaseConnection p now listenerInvalidated =>
    -- a connection is released by the stream that has it
    if w.holds p then w else w.releaseConnection self p now listenerInvalidated
  | .onKeepAliveTimeoutExpired task => { w with pool := w.pool.onKeepAliveTimeoutExpired task }

/-- Where other threads may come in between. -/
inductive Window where
  | start
  | beforeConnection
  | beforeCreate
  | obtained
  | listening
  | sending
  | sent
  | receiving
  | received
  | closing
  | caught
  | taken
  | removed
  | resetting
  | reset
deriving DecidableEq

/-! ## What is met -/

/-- A response that Poco has read; `contentLength` fails if that header is no number. -/
structure ReceivedResponse where
  answer : NetworkAnswer
  keepAlive : Bool
  contentLength : Except Thrown Unit
  content : IStream

/-- What an attempt meets: other threads, the network and the body of the request. -/
structure AttemptEnv where
  others : Window → List Other
  /-- Making a TLS context. -/
  sslContext : Except HttpException Unit
  /-- Sending the request with its headers. -/
  sendRequest : Except Thrown Unit
  /-- `writeTo` of the request's body. -/
  writeTo : Except Thrown Unit
  receiveResponse : Except Thrown ReceivedResponse
  /-- `close` of the stream, when an exception passes the response. -/
  receiveTimeout : Int64
  skipAll : ResponseBodyStreamInternal.SkipAll Sgetn
  now : Timestamp
  listenerInvalidated : Bool
  /-- `reset` of the request's body. -/
  reset : Except Thrown Bool

/-- What the attempts of a call have in common. -/
structure Call where
  networkRequest : Request
  context : EasyHttpContext
  /-- The context has a connection pool. -/
  hasConnectionPool : Bool

/-! ## One attempt -/

section
variable (poco : Poco) (self : ListenerPtr) (call : Call) (env : AttemptEnv)

/-- Between two critical sections the other threads act. -/
def pause (window : Window) : Exec Thrown World Unit :=
  modifyState fun w => (env.others window).foldl (World.other poco self) w

/-- The check of `m_cancelled` under the mutex. -/
def checkCancelled : Exec Thrown World Unit := do
  let w ← getState
  if w.cancelled then
    throw (.http (.execution "Http request is cancelled."))

/-- A temporary pool if the context has none. -/
def chooseConnectionPool : Exec Thrown World Unit :=
  modifyState fun w =>
    if call.hasConnectionPool then w else { w with pool := ConnectionPoolInternal.create 10 60 }

/-- The pool makes a connection, and the attempt is recorded with it. -/
def createConnection : Exec Thrown World ConnectionPtr := do
  let w ← getState
  match w.pool.createConnection poco w.fresh call.networkRequest.url call.context
      env.sslContext with
  | .error e => throw (.http e)
  | .ok pool =>
    modifyState fun w' => { w' with pool := pool }.record
      fun a => { a with connection := some w.fresh, reused := false }
    return w.fresh

/-- A connection of the pool is reused; where there is none one is made. -/
def getConnection : Exec Thrown World ConnectionPtr := do
  let w ← getState
  match w.pool.findAndReuseConnection poco call.networkRequest.url call.context with
  | (some p, pool) =>
    modifyState fun w => { w with pool := pool, connectionReused := true }.record
      fun a => { a with connection := some p, reused := true }
    return p
  | (none, _) =>
    modifyState fun w => { w with connectionReused := false }
    pause poco self env .beforeCreate
    createConnection poco call env

/-- The handlers for the exceptions of Poco. -/
def catchPoco (timedOut location : String) (uri : Uri) : Thrown → Thrown
  | .pocoTimeout message => .http (.timeout (timedOut ++ describe message))
  | .pocoSsl message => .http (.ssl ("SSL error occurred in " ++ location ++ describe message))
  | .poco message => .http (.execution ("IO error occurred in " ++ location ++ describe message))
  | e => e
where
  describe (message : String) : String :=
    ". [scheme=" ++ uri.scheme ++ ", host=" ++ uri.host ++ "] message=[" ++ message ++ "]"

/-- The request with its body is sent. -/
def sendRequest (uri : Uri) : Exec Thrown World Unit :=
  Exec.tryCatch (do
    pause poco self env .sending
    lift env.sendRequest
    if call.networkRequest.body.isSome then
      lift env.writeTo)
    fun e => throw (catchPoco "Sending request timed out" "sendRequest" uri e)

/-- `close` of a stream, called by the destructor of the body. -/
def closeStream (s : ResponseBodyStreamWithoutCaching) : Exec Thrown World Unit := do
  pause poco self env .closing
  match s.close env.receiveTimeout env.skipAll with
  | (some (.releaseConnection p), closed, _) =>
    modifyState fun w => (w.releaseConnection self p env.now env.listenerInvalidated).record
      fun a => if a.connection = some p then
        { a with releasedAtEof := some closed.base.content.eofbit } else a
  | (some (.removeConnection p), _, _) => modifyState fun w => w.removeConnection p
  | (none, _, _) => return ()

/-- The part of `receiveResponse` in which the response has a body. -/
def createResponse (uri : Uri) (received : ReceivedResponse)
    (s : ResponseBodyStreamWithoutCaching) :
    Exec Thrown World (Response × ResponseBodyStreamWithoutCaching) :=
  match HttpEngine.receiveResponse poco call.networkRequest uri received.answer with
  | .ok response => return (response, s)
  | .error e => do
    closeStream poco self env s
    throw (.http e)

/-- The response is received, with its stream. -/
def receiveResponse (uri : Uri) : Exec Thrown World (Response × ResponseBodyStreamWithoutCaching) :=
  Exec.tryCatch (do
    pause poco self env .receiving
    let received ← lift env.receiveResponse
    pause poco self env .received
    if !received.keepAlive then
      modifyState World.removeInternal
    let w ← getState
    let s := ResponseBodyStreamWithoutCaching.construct received.content w.connectionInternal
    -- until the body is made, the stream is not closed by an exception
    lift received.contentLength
    createResponse poco self call env uri received s)
    fun e => throw (catchPoco "Receiving response timed out" "receiveResponse" uri e)

/-- The connection of an attempt. -/
def obtainConnection (forceToCreateConnection : Bool) : Exec Thrown World ConnectionPtr :=
  if forceToCreateConnection then createConnection poco call env
  else getConnection poco self call env

/-- The connection becomes that of the engine. -/
def installConnection (p : ConnectionPtr) : Exec Thrown World Unit := do
  pause poco self env .obtained
  modifyState fun w => { w with pool := w.pool.setListener p (some self) }
  pause poco self env .listening
  modifyState fun w => { w with connectionInternal := some p }

/-- One attempt. -/
def sendRequestAndReceiveResponse (forceToCreateConnection : Bool) :
    Exec Thrown World (Response × ResponseBodyStreamWithoutCaching) := do
  modifyState fun w => { w with connectionReused := false }
  pause poco self env .start
  checkCancelled
  chooseConnectionPool call
  match poco.uri call.networkRequest.url with
  | .error message =>
    throw (.http (.execution ("Url is not valid. [" ++ call.networkRequest.url ++ "] message=["
      ++ message ++ "]")))
  | .ok uri =>
    pause poco self env .beforeConnection
    let p ← obtainConnection poco self call env forceToCreateConnection
    installConnection poco self env p
    sendRequest poco self call env uri
    pause poco self env .sent
    checkCancelled
    receiveResponse poco self call env uri

/-! ## The loop -/

/-- The pointer is taken from the engine. -/
def takeConnectionInternal : Exec Thrown World (Option ConnectionPtr) := do
  pause poco self env .caught
  let w ← getState
  modifyState fun w => { w with connectionInternal := none }
  return w.connectionInternal

/-- The body of the request is made ready to be sent again. -/
def resetBody : Exec Thrown World Unit := do
  if call.networkRequest.body.isSome then
    let successful ← lift env.reset
    if !successful then
      throw (.http (.connectionRetry
        "Request body does not support retry. please rebuild request body."))
    modifyState fun w => { w with resets := w.resets + 1 }

/-- `catch (const HttpExecutionException& e)`; it ends if there will be a retry. -/
def catchExecution (e : Thrown) : Exec Thrown World Unit := do
  match ← takeConnectionInternal poco self env with
  | none => throw e
  | some p =>
    pause poco self env .taken
    modifyState fun w => w.removeConnection p
    pause poco self env .removed
    let w ← getState
    if w.cancelled then
      throw e
    if !w.connectionReused then
      throw e
    pause poco self env .resetting
    resetBody call env
    pause poco self env .reset
    modifyState fun w =>
      { w with pool := w.pool.setListener p none, connectionRetried := true }

/-- `catch (const HttpException& e)` -/
def catchHttp (e : Thrown) : Exec Thrown World Unit := do
  match ← takeConnectionInternal poco self env with
  | none => throw e
  | some p =>
    pause poco self env .taken
    modifyState fun w => w.removeConnection p
    throw e

/-- The handlers in their order. -/
def handle : Thrown → Exec Thrown World Unit
  | .http (.execution message) => catchExecution poco self call env (.http (.execution message))
  | .http e => catchHttp poco self env (.http e)
  | e => throw e

/-- One round of the loop; `none` if there is another one. -/
def round (forceToCreateConnection : Bool) :
    Exec Thrown World (Option (Response × ResponseBodyStreamWithoutCaching)) := do
  modifyState fun w =>
    { w with attempts := .start forceToCreateConnection w.resets :: w.attempts }
  Exec.tryCatch (do
    let response ← sendRequestAndReceiveResponse poco self call env forceToCreateConnection
    return some response)
    fun e => do
      modifyState fun w => w.record fun a => { a with error := some e }
      handle poco self call env e
      return none

end

section
variable (poco : Poco) (self : ListenerPtr) (call : Call) (env : ℕ → AttemptEnv)

/-- The loop in at most so many rounds; `none` if it has not ended. -/
def retryLoop : ℕ → ℕ → Bool →
    Exec Thrown World (Option (Response × ResponseBodyStreamWithoutCaching))
  | 0, _, _ => return none
  | rounds + 1, k, forceToCreateConnection => do
    match ← round poco self call (env k) forceToCreateConnection with
    | some response => return some response
    | none => retryLoop rounds (k + 1) true

/-- The loop over the attempts. -/
def sendRequestAndReceiveResponseWithRetryByConnection (rounds : ℕ) :
    Exec Thrown World (Option (Response × ResponseBodyStreamWithoutCaching)) :=
  retryLoop poco self call env rounds 0 false

end

end EasyHttp.ConnectionRetry
