import EasyHttp.Connection.ConnectionInternal
import EasyHttp.Library.SortedMap
import EasyHttp.Library.Store

/-!
# `ConnectionPoolInternal`

The pool maps its connections to their keep-alive timers. Each method that locks the pool's
mutex is one function on `ConnectionPoolInternal`, together with the connections and the timer
tasks that it reaches through pointers. `getConnection` takes no lock of its own: it calls
`findAndReuseConnection` and, if that finds nothing, `createConnection`.
-/

namespace EasyHttp

/-- Connections are compared by their addresses. -/
abbrev ConnectionPtr := ℕ

/-- Timer tasks are compared by their addresses. -/
abbrev TaskPtr := ℕ

/-- A timer task; `cancelled` is the flag of `Poco::Util::TimerTask`. -/
structure KeepAliveTimeoutTask where
  keepAliveTimeoutExpirationTime : Timestamp
  cancelled : Bool

instance : Inhabited KeepAliveTimeoutTask := ⟨⟨⟨0⟩, false⟩⟩

/-- `Poco::Timestamp::TIMEVAL_MAX`. -/
def timevalMax : Timestamp := ⟨Int64.maxValue⟩

/-- The pool, with the connections and the timer tasks by address. A connection without a
timer has `none`. -/
structure ConnectionPoolInternal where
  keepAliveIdleCountMax : ℕ
  keepAliveTimeoutSec : Int64
  connectionControls : SortedMap ConnectionPtr (Option TaskPtr)
  connections : ConnectionPtr → ConnectionInternal
  tasks : Store KeepAliveTimeoutTask

namespace ConnectionPoolInternal

/-- A pool without connections. -/
def create (keepAliveIdleCountMax : ℕ) (keepAliveTimeoutSec : Int64) : ConnectionPoolInternal where
  keepAliveIdleCountMax := keepAliveIdleCountMax
  keepAliveTimeoutSec := keepAliveTimeoutSec
  connectionControls := SortedMap.empty
  connections := fun _ => default
  tasks := ⟨[]⟩

/-- A connection replaced. -/
def setConnection (pool : ConnectionPoolInternal) (p : ConnectionPtr) (c : ConnectionInternal) :
    ConnectionPoolInternal :=
  { pool with connections := Function.update pool.connections p c }

/-- `KeepAliveTimeoutTask::cancel`. -/
def cancelTask (pool : ConnectionPoolInternal) (task : TaskPtr) : ConnectionPoolInternal :=
  { pool with tasks := pool.tasks.write task { pool.tasks.deref task with cancelled := true } }

/-- How many connections wait. -/
def getKeepAliveIdleConnectionCount (pool : ConnectionPoolInternal) : ℕ :=
  pool.connectionControls.entries.countP fun itr =>
    (pool.connections itr.1).connectionStatus = .idle

/-! ## Handing out connections -/

/-- The first connection that leads to the place; its timer is cancelled. -/
def findAndReuseConnection (poco : Poco) (pool : ConnectionPoolInternal) (url : String)
    (context : EasyHttpContext) : Option ConnectionPtr × ConnectionPoolInternal :=
  match pool.connectionControls.entries.find? fun itr =>
      ((pool.connections itr.1).setInuseIfReusable poco url context).1 with
  | none => (none, pool)
  | some (p, task) =>
    let pool := pool.setConnection p ((pool.connections p).setInuseIfReusable poco url context).2
    let pool := match task with
      | some task => pool.cancelTask task
      | none => pool
    (some p, { pool with connectionControls := pool.connectionControls.set p none })

/-- What Poco throws while the session is made is wrapped. -/
def sessionError (uri : Uri) : HttpException → HttpException
  | .poco message =>
    .execution ("sendRequest initialization failed. [scheme=" ++ uri.scheme ++ ", host="
      ++ uri.host ++ "] message=[" ++ message ++ "]")
  | e => e

/-- The session of a connection; `sslContext` is the outcome of making a TLS context. -/
def createSession (poco : Poco) (url : String) (sslContext : Except HttpException Unit) :
    Except HttpException Unit :=
  match poco.uri url with
  | .error message => .error (sessionError ⟨"", "", 0, ""⟩ (.poco message))
  | .ok uri =>
    if icompare uri.scheme HttpConstants.Schemes.Https then
      sslContext.mapError (sessionError uri)
    else if icompare uri.scheme HttpConstants.Schemes.Http then .ok ()
    else .error (.illegalArgument ("scheme is not supported. [" ++ uri.scheme ++ "]"))

/-- `p` is the address of the new connection. -/
def createConnection (poco : Poco) (pool : ConnectionPoolInternal) (p : ConnectionPtr)
    (url : String) (context : EasyHttpContext) (sslContext : Except HttpException Unit) :
    Except HttpException ConnectionPoolInternal := do
  createSession poco url sslContext
  let c ← ConnectionInternal.create poco url context
  let pool := pool.setConnection p c
  return { pool with connectionControls := pool.connectionControls.set p none }

/-! ## Taking connections back -/

/-- The answer is whether the connection was in the pool. -/
def removeConnection (pool : ConnectionPoolInternal) (p : ConnectionPtr) :
    Bool × ConnectionPoolInternal :=
  match pool.connectionControls.find? p with
  | none => (false, pool)
  | some _ => (true, { pool with connectionControls := pool.connectionControls.erase p })

/-- The local variables of the loop in `updateConnections`. -/
structure IdleScan where
  idleCount : ℕ := 0
  earliestExpirationTime : Timestamp := timevalMax
  earliestTimeout : Option (ConnectionPtr × TaskPtr) := none

/-- The body of the loop in `updateConnections`. -/
def scanConnection (pool : ConnectionPoolInternal) (scan : IdleScan)
    (itr : ConnectionPtr × Option TaskPtr) : Except HttpException IdleScan :=
  if (pool.connections itr.1).connectionStatus = .idle then
    match itr.2 with
    -- the task is dereferenced without a check
    | none => .error (.poco "Null pointer")
    | some task =>
      let expirationTime := (pool.tasks.deref task).keepAliveTimeoutExpirationTime
      if expirationTime.microseconds < scan.earliestExpirationTime.microseconds then .ok {
        idleCount := scan.idleCount + 1
        earliestExpirationTime := expirationTime
        earliestTimeout := some (itr.1, task) }
      else .ok { scan with idleCount := scan.idleCount + 1 }
  else .ok scan

/-- While too many wait, the one whose timer ends first is removed. -/
def updateConnections (pool : ConnectionPoolInternal) :
    Except HttpException Unit × ConnectionPoolInternal :=
  match pool.connectionControls.entries.foldlM pool.scanConnection {} with
  | .error e => (.error e, pool)
  | .ok scan =>
    if scan.idleCount ≤ pool.keepAliveIdleCountMax then (.ok (), pool)
    else match scan.earliestTimeout with
      | none => (.error (.poco "Null pointer"), pool)
      | some (p, task) => (.ok (), ((pool.cancelTask task).removeConnection p).2)

/-- A timer is set for a connection that was released. -/
def startKeepAliveTimeout (pool : ConnectionPoolInternal) (p : ConnectionPtr) (now : Timestamp) :
    ConnectionPoolInternal :=
  let expirationTime : Timestamp := ⟨now.microseconds + pool.keepAliveTimeoutSec * 1000000⟩
  { pool with
    connectionControls := pool.connectionControls.set p (some pool.tasks.next)
    tasks := pool.tasks.alloc ⟨expirationTime, false⟩ }

/-- `now` is the time of the call, and `listenerInvalidated` the answer of the connection's
listener, if it has one. -/
def releaseConnection (pool : ConnectionPoolInternal) (p : ConnectionPtr) (now : Timestamp)
    (listenerInvalidated : Bool) : Except HttpException Bool × ConnectionPoolInternal :=
  match pool.connectionControls.find? p with
  | none => (.ok false, pool)
  | some _ =>
    let (released, c) := (pool.connections p).onConnectionReleased listenerInvalidated
    let pool := pool.setConnection p c
    if !released then (.ok false, pool)
    else if c.cancelled then (.ok false, (pool.removeConnection p).2)
    else
      let (updated, pool) := (pool.startKeepAliveTimeout p now).updateConnections
      (updated.map fun _ => true, pool)

/-- The connection of the timer is removed, if it still has it. -/
def onKeepAliveTimeoutExpired (pool : ConnectionPoolInternal) (task : TaskPtr) :
    ConnectionPoolInternal :=
  match pool.connectionControls.entries.find? fun itr => itr.2 = some task with
  | none => pool
  | some itr => { pool with connectionControls := pool.connectionControls.erase itr.1 }

end ConnectionPoolInternal

end EasyHttp
