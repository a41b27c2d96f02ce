import EasyHttp.Connection.PoolClients

/-!
# Calls on one pool and their cancellation

A call is an `HttpEngine` with the thread that runs it; `HttpEngine::cancel` comes from another
thread. Each section under a mutex is one action, so that the sections of any number of calls
and cancels, and the timers of the pool, run in any order. `releaseConnection` holds the pool's
mutex while it asks the listener, so it is one action with `onIdle`.
-/

namespace EasyHttp.CallCancel

/-- The address of an engine, as a listener. -/
abbrev EngineId := ListenerPtr

/-- Where the thread of a call is. -/
inductive Stage where
  | start
  /-- The call was not cancelled, and the pool will be asked. -/
  | checked
  /-- A connection is in a local variable. -/
  | obtained (p : ConnectionPtr)
  /-- The engine is the connection's listener. -/
  | listening (p : ConnectionPtr)
  /-- The engine has the pointer; the request is sent, and the body is read from the stream. -/
  | sending (p : ConnectionPtr)
  /-- After an exception, the pointer was taken from the engine. -/
  | failing (p : ConnectionPtr)
  /-- The connection was removed from the pool. -/
  | failed (p : ConnectionPtr)
  | finished
deriving DecidableEq

/-- The connection that the thread will give back to the pool or remove from it. -/
def Stage.held : Stage → Option ConnectionPtr
  | obtained p | listening p | sending p | failing p => some p
  | _ => none

/-- Where a call of `cancel` is. -/
inductive Cancelling where
  | no
  /-- The pointer was copied from the engine. -/
  | read (p : ConnectionPtr)
  /-- `ConnectionInternal::cancel` was called. -/
  | applied (p : ConnectionPtr)
deriving DecidableEq

/-- An engine, its place in the code, and the cancel that runs at the same time. -/
structure HttpEngine where
  stage : Stage := .start
  connectionInternal : Option ConnectionPtr := none
  cancelled : Bool := false
  cancelling : Cancelling := .no

/-- `HttpEngine::onIdle`: whether the listener is invalidated, and the engine then. -/
def HttpEngine.onIdle (e : HttpEngine) (p : ConnectionPtr) : Bool × HttpEngine :=
  if e.connectionInternal = some p then (true, { e with connectionInternal := none })
  else (false, e)

/-- The engines and the pool they share. -/
structure System where
  pool : ConnectionPoolInternal
  engines : EngineId → HttpEngine
  created : List ConnectionPtr

/-- An empty pool and engines that have not begun. -/
def System.initial (keepAliveIdleCountMax : ℕ) (keepAliveTimeoutSec : Int64) : System where
  pool := ConnectionPoolInternal.create keepAliveIdleCountMax keepAliveTimeoutSec
  engines := fun _ => {}
  created := []

/-- What the threads do next. -/
inductive Action where
  /-- The check before the pool is asked. -/
  | checkCancelled (x : EngineId)
  | findAndReuseConnection (x : EngineId) (url : String) (context : EasyHttpContext)
  | createConnection (x : EngineId) (p : ConnectionPtr) (url : String)
    (context : EasyHttpContext) (sslContext : Except HttpException Unit)
  | setConnectionStatusListener (x : EngineId)
  | setConnectionInternal (x : EngineId)
  /-- The server closes the connection after its response. -/
  | connectionClose (x : EngineId)
  /-- An exception is caught: the pointer is taken from the engine. -/
  | takeConnectionInternal (x : EngineId)
  | removeTaken (x : EngineId)
  /-- The request will be sent again over a new connection. -/
  | retryByConnection (x : EngineId)
  | rethrow (x : EngineId)
  /-- The body's stream is closed after all of it was read. -/
  | closeRelease (x : EngineId) (now : Timestamp)
  /-- The body's stream is closed and the connection cannot be used again. -/
  | closeRemove (x : EngineId)
  /-- The destructor, while the stream may still be open. -/
  | destroy (x : EngineId)
  /-- `cancel`, up to the end of its section under the mutex. -/
  | cancel (x : EngineId)
  /-- `cancel` goes on with `ConnectionInternal::cancel`. -/
  | cancelConnection (x : EngineId)
  /-- `cancel` ends with `removeConnection`. -/
  | removeCancelled (x : EngineId)
  | onKeepAliveTimeoutExpired (task : TaskPtr)

/-- An engine replaced. -/
def System.setEngine (s : System) (x : EngineId) (e : HttpEngine) : System :=
  { s with engines := Function.update s.engines x e }

/-- An engine goes on. -/
def System.setStage (s : System) (x : EngineId) (stage : Stage) : System :=
  s.setEngine x { s.engines x with stage := stage }

/-- `releaseConnection` of the pool with the `onIdle` that it calls. -/
def System.releaseConnection (s : System) (p : ConnectionPtr) (now : Timestamp) : System :=
  match s.pool.connectionControls.find? p, (s.pool.connections p).connectionStatusListener with
  | some _, some y =>
    let (listenerInvalidated, e) := (s.engines y).onIdle p
    { s.setEngine y e with pool := (s.pool.releaseConnection p now listenerInvalidated).2 }
  | _, _ => { s with pool := (s.pool.releaseConnection p now false).2 }

/-- One action; `none` when it cannot be taken. -/
def step (poco : Poco) (s : System) : Action → Option System
  | .checkCancelled x =>
    match (s.engines x).stage with
    | .start => some (s.setStage x (if (s.engines x).cancelled then .finished else .checked))
    | _ => none
  | .findAndReuseConnection x url context =>
    match (s.engines x).stage, s.pool.findAndReuseConnection poco url context with
    | .checked, (some p, pool) => some { s.setStage x (.obtained p) with pool := pool }
    | .checked, (none, pool) => some { s with pool := pool }
    | _, _ => none
  | .createConnection x p url context sslContext =>
    if p ∈ s.created then none
    else match (s.engines x).stage, s.pool.createConnection poco p url context sslContext with
      | .checked, .ok pool =>
        some { s.setStage x (.obtained p) with pool := pool, created := p :: s.created }
      | _, _ => none
  | .setConnectionStatusListener x =>
    match (s.engines x).stage with
    | .obtained p =>
      some { s.setStage x (.listening p) with pool := s.pool.setListener p (some x) }
    | _ => none
  | .setConnectionInternal x =>
    match (s.engines x).stage with
    | .listening p =>
      some (s.setEngine x
        { s.engines x with stage := .sending p, connectionInternal := some p })
    | _ => none
  | .connectionClose x =>
    match (s.engines x).stage, (s.engines x).connectionInternal with
    | .sending _, some p => some { s with pool := (s.pool.removeConnection p).2 }
    | _, _ => none
  | .takeConnectionInternal x =>
    match (s.engines x).stage, (s.engines x).connectionInternal with
    | .checked, none => some (s.setStage x .finished)
    | .sending _, some p =>
      some (s.setEngine x
        { s.engines x with stage := .failing p, connectionInternal := none })
    | _, _ => none
  | .removeTaken x =>
    match (s.engines x).stage with
    | .failing p => some { s.setStage x (.failed p) with pool := (s.pool.removeConnection p).2 }
    | _ => none
  | .retryByConnection x =>
    match (s.engines x).stage, (s.engines x).cancelled with
    | .failed p, false => some { s.setStage x .start with pool := s.pool.setListener p none }
    | _, _ => none
  | .rethrow x =>
    match (s.engines x).stage with
    | .failed _ => some (s.setStage x .finished)
    | _ => none
  | .closeRelease x now =>
    match (s.engines x).stage with
    | .sending p => some ((s.releaseConnection p now).setStage x .finished)
    | _ => none
  | .closeRemove x =>
    match (s.engines x).stage with
    | .sending p => some { s.setStage x .finished with pool := (s.pool.removeConnection p).2 }
    | _ => none
  | .destroy x =>
    match (s.engines x).connectionInternal, (s.engines x).cancelling with
    | some p, .no =>
      some { s.setEngine x { s.engines x with connectionInternal := none } with
        pool := s.pool.setListener p none }
    | _, _ => none
  | .cancel x =>
    if (s.engines x).cancelled then some s
    else some (s.setEngine x { s.engines x with
      cancelled := true
      cancelling := match (s.engines x).connectionInternal with
        | some p => .read p
        | none => .no })
  | .cancelConnection x =>
    match (s.engines x).cancelling with
    | .read p =>
      some { s.setEngine x { s.engines x with cancelling := .applied p } with
        pool := s.pool.setConnection p (s.pool.connections p).cancel }
    | _ => none
  | .removeCancelled x =>
    match (s.engines x).cancelling with
    | .applied p =>
      some { s.setEngine x { s.engines x with cancelling := .no } with
        pool := (s.pool.removeConnection p).2 }
    | _ => none
  | .onKeepAliveTimeoutExpired task =>
    some { s with pool := s.pool.onKeepAliveTimeoutExpired task }

/-! ## What should hold, and when it does -/

/-- `ConnectionInternal::cancel` is not applied to what another call holds, and the pool hands
out no connection to which it was applied. -/
def CancelIsolated (poco : Poco) (s : System) : Action → Prop
  | .cancelConnection x => ∀ p, (s.engines x).cancelling = .read p →
    ∀ y ≠ x, (s.engines y).stage.held ≠ some p
  | .findAndReuseConnection _ url context => ∀ p,
    (s.pool.findAndReuseConnection poco url context).1 = some p →
      (s.pool.connections p).cancelled = false
  | _ => True

/-- A connection that the pool has is not released while `cancel` has copied its pointer and
not yet used it. -/
def NotReleasedInCancel (s : System) : Action → Prop
  | .closeRelease x _ => match (s.engines x).stage with
    | .sending p =>
      s.pool.connectionControls.find? p = none ∨ (s.engines x).cancelling ≠ .read p
    | _ => True
  | _ => True

instance (s : System) (a : Action) : Decidable (NotReleasedInCancel s a) := by
  unfold NotReleasedInCancel
  split
  · split <;> infer_instance
  · infer_instance

end EasyHttp.CallCancel
