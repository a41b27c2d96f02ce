import EasyHttp.Engine.ExecutionBound
import EasyHttp.Engine.GracefulShutdown

/-!
# A client and its calls

`EasyHttpInternal` makes calls and has a task manager for the asynchronous ones. Each `CallInternal`
makes a request executor once. Any number of threads execute and cancel the calls and invalidate the
client; the manager, its pool and each executor take their own sections among these, without
interceptors. A section under the mutex of the client, or of a call, is one action.

* `CallInternal`: `execute`, `executeAsync`, `cancel`, `isCancelled`, `isExecuted`;
* `System`: the client, its manager and its calls, each with its executor;
* `step`: one action;
* `manager_of_step`, `call_of_step`: what an action does to the manager, and to one call.
-/

namespace EasyHttp.EasyHttpInternal

open AsyncTasks (ExecuteResult Thrown)
open HttpExecutionTaskManager (Caller TaskPoint)

/-- The address of a call; the task of an asynchronous one is known by it. -/
abbrev CallPtr := HttpExecutionTaskManager.TaskPtr

/-! ## One call -/

/-- `m_pRequestExecutor` is kept with the thread that is in it. -/
structure CallInternal where
  userRequest : Request
  executed : Bool := false
  cancelled : Bool := false
  requestExecutor : Option ExecutionCancel.System := none
  /-- recorded: it was `executeAsync` that has made the executor -/
  isAsync : Bool := false

/-- `HttpRequestExecutor::cancel`, and what is recorded of it. -/
def cancelExecutor (executor : ExecutionCancel.System) (connectionCancelled : Bool) :
    Bool × ExecutionCancel.System :=
  ExecutionCancel.cancel (ExecutionCancel.record executor) connectionCancelled

namespace CallInternal

/-- A new executor, which is cancelled if the call is; there is no connection to cancel yet. -/
def newRequestExecutor (call : CallInternal) (pool : ConnectionPoolInternal)
    (headers : HeaderStore) : ExecutionCancel.System :=
  let executor := ExecutionCancel.System.init call.userRequest pool headers
  if call.cancelled then (cancelExecutor executor true).2 else executor

/-- The first section of `execute`; the executor finds this pool and these headers. -/
def execute (call : CallInternal) (pool : ConnectionPoolInternal) (headers : HeaderStore) :
    Except HttpException CallInternal :=
  if call.executed then .error (.illegalState "Can not execute because already executed.")
  else .ok { call with
    executed := true, requestExecutor := some (call.newRequestExecutor pool headers) }

/-- The first section of `executeAsync`. -/
def executeAsync (call : CallInternal) (hasCallback : Bool) (pool : ConnectionPoolInternal)
    (headers : HeaderStore) : Except HttpException CallInternal :=
  if call.executed then .error (.illegalState "Can not execute because already executed.")
  else if !hasCallback then .error (.illegalArgument "ResponseCallback can not be NULL.")
  else .ok { call with
    executed := true, requestExecutor := some (call.newRequestExecutor pool headers),
    isAsync := true }

/-- The answer of `isExecuted`. -/
def isExecuted (call : CallInternal) : Bool := call.executed

/-- The executor is cancelled, where there is one. -/
def cancel (call : CallInternal) (connectionCancelled : Bool) : Bool × CallInternal :=
  match call.requestExecutor with
  | some executor =>
    let (ret, executor) := cancelExecutor executor connectionCancelled
    (ret, { call with cancelled := true, requestExecutor := some executor })
  | none => (true, { call with cancelled := true })

/-- The answer of `isCancelled`. -/
def isCancelled (call : CallInternal) : Bool :=
  match call.requestExecutor with
  | some executor => executor.executor.cancelled
  | none => call.cancelled

end CallInternal

/-! ## How `execute` of an executor ends -/

/-- An exception as the catch clauses of the task see it. -/
def thrownOf : HttpException → Thrown
  | .poco message => .std message
  | .illegalArgument message => .http (.illegalArgument message) (by simp)
  | .illegalState message => .http (.illegalState message) (by simp)
  | .execution message => .http (.execution message) (by simp)
  | .timeout message => .http (.timeout message) (by simp)
  | .ssl message => .http (.ssl message) (by simp)
  | .connectionRetry message => .http (.connectionRetry message) (by simp)

/-- What the thread has returned or thrown. -/
def resultOf : ExecutionCancel.Stage → Option ExecuteResult
  | .returned response => some (.ok response)
  | .thrown e => some (.error (thrownOf e))
  | _ => none

/-! ## The client -/

/-- What is the same for all calls of a client. -/
structure Config where
  poco : Poco
  context : ExecutionCancel.Context
  asyncThreadPool : QueuedThreadPool.Config

/-- A client with its manager, its pool and its calls. -/
structure System where
  invalidated : Bool := false
  httpExecutionTaskManager : HttpExecutionTaskManager.System
  calls : CallPtr → Option CallInternal := fun _ => none
  /-- What `newCall` has returned or thrown, in order. -/
  newCalls : List (Except HttpException CallPtr) := []
  /-- What the first sections of `execute` and `executeAsync` have come to, in order. -/
  entries : List (CallPtr × Except HttpException Unit) := []

/-- A new client without calls. -/
def initial (config : Config) : System :=
  { httpExecutionTaskManager := HttpExecutionTaskManager.initial config.asyncThreadPool }

/-- The thread of the task is in `execute` of the executor. -/
def inExecute : TaskPoint → Bool
  | .execute => true
  | _ => false

namespace System

/-- A call goes on. -/
def setCall (s : System) (p : CallPtr) (call : CallInternal) : System :=
  { s with calls := Function.update s.calls p (some call) }

/-- The manager goes on. -/
def setManager (s : System) (manager : HttpExecutionTaskManager.System) : System :=
  { s with httpExecutionTaskManager := manager }

/-- A request makes a call, if there is one. -/
def newCall (s : System) (request : Option Request) : Except HttpException CallInternal :=
  if s.invalidated then
    .error (.illegalState "Need to instantiate EasyHttp object again before calling newCall.")
  else match request with
    | none => .error (.illegalArgument "newCall require Request.")
    | some request => .ok { userRequest := request }

/-- The thread that executes a call can take a section: the caller of `execute`, or the thread of
the task. -/
def runs (s : System) (p : CallPtr) (call : CallInternal) : Bool :=
  !call.isAsync ||
    inExecute (s.httpExecutionTaskManager.tasks p) && (s.httpExecutionTaskManager.pending p).isNone

/-- `execute` or `executeAsync` has left its first section. -/
def enter (s : System) (p : CallPtr) (result : Except HttpException Unit) : System :=
  { s with entries := s.entries ++ [(p, result)] }

/-- The task at which a `gracefulShutdown` is in its loop of `cancel`. -/
def nextToCancel (s : System) (k : ℕ) : Option CallPtr :=
  match s.httpExecutionTaskManager.shutdowns k with
  | .cancelling _ _ (task :: _) => some task
  | _ => none

/-- `HttpAsyncExecutionTask::cancel`, which does not go through the call. -/
def cancelTask (s : System) (p : CallPtr) (connectionCancelled : Bool) : System :=
  match s.calls p with
  | some call =>
    match call.requestExecutor with
    | some executor => s.setCall p { call with
        requestExecutor := some (cancelExecutor executor connectionCancelled).2 }
    | none => s
  | none => s

end System

/-- An action of the manager that is none of those with a part in a call. -/
def isInternal : HttpExecutionTaskManager.Action → Bool
  | .start _ _ | .shutdown _ _ | .executed _ _ | .cancel _ => false
  | _ => true

/-- A section of the thread in the executor, or something that its parts share with other calls. -/
def isExecution : ExecutionCancel.Action → Bool
  | .cancel _ => false
  | _ => true

/-- What the threads of the program and of the pool do next. -/
inductive Action where
  /-- The new call, if there is one, is at the address `p`. -/
  | newCall (p : CallPtr) (request : Option Request)
  | execute (p : CallPtr) (pool : ConnectionPoolInternal) (headers : HeaderStore)
  /-- `executeAsync`, up to `start` of the manager. -/
  | executeAsync (p : CallPtr) (caller : Caller) (hasCallback : Bool)
    (pool : ConnectionPoolInternal) (headers : HeaderStore)
  | cancel (p : CallPtr) (connectionCancelled : Bool)
  /-- `invalidateAndCancel`, up to `gracefulShutdown` of the manager. -/
  | invalidateAndCancel (k : ℕ) (caller : Caller)
  /-- The destructor, up to `gracefulShutdown`. -/
  | destroy (k : ℕ)
  /-- In the executor of a call. -/
  | execution (p : CallPtr) (action : ExecutionCancel.Action)
  /-- `execute` of the executor returns to the task, or throws. -/
  | executed (p : CallPtr)
  /-- One pass of the loop of `cancel` of a `gracefulShutdown`, or its end. -/
  | cancelTask (k : ℕ) (connectionCancelled : Bool)
  | manager (action : HttpExecutionTaskManager.Action)

/-- One action; `none` when it cannot be taken. -/
def step (config : Config) (s : System) : Action → Option System
  | .newCall p request =>
    match s.calls p, s.newCall request with
    | none, .ok call => some { s.setCall p call with newCalls := s.newCalls ++ [.ok p] }
    | none, .error e => some { s with newCalls := s.newCalls ++ [.error e] }
    | some _, _ => none
  | .execute p pool headers =>
    match s.calls p with
    | some call =>
      match call.execute pool headers with
      | .ok call => some ((s.setCall p call).enter p (.ok ()))
      | .error e => some (s.enter p (.error e))
    | none => none
  | .executeAsync p caller hasCallback pool headers =>
    match s.calls p with
    | some call =>
      match call.executeAsync hasCallback pool headers with
      | .ok call =>
        (HttpExecutionTaskManager.step config.asyncThreadPool s.httpExecutionTaskManager
          (.start p caller)).map fun manager =>
            ((s.setCall p call).enter p (.ok ())).setManager manager
      | .error e => some (s.enter p (.error e))
    | none => none
  | .cancel p connectionCancelled =>
    (s.calls p).map fun call => s.setCall p (call.cancel connectionCancelled).2
  | .invalidateAndCancel k caller =>
    if s.invalidated then some s
    else
      (HttpExecutionTaskManager.step config.asyncThreadPool s.httpExecutionTaskManager
        (.shutdown k caller)).map fun manager => { s.setManager manager with invalidated := true }
  | .destroy k =>
    (HttpExecutionTaskManager.step config.asyncThreadPool s.httpExecutionTaskManager
      (.shutdown k .application)).map s.setManager
  | .execution p action =>
    match s.calls p, isExecution action with
    | some call, true =>
      match call.requestExecutor, s.runs p call || !action.isSection with
      | some executor, true =>
        (ExecutionCancel.step config.poco config.context executor action).map fun executor =>
          s.setCall p { call with requestExecutor := some executor }
      | _, _ => none
    | _, _ => none
  | .executed p =>
    match (s.calls p).bind (·.requestExecutor) with
    | some executor =>
      match resultOf executor.stage with
      | some result =>
        (HttpExecutionTaskManager.step config.asyncThreadPool s.httpExecutionTaskManager
          (.executed p result)).map s.setManager
      | none => none
    | none => none
  | .cancelTask k connectionCancelled =>
    (HttpExecutionTaskManager.step config.asyncThreadPool s.httpExecutionTaskManager
      (.cancel k)).map fun manager =>
        match s.nextToCancel k with
        | some p => (s.cancelTask p connectionCancelled).setManager manager
        | none => s.setManager manager
  | .manager action =>
    match isInternal action with
    | true =>
      (HttpExecutionTaskManager.step config.asyncThreadPool s.httpExecutionTaskManager
        action).map s.setManager
    | false => none

end EasyHttp.EasyHttpInternal
