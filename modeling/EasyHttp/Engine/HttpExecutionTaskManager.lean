import EasyHttp.Engine.AsyncTasks
import EasyHttp.ExecutorService.QueuedThreadPool

/-!
# The task manager and its thread pool

`HttpExecutionTaskManager` starts tasks on a `QueuedThreadPool` and shuts the pool down. Any number
of threads call `start` and `gracefulShutdown`: those of the application, and the threads of the
tasks, which run interceptors in `execute` and the response callback. A section under
`m_instanceMutex` is one action, but for the sections that keep the mutex inside the pool (`start`
of the pool, and `shutdownAndJoinAll`).

* `System`: the manager, its pool, and where each call and each task is;
* `System.allows`: when the manager lets the pool take an action;
* `step`: one action;
* `step_startLock` and the others: what an action does.
-/

namespace EasyHttp.HttpExecutionTaskManager

open AsyncTasks (ExecuteResult Notification Thrown caught notification)
open QueuedThreadPool (BlockingQueue Config ExecutorServiceException Submitter Worker)

/-- The tasks that are started. -/
abbrev TaskPtr := AsyncTasks.TaskPtr

/-- The pool that the constructor makes. -/
def newAsyncThreadPool (corePoolSizeOfAsyncThreadPool maximumPoolSizeOfAsyncThreadPool : UInt32) :
    Except ExecutorServiceException Config :=
  QueuedThreadPool.initializePool corePoolSizeOfAsyncThreadPool maximumPoolSizeOfAsyncThreadPool
    (some .unbound)

/-- The thread that makes a call: one of the application, or the thread of a task. -/
inductive Caller where
  | application
  | task (task : TaskPtr)
deriving DecidableEq

/-- A call of `start`, which passes a task of its own, or of `gracefulShutdown`. -/
inductive Call where
  | start (task : TaskPtr)
  | shutdown (k : ℕ)
deriving DecidableEq

/-- The calls in which the threads of the tasks are, after that of the caller has moved. -/
def Caller.update (caller : Caller) (pending : TaskPtr → Option Call) (call : Option Call) :
    TaskPtr → Option Call :=
  match caller with
  | .application => pending
  | .task t => Function.update pending t call

/-- Where a call of `start` is. -/
inductive StartPoint where
  | outside
  /-- It is to take `m_instanceMutex`. -/
  | waiting (caller : Caller)
  /-- It has `m_instanceMutex`, and calls `start` of the pool. -/
  | inPool (caller : Caller)
  /-- In the catch clause, which is outside of the mutex. -/
  | caught (caller : Caller)
  | accepted
  | threw (e : HttpException)
deriving DecidableEq

namespace StartPoint

/-- The call of `start` has not reached the list. -/
def isNew : StartPoint → Bool
  | outside | waiting _ => true
  | _ => false

/-- The call of `start` is inside `QueuedThreadPool::start`. -/
def isInPool : StartPoint → Bool
  | inPool _ => true
  | _ => false

/-- The thread that is in the call. -/
def caller? : StartPoint → Option Caller
  | waiting caller | inPool caller | caught caller => some caller
  | outside | accepted | threw _ => none

end StartPoint

/-- Where the thread of a task is, from `FutureTask::run` on. -/
inductive TaskPoint where
  | notRun
  /-- In `execute` of the request executor. -/
  | execute
  /-- In `notifyCompletion`, before `onComplete`. -/
  | onComplete (result : ExecuteResult) (what : Notification)
  /-- In `notifyCompletion`, after `onComplete`. -/
  | callback (result : ExecuteResult) (what : Notification)
  /-- In the callback. -/
  | called (result : ExecuteResult) (what : Notification)
  /-- `runTask` has returned, or has thrown. -/
  | leaving (result : ExecuteResult) (thrown : Option Thrown)
  /-- `m_finishedEvent` is set. -/
  | finished (result : ExecuteResult) (exception : Option Thrown)

namespace TaskPoint

/-- No worker has begun the task. -/
def isNotRun : TaskPoint → Bool
  | notRun => true
  | _ => false

/-- The task has run, and `get` on it returns. -/
def isFinished : TaskPoint → Bool
  | finished _ _ => true
  | _ => false

/-- Interceptors run in `execute`, and the callback is the application's. -/
def runsUserCode : TaskPoint → Bool
  | execute | called _ _ => true
  | _ => false

end TaskPoint

/-- Where a call of `gracefulShutdown` is. -/
inductive ShutdownPoint where
  | outside
  /-- It is to take `m_instanceMutex`. -/
  | waiting (caller : Caller)
  /-- `m_terminated` was already set, and it has returned. -/
  | alreadyTerminated
  /-- In the first loop, with the rest of `executionTaskListCopy`. -/
  | cancelling (caller : Caller) (executionTaskListCopy rest : List TaskPtr)
  /-- In the second loop. -/
  | getting (caller : Caller) (rest : List TaskPtr)
  /-- It has `m_instanceMutex`, and is in `shutdownAndJoinAll`. -/
  | joining (caller : Caller)
  | returned
deriving DecidableEq

namespace ShutdownPoint

/-- The call of `gracefulShutdown` waits for the threads of the pool. -/
def isJoining : ShutdownPoint → Bool
  | joining _ => true
  | _ => false

/-- Past the first section, which has set `m_terminated`. -/
def hasTerminated : ShutdownPoint → Bool
  | cancelling _ _ _ | getting _ _ | joining _ | returned => true
  | outside | waiting _ | alreadyTerminated => false

/-- The thread that is in the call. -/
def caller? : ShutdownPoint → Option Caller
  | waiting caller | cancelling caller _ _ | getting caller _ | joining caller => some caller
  | outside | alreadyTerminated | returned => none

/-- The tasks that it is still to wait for. -/
def toGet : ShutdownPoint → List TaskPtr
  | cancelling _ executionTaskListCopy _ => executionTaskListCopy
  | getting _ rest => rest
  | outside | waiting _ | alreadyTerminated | joining _ | returned => []

end ShutdownPoint

/-- The manager with its pool, the tasks, and the calls of `start` and `gracefulShutdown`. -/
structure System where
  /-- `m_executionTaskList` -/
  executionTaskList : List TaskPtr := []
  terminated : Bool := false
  /-- The call that has `m_instanceMutex`. -/
  instanceMutex : Option Call := none
  /-- The `QueuedThreadPool`. -/
  pool : QueuedThreadPool.System
  /-- `m_pAsyncThreadPool` is NULL. -/
  released : Bool := false
  starts : TaskPtr → StartPoint := fun _ => .outside
  shutdowns : ℕ → ShutdownPoint := fun _ => .outside
  tasks : TaskPtr → TaskPoint := fun _ => .notRun
  /-- The call in which the thread of a task is. -/
  pending : TaskPtr → Option Call := fun _ => none
  /-- The calls of `cancel`, in order. -/
  cancelled : List TaskPtr := []
  /-- The calls of response callbacks, in order. -/
  calls : List (TaskPtr × Notification) := []

/-- A new manager over an empty pool. -/
def initial (pool : Config) : System := { pool := pool.initial }

namespace System

/-- A call of `start` goes on. -/
def setStart (s : System) (task : TaskPtr) (point : StartPoint) : System :=
  { s with starts := Function.update s.starts task point }

/-- A task goes on. -/
def setTask (s : System) (task : TaskPtr) (point : TaskPoint) : System :=
  { s with tasks := Function.update s.tasks task point }

/-- A call of `gracefulShutdown` goes on. -/
def setShutdown (s : System) (k : ℕ) (point : ShutdownPoint) : System :=
  { s with shutdowns := Function.update s.shutdowns k point }

/-- What the thread of the caller is in from now on. -/
def setPending (s : System) (caller : Caller) (call : Option Call) : System :=
  { s with pending := caller.update s.pending call }

/-- Whether the caller can make a call: the thread of a task does so from user code. -/
def canCall (s : System) : Caller → Bool
  | .application => true
  | .task task => (s.tasks task).runsUserCode && (s.pending task).isNone

/-- `removeTask` -/
def removeTask (s : System) (task : TaskPtr) : System :=
  { s with executionTaskList := s.executionTaskList.erase task }

/-- The actions of the pool that the manager and the threads of the tasks let it take: `start` is
called by the manager's `start`, and a worker goes on when `run` of its task has returned. -/
def allows (s : System) : QueuedThreadPool.Action → Bool
  | .enter task isNull => (s.starts task).isInPool && !isNull
  | .lock task | .attempt task _ => (s.starts task).isInPool
  | .returned i =>
    match s.pool.workers[i]? with
    | some (.running task) => (s.tasks task).isFinished
    | _ => false
  | .run _ | .getNextTask _ | .leave _ | .collect => true
  | .shutdown => false

/-- The pool has taken an action; a worker that calls `run` is in `execute` of the task. -/
def afterPool (s : System) (pool : QueuedThreadPool.System) : QueuedThreadPool.Action → System
  | .run i =>
    match s.pool.workers[i]? with
    | some (.given task) => { s.setTask task .execute with pool := pool }
    | _ => { s with pool := pool }
  | _ => { s with pool := pool }

end System

/-- What the threads of the program, the workers and the pool do. -/
inductive Action where
  | start (task : TaskPtr) (caller : Caller)
  /-- `start` takes the mutex, and checks that nothing was shut down. -/
  | startLock (task : TaskPtr)
  /-- `start` of the pool has returned or thrown. -/
  | startReturned (task : TaskPtr)
  /-- The catch clause of `start`. -/
  | startCaught (task : TaskPtr)
  /-- A step of the pool. -/
  | pool (action : QueuedThreadPool.Action)
  /-- `execute` ends. -/
  | executed (task : TaskPtr) (result : ExecuteResult)
  | onComplete (task : TaskPtr)
  /-- The callback is called. -/
  | callback (task : TaskPtr)
  /-- The callback returns or throws. -/
  | returned (task : TaskPtr) (thrown : Option Thrown)
  /-- The end of `FutureTask::run`. -/
  | finish (task : TaskPtr)
  | shutdown (k : ℕ) (caller : Caller)
  /-- The first section of `gracefulShutdown`. -/
  | shutdownLock (k : ℕ)
  /-- One pass of the loop of `cancel`, or its end. -/
  | cancel (k : ℕ)
  /-- One pass of the loop of `get`. -/
  | get (k : ℕ)
  /-- `gracefulShutdown` takes the mutex for its last section. -/
  | joinLock (k : ℕ)
  /-- `shutdownAndJoinAll` returns, and the pool is released. -/
  | join (k : ℕ)

/-- What `runTask` does after `execute`. -/
def afterExecute (result : ExecuteResult) : TaskPoint :=
  match notification result with
  | .ok what => .onComplete result what
  | .error thrown => .leaving result (some thrown)

/-- One action; `none` when it cannot be taken. -/
def step (pool : Config) (s : System) : Action → Option System
  | .start task caller =>
    match s.starts task, s.canCall caller with
    | .outside, true =>
      some ((s.setStart task (.waiting caller)).setPending caller (some (.start task)))
    | _, _ => none
  | .startLock task =>
    match s.starts task, s.instanceMutex with
    | .waiting caller, none =>
      if s.terminated then
        some ((s.setStart task (.threw (.illegalState
          "Failed to execute task, because EasyHttp was invalidated."))).setPending caller none)
      else if s.released then
        some ((s.setStart task (.threw (.illegalState
          "Failed to execute task, because EasyHttp was released."))).setPending caller none)
      else some {
        s.setStart task (.inPool caller) with
        executionTaskList := s.executionTaskList ++ [task]
        instanceMutex := some (.start task) }
    | _, _ => none
  | .startReturned task =>
    match s.starts task, s.pool.submitters task with
    | .inPool caller, .accepted =>
      some { (s.setStart task .accepted).setPending caller none with instanceMutex := none }
    | .inPool caller, .threw _ =>
      some { s.setStart task (.caught caller) with instanceMutex := none }
    | _, _ => none
  | .startCaught task =>
    match s.starts task, s.instanceMutex with
    | .caught caller, none =>
      some (((s.removeTask task).setStart task (.threw (.execution
        "Can not start asynchronous execute. getCause() for details."))).setPending caller none)
    | _, _ => none
  | .pool action =>
    match s.allows action, QueuedThreadPool.step pool s.pool action with
    | true, some p => some (s.afterPool p action)
    | _, _ => none
  | .executed task result =>
    match s.tasks task, s.pending task with
    | .execute, none => some (s.setTask task (afterExecute result))
    | _, _ => none
  | .onComplete task =>
    match s.tasks task, s.instanceMutex with
    | .onComplete result what, none =>
      some ((s.removeTask task).setTask task (.callback result what))
    | _, _ => none
  | .callback task =>
    match s.tasks task with
    | .callback result what =>
      some { s.setTask task (.called result what) with calls := s.calls ++ [(task, what)] }
    | _ => none
  | .returned task thrown =>
    match s.tasks task, s.pending task with
    | .called result _, none => some (s.setTask task (.leaving result thrown))
    | _, _ => none
  | .finish task =>
    match s.tasks task with
    | .leaving result thrown => some (s.setTask task (.finished result (thrown.map caught)))
    | _ => none
  | .shutdown k caller =>
    match s.shutdowns k, s.canCall caller with
    | .outside, true =>
      some ((s.setShutdown k (.waiting caller)).setPending caller (some (.shutdown k)))
    | _, _ => none
  | .shutdownLock k =>
    match s.shutdowns k, s.instanceMutex with
    | .waiting caller, none =>
      if s.terminated then some ((s.setShutdown k .alreadyTerminated).setPending caller none)
      else some {
        s.setShutdown k (.cancelling caller s.executionTaskList s.executionTaskList) with
        terminated := true, pool := { s.pool with terminated := true } }
    | _, _ => none
  | .cancel k =>
    match s.shutdowns k with
    | .cancelling caller executionTaskListCopy (task :: rest) =>
      some { s.setShutdown k (.cancelling caller executionTaskListCopy rest) with
             cancelled := s.cancelled ++ [task] }
    | .cancelling caller executionTaskListCopy [] =>
      some (s.setShutdown k (.getting caller executionTaskListCopy))
    | _ => none
  | .get k =>
    match s.shutdowns k with
    | .getting caller (task :: rest) =>
      if (s.tasks task).isFinished then some (s.setShutdown k (.getting caller rest)) else none
    | _ => none
  | .joinLock k =>
    match s.shutdowns k, s.instanceMutex with
    | .getting caller [], none =>
      some { s.setShutdown k (.joining caller) with instanceMutex := some (.shutdown k) }
    | _, _ => none
  | .join k =>
    match s.shutdowns k with
    | .joining caller =>
      -- the mutex keeps new tasks out, so each thread that has become idle stays so
      if ∀ w ∈ s.pool.workers, w = .left then some {
        (s.setShutdown k .returned).setPending caller none with
        instanceMutex := none, released := true, pool := { s.pool with allocated := 0 } }
      else none
    | _ => none

/-! ## What an action does -/

section
variable {pool : Config} {s s' : System}

/-- A thread enters `start` once for each task. -/
theorem step_start {task : TaskPtr} {caller : Caller}
    (h : step pool s (.start task caller) = some s') :
    s.starts task = .outside ∧ s.canCall caller = true ∧
      s' = (s.setStart task (.waiting caller)).setPending caller (some (.start task)) := by
  cases hpoint : s.starts task with
  | outside =>
    cases hcall : s.canCall caller with
    | true =>
      simp only [step, hpoint, hcall] at h
      exact ⟨rfl, rfl, (Option.some.inj h).symm⟩
    | false => simp [step, hpoint, hcall] at h
  | _ => simp [step, hpoint] at h

/-- `start` throws when something was shut down, or goes on to the pool with the mutex. -/
theorem step_startLock {task : TaskPtr} (h : step pool s (.startLock task) = some s') :
    ∃ caller, s.starts task = .waiting caller ∧ s.instanceMutex = none ∧
      ((∃ e, (s.terminated = true ∨ s.released = true) ∧
        s' = (s.setStart task (.threw e)).setPending caller none) ∨
      (s.terminated = false ∧ s.released = false ∧ s' = {
        s.setStart task (.inPool caller) with
        executionTaskList := s.executionTaskList ++ [task]
        instanceMutex := some (.start task) })) := by
  cases hpoint : s.starts task with
  | waiting caller =>
    cases hmutex : s.instanceMutex with
    | none =>
      simp only [step, hpoint, hmutex] at h
      refine ⟨caller, rfl, rfl, ?_⟩
      by_cases hterminated : s.terminated = true
      · rw [if_pos hterminated] at h
        exact .inl ⟨_, .inl hterminated, (Option.some.inj h).symm⟩
      · rw [if_neg hterminated] at h
        by_cases hreleased : s.released = true
        · rw [if_pos hreleased] at h
          exact .inl ⟨_, .inr hreleased, (Option.some.inj h).symm⟩
        · rw [if_neg hreleased] at h
          exact .inr ⟨Bool.not_eq_true _ ▸ hterminated, Bool.not_eq_true _ ▸ hreleased,
            (Option.some.inj h).symm⟩
    | some call => simp [step, hpoint, hmutex] at h
  | _ => simp [step, hpoint] at h

/-- `start` returns when the pool has accepted the task, and catches when it has refused. -/
theorem step_startReturned {task : TaskPtr} (h : step pool s (.startReturned task) = some s') :
    ∃ caller, s.starts task = .inPool caller ∧
      ((s.pool.submitters task = .accepted ∧
        s' = { (s.setStart task .accepted).setPending caller none with instanceMutex := none }) ∨
      (∃ e, s.pool.submitters task = .threw e ∧
        s' = { s.setStart task (.caught caller) with instanceMutex := none })) := by
  cases hpoint : s.starts task with
  | inPool caller =>
    cases hsubmitter : s.pool.submitters task with
    | accepted =>
      simp only [step, hpoint, hsubmitter] at h
      exact ⟨caller, rfl, .inl ⟨rfl, (Option.some.inj h).symm⟩⟩
    | threw e =>
      simp only [step, hpoint, hsubmitter] at h
      exact ⟨caller, rfl, .inr ⟨e, rfl, (Option.some.inj h).symm⟩⟩
    | _ => simp [step, hpoint, hsubmitter] at h
  | _ => simp [step, hpoint] at h

/-- A refused task is taken off the list again, and the exception goes on to the caller. -/
theorem step_startCaught {task : TaskPtr} (h : step pool s (.startCaught task) = some s') :
    ∃ caller e, s.starts task = .caught caller ∧ s.instanceMutex = none ∧
      s' = ((s.removeTask task).setStart task (.threw e)).setPending caller none := by
  cases hpoint : s.starts task with
  | caught caller =>
    cases hmutex : s.instanceMutex with
    | none =>
      simp only [step, hpoint, hmutex] at h
      exact ⟨caller, _, rfl, rfl, (Option.some.inj h).symm⟩
    | some call => simp [step, hpoint, hmutex] at h
  | _ => simp [step, hpoint] at h

/-- What the pool does on its own, if it concerns no call of the manager. -/
theorem step_pool {action : QueuedThreadPool.Action} (h : step pool s (.pool action) = some s') :
    s.allows action = true ∧
      ∃ p, QueuedThreadPool.step pool s.pool action = some p ∧ s' = s.afterPool p action := by
  cases hallows : s.allows action with
  | false => simp [step, hallows] at h
  | true =>
    cases hstep : QueuedThreadPool.step pool s.pool action with
    | none => simp [step, hallows, hstep] at h
    | some p =>
      simp only [step, hallows, hstep] at h
      exact ⟨rfl, p, rfl, (Option.some.inj h).symm⟩

/-- `executeWithInterceptors` has returned or thrown. -/
theorem step_executed {task : TaskPtr} {result : ExecuteResult}
    (h : step pool s (.executed task result) = some s') :
    s.tasks task = .execute ∧ s.pending task = none ∧
      s' = s.setTask task (afterExecute result) := by
  cases hpoint : s.tasks task with
  | execute =>
    cases hpending : s.pending task with
    | none =>
      simp only [step, hpoint, hpending] at h
      exact ⟨rfl, rfl, (Option.some.inj h).symm⟩
    | some call => simp [step, hpoint, hpending] at h
  | _ => simp [step, hpoint] at h

/-- `onComplete` takes the task off the list, before the callback. -/
theorem step_onComplete {task : TaskPtr} (h : step pool s (.onComplete task) = some s') :
    ∃ result what, s.tasks task = .onComplete result what ∧ s.instanceMutex = none ∧
      s' = (s.removeTask task).setTask task (.callback result what) := by
  cases hpoint : s.tasks task with
  | onComplete result what =>
    cases hmutex : s.instanceMutex with
    | none =>
      simp only [step, hpoint, hmutex] at h
      exact ⟨result, what, rfl, rfl, (Option.some.inj h).symm⟩
    | some call => simp [step, hpoint, hmutex] at h
  | _ => simp [step, hpoint] at h

/-- The callback is called. -/
theorem step_callback {task : TaskPtr} (h : step pool s (.callback task) = some s') :
    ∃ result what, s.tasks task = .callback result what ∧
      s' = { s.setTask task (.called result what) with calls := s.calls ++ [(task, what)] } := by
  cases hpoint : s.tasks task with
  | callback result what =>
    simp only [step, hpoint] at h
    exact ⟨result, what, rfl, (Option.some.inj h).symm⟩
  | _ => simp [step, hpoint] at h

/-- The callback has returned or thrown. -/
theorem step_returned {task : TaskPtr} {thrown : Option Thrown}
    (h : step pool s (.returned task thrown) = some s') :
    ∃ result what, s.tasks task = .called result what ∧ s.pending task = none ∧
      s' = s.setTask task (.leaving result thrown) := by
  cases hpoint : s.tasks task with
  | called result what =>
    cases hpending : s.pending task with
    | none =>
      simp only [step, hpoint, hpending] at h
      exact ⟨result, what, rfl, rfl, (Option.some.inj h).symm⟩
    | some call => simp [step, hpoint, hpending] at h
  | _ => simp [step, hpoint] at h

/-- The worker leaves the task, which is finished for good. -/
theorem step_finish {task : TaskPtr} (h : step pool s (.finish task) = some s') :
    ∃ result thrown, s.tasks task = .leaving result thrown ∧
      s' = s.setTask task (.finished result (thrown.map caught)) := by
  cases hpoint : s.tasks task with
  | leaving result thrown =>
    simp only [step, hpoint] at h
    exact ⟨result, thrown, rfl, (Option.some.inj h).symm⟩
  | _ => simp [step, hpoint] at h

/-- A thread enters `gracefulShutdown`. -/
theorem step_shutdown {k : ℕ} {caller : Caller} (h : step pool s (.shutdown k caller) = some s') :
    s.shutdowns k = .outside ∧ s.canCall caller = true ∧
      s' = (s.setShutdown k (.waiting caller)).setPending caller (some (.shutdown k)) := by
  cases hpoint : s.shutdowns k with
  | outside =>
    cases hcall : s.canCall caller with
    | true =>
      simp only [step, hpoint, hcall] at h
      exact ⟨rfl, rfl, (Option.some.inj h).symm⟩
    | false => simp [step, hpoint, hcall] at h
  | _ => simp [step, hpoint] at h

/-- The first `gracefulShutdown` takes the list; the others go on at once. -/
theorem step_shutdownLock {k : ℕ} (h : step pool s (.shutdownLock k) = some s') :
    ∃ caller, s.shutdowns k = .waiting caller ∧ s.instanceMutex = none ∧
      ((s.terminated = true ∧ s' = (s.setShutdown k .alreadyTerminated).setPending caller none) ∨
      (s.terminated = false ∧ s' = {
        s.setShutdown k (.cancelling caller s.executionTaskList s.executionTaskList) with
        terminated := true, pool := { s.pool with terminated := true } })) := by
  cases hpoint : s.shutdowns k with
  | waiting caller =>
    cases hmutex : s.instanceMutex with
    | none =>
      simp only [step, hpoint, hmutex] at h
      refine ⟨caller, rfl, rfl, ?_⟩
      by_cases hterminated : s.terminated = true
      · rw [if_pos hterminated] at h
        exact .inl ⟨hterminated, (Option.some.inj h).symm⟩
      · rw [if_neg hterminated] at h
        exact .inr ⟨Bool.not_eq_true _ ▸ hterminated, (Option.some.inj h).symm⟩
    | some call => simp [step, hpoint, hmutex] at h
  | _ => simp [step, hpoint] at h

/-- The tasks of the copied list are cancelled one by one. -/
theorem step_cancel {k : ℕ} (h : step pool s (.cancel k) = some s') :
    ∃ caller copy rest, s.shutdowns k = .cancelling caller copy rest ∧
      ((∃ task tasks, rest = task :: tasks ∧ s' = {
        s.setShutdown k (.cancelling caller copy tasks) with cancelled := s.cancelled ++ [task] }) ∨
      (rest = [] ∧ s' = s.setShutdown k (.getting caller copy))) := by
  cases hpoint : s.shutdowns k with
  | cancelling caller copy rest =>
    cases rest with
    | nil =>
      simp only [step, hpoint] at h
      exact ⟨caller, copy, [], rfl, .inr ⟨rfl, (Option.some.inj h).symm⟩⟩
    | cons task tasks =>
      simp only [step, hpoint] at h
      exact ⟨caller, copy, task :: tasks, rfl, .inl ⟨task, tasks, rfl, (Option.some.inj h).symm⟩⟩
  | _ => simp [step, hpoint] at h

/-- `get` returns from a task that is finished. -/
theorem step_get {k : ℕ} (h : step pool s (.get k) = some s') :
    ∃ caller task rest, s.shutdowns k = .getting caller (task :: rest) ∧
      (s.tasks task).isFinished = true ∧ s' = s.setShutdown k (.getting caller rest) := by
  cases hpoint : s.shutdowns k with
  | getting caller rest =>
    cases rest with
    | nil => simp [step, hpoint] at h
    | cons task rest =>
      simp only [step, hpoint] at h
      by_cases hfinished : (s.tasks task).isFinished = true
      · rw [if_pos hfinished] at h
        exact ⟨caller, task, rest, rfl, hfinished, (Option.some.inj h).symm⟩
      · rw [if_neg hfinished] at h
        cases h
  | _ => simp [step, hpoint] at h

/-- When every task is finished the pool is joined under the mutex. -/
theorem step_joinLock {k : ℕ} (h : step pool s (.joinLock k) = some s') :
    ∃ caller, s.shutdowns k = .getting caller [] ∧ s.instanceMutex = none ∧
      s' = { s.setShutdown k (.joining caller) with instanceMutex := some (.shutdown k) } := by
  cases hpoint : s.shutdowns k with
  | getting caller rest =>
    cases rest with
    | cons task rest => simp [step, hpoint] at h
    | nil =>
      cases hmutex : s.instanceMutex with
      | none =>
        simp only [step, hpoint, hmutex] at h
        exact ⟨caller, rfl, rfl, (Option.some.inj h).symm⟩
      | some call => simp [step, hpoint, hmutex] at h
  | _ => simp [step, hpoint] at h

/-- The join returns when all threads have left. -/
theorem step_join {k : ℕ} (h : step pool s (.join k) = some s') :
    ∃ caller, s.shutdowns k = .joining caller ∧ (∀ w ∈ s.pool.workers, w = .left) ∧ s' = {
      (s.setShutdown k .returned).setPending caller none with
      instanceMutex := none, released := true, pool := { s.pool with allocated := 0 } } := by
  cases hpoint : s.shutdowns k with
  | joining caller =>
    simp only [step, hpoint] at h
    by_cases hleft : ∀ w ∈ s.pool.workers, w = .left
    · rw [if_pos hleft] at h
      exact ⟨caller, rfl, hleft, (Option.some.inj h).symm⟩
    · rw [if_neg hleft] at h
      cases h
  | _ => simp [step, hpoint] at h

end

end EasyHttp.HttpExecutionTaskManager
