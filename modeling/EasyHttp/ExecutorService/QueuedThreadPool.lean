import EasyHttp.Library.Runs
import Mathlib.Algebra.Group.Int.Defs
import Mathlib.Algebra.Group.Nat.Defs
import Mathlib.Data.List.Count
import Mathlib.Logic.Function.Basic
import Mathlib.Data.Int.Notation

/-!
# The thread pool

`QueuedThreadPool` runs tasks on the threads of a `Poco::ThreadPool`, and queues a task when there
is no thread for it. Any number of threads call `start`; a `RunnableWorker` asks for the next task
when its own has returned. A section under `m_queueMutex` is one action, but for the loop of
`start`, which keeps the mutex from one pass to the next.

* `initializePool`, `BlockingQueue.push`: what the constructors accept;
* `System.attempt`: one pass of the loop of `start`;
* `step`: one action of a caller or of a worker;
* `Inv`, `inv_of_run`: where the tasks are, and what the counter counts;
* `pool_safe`: no task is lost or run twice, and the counter counts the workers.
-/

namespace EasyHttp.QueuedThreadPool

/-- A call of `start`, and the task that it passes. -/
abbrev Task := ℕ

/-- How `start` refuses. -/
inductive ExecutorServiceException where
  | illegalArgument (message : String)
  | illegalState (message : String)
  | execution (message : String)
  | tooManyRequests (message : String)
deriving DecidableEq

/-- A `BoundBlockingQueue` with its `m_maxQueueSize`, or an `UnboundBlockingQueue`. -/
inductive BlockingQueue where
  | bound (maxQueueSize : UInt32) (ne_zero : maxQueueSize ≠ 0)
  | unbound

namespace BlockingQueue

/-- The constructor of `BoundBlockingQueue` that takes a size. -/
def newBound (maxQueueSize : UInt32) : Except ExecutorServiceException BlockingQueue :=
  if h : maxQueueSize = 0 then
    .error (.illegalArgument "Can not generate BoundBlockingQueue,maxQueueSize is not allow 0")
  else .ok (.bound maxQueueSize h)

/-- `push`; `none` when it returns `false`. -/
def push (queue : BlockingQueue) (workerQueue : List Task) (task : Task) : Option (List Task) :=
  match queue with
  | .bound maxQueueSize _ =>
    if maxQueueSize.toNat = workerQueue.length then none else some (workerQueue ++ [task])
  | .unbound => some (workerQueue ++ [task])

/-- A task that is pushed is the last of the queue. -/
theorem push_eq {queue : BlockingQueue} {workerQueue pushed : List Task} {task : Task}
    (h : queue.push workerQueue task = some pushed) : pushed = workerQueue ++ [task] := by
  cases queue with
  | unbound => exact (Option.some.inj h).symm
  | bound maxQueueSize ne_zero =>
    by_cases hfull : maxQueueSize.toNat = workerQueue.length
    · rw [push, if_pos hfull] at h
      cases h
    · rw [push, if_neg hfull] at h
      exact (Option.some.inj h).symm

end BlockingQueue

/-- What `initialize` accepts. -/
structure Config where
  corePoolSize : UInt32
  maximumPoolSize : UInt32
  blockingQueue : BlockingQueue
  core_ne_zero : corePoolSize ≠ 0
  core_le_maximum : corePoolSize ≤ maximumPoolSize

/-- `initialize` -/
def initializePool (corePoolSize maximumPoolSize : UInt32) (workerQueue : Option BlockingQueue) :
    Except ExecutorServiceException Config :=
  if h : corePoolSize = 0 ∨ maximumPoolSize < corePoolSize then
    .error (.illegalArgument ("Can not generate QueuedThreadPool, " ++
      "corePoolSize is not allow 0 and corePoolSize should be smaller than maximumPoolSize"))
  else match workerQueue with
    | none => .error (.illegalArgument
        "Can not generate QueuedThreadPool, BlockingQueue is not allow NULL")
    | some blockingQueue => .ok {
        corePoolSize, maximumPoolSize, blockingQueue
        core_ne_zero := fun hzero => h (.inl hzero)
        core_le_maximum := UInt32.not_lt.mp fun hlt => h (.inr hlt) }

/-- The threads that `Poco::ThreadPool` makes in its constructor. -/
def Config.minCapacity (pool : Config) : ℕ := pool.corePoolSize.toInt32.toInt.toNat

/-- The capacity that `Poco::ThreadPool` is given, an `int`. -/
def Config.maxCapacity (pool : Config) : ℤ := pool.maximumPoolSize.toInt32.toInt

/-- Where a `RunnableWorker` is. -/
inductive Worker where
  /-- It has a task that it is to run. -/
  | given (task : Task)
  /-- In `run` of the task. -/
  | running (task : Task)
  /-- Its task has returned, and it is to call `getNextTask`. -/
  | asking
  /-- `getNextTask` has returned NULL; the worker is still on its thread. -/
  | leaving
  /-- The thread is idle again. -/
  | left
deriving DecidableEq

namespace Worker

/-- Whether the worker has not been given NULL. -/
def isActive : Worker → Bool
  | given _ | running _ | asking => true
  | leaving | left => false

/-- Whether the worker is on a thread of the pool. -/
def onThread : Worker → Bool
  | given _ | running _ | asking | leaving => true
  | left => false

/-- Whether the worker has the task, in its `run` or right before it. -/
def holds (task : Task) : Worker → Bool
  | given t | running t => t = task
  | asking | leaving | left => false

/-- Whether the worker is in `run` of the task. -/
def runs (task : Task) : Worker → Bool
  | running t => t = task
  | given _ | asking | leaving | left => false

end Worker

/-- Where a call of `start` is. -/
inductive Submitter where
  | outside
  /-- It is to take `m_queueMutex`. -/
  | waiting
  /-- In the loop. -/
  | holding
  /-- It has returned. -/
  | accepted
  | threw (e : ExecutorServiceException)
deriving DecidableEq

/-- The queue, the workers and the calls of `start`. -/
structure System where
  /-- `m_pBlockingQueue` -/
  workerQueue : List Task := []
  activeWorkerCount : UInt32 := 0
  terminated : Bool := false
  /-- The call of `start` that has `m_queueMutex`. -/
  queueMutex : Option Task := none
  /-- The threads of the `Poco::ThreadPool`. -/
  allocated : ℕ
  workers : List Worker := []
  submitters : Task → Submitter := fun _ => .outside
  /-- The calls of `run`, in order. -/
  executed : List Task := []
  /-- The tasks whose `run` has returned. -/
  done : List Task := []
  /-- What `push` has put into the queue, in order. -/
  pushed : List Task := []
  /-- What `pop` has taken from the queue, in order. -/
  taken : List Task := []

/-- The pool has its threads, and they have nothing to do. -/
def Config.initial (pool : Config) : System := { allocated := pool.minCapacity }

namespace System

/-- The workers that have not been given NULL. -/
def activeWorkers (s : System) : ℕ := s.workers.countP Worker.isActive

/-- The threads with a worker on them. -/
def occupied (s : System) : ℕ := s.workers.countP Worker.onThread

/-- How many workers have the task. -/
def holders (s : System) (task : Task) : ℕ := s.workers.countP (Worker.holds task)

/-- A call of `start` ends. -/
def finishStart (s : System) (task : Task) (submitter : Submitter) : System :=
  { s with submitters := Function.update s.submitters task submitter, queueMutex := none }

/-- `Poco::ThreadPool::start` has taken the worker. -/
def startWorker (s : System) (task : Task) : System :=
  { s.finishStart task .accepted with
    workers := s.workers ++ [.given task], activeWorkerCount := s.activeWorkerCount + 1 }

end System

/-- What `Poco::ThreadPool::start` does. -/
inductive Answer where
  /-- It runs the worker, on an idle thread or on a new one. -/
  | started
  | noThreadAvailable
  /-- Another `Poco::Exception`. -/
  | systemError
deriving DecidableEq

/-- One pass of the loop of `start`; `none` when the pool cannot answer so. -/
def System.attempt (pool : Config) (s : System) (task : Task) : Answer → Option System
  | .started =>
    if s.occupied < s.allocated then some (s.startWorker task)
    else if (s.allocated : ℤ) < pool.maxCapacity then
      some { s.startWorker task with allocated := s.allocated + 1 }
    else none
  | .noThreadAvailable =>
    if s.activeWorkerCount = 0 then some s -- sleep, and once more
    else match pool.blockingQueue.push s.workerQueue task with
      | some workerQueue =>
        some { s.finishStart task .accepted with workerQueue, pushed := s.pushed ++ [task] }
      | none => some (s.finishStart task (.threw (.tooManyRequests
          "Can not run task, number of task is greater than max queue size")))
  | .systemError =>
    some (s.finishStart task (.threw (.execution "Can not start task, system error has occurred")))

/-- `getNextTask`, called by the worker at `i`. -/
def System.getNextTask (s : System) (i : ℕ) : System :=
  match s.workerQueue with
  | task :: rest =>
    { s with workerQueue := rest, workers := s.workers.set i (.given task),
             taken := s.taken ++ [task] }
  | [] =>
    { s with workers := s.workers.set i .leaving, activeWorkerCount := s.activeWorkerCount - 1 }

/-- The worker gets the first task of the queue. -/
theorem System.getNextTask_cons {s : System} {task : Task} {rest : List Task}
    (h : s.workerQueue = task :: rest) (i : ℕ) : s.getNextTask i =
      { s with workerQueue := rest, workers := s.workers.set i (.given task),
               taken := s.taken ++ [task] } := by
  rw [getNextTask, h]

/-- Without a task the worker gives up its place. -/
theorem System.getNextTask_nil {s : System} (h : s.workerQueue = []) (i : ℕ) : s.getNextTask i =
    { s with workers := s.workers.set i .leaving,
             activeWorkerCount := s.activeWorkerCount - 1 } := by
  rw [getNextTask, h]

/-- What callers, workers and `Poco::ThreadPool` do. -/
inductive Action where
  /-- The checks of `start`, before the mutex. -/
  | enter (task : Task) (isNull : Bool)
  | lock (task : Task)
  | attempt (task : Task) (answer : Answer)
  /-- The worker calls `run` of its task. -/
  | run (i : ℕ)
  | returned (i : ℕ)
  | getNextTask (i : ℕ)
  /-- The thread becomes idle. -/
  | leave (i : ℕ)
  /-- `Poco::ThreadPool` stops one of its idle threads. -/
  | collect
  /-- `shutdown`, or the first section of `shutdownAndJoinAll`. -/
  | shutdown
deriving DecidableEq

/-- One action; `none` when it cannot be taken. -/
def step (pool : Config) (s : System) : Action → Option System
  | .enter task isNull =>
    match s.submitters task with
    | .outside =>
      some { s with submitters := Function.update s.submitters task (
        if s.terminated then .threw (.illegalState
          "Can not start task, QueuedThreadPool is already terminated")
        else if isNull then .threw (.illegalArgument
          "Can not start task, task is not allow NULL")
        else .waiting) }
    | _ => none
  | .lock task =>
    match s.submitters task, s.queueMutex with
    | .waiting, none => some { s with
        submitters := Function.update s.submitters task .holding, queueMutex := some task }
    | _, _ => none
  | .attempt task answer =>
    match s.submitters task with
    | .holding => s.attempt pool task answer
    | _ => none
  | .run i =>
    match s.workers[i]? with
    | some (.given task) =>
      some { s with workers := s.workers.set i (.running task), executed := s.executed ++ [task] }
    | _ => none
  | .returned i =>
    match s.workers[i]? with
    | some (.running task) =>
      some { s with workers := s.workers.set i .asking, done := s.done ++ [task] }
    | _ => none
  | .getNextTask i =>
    match s.workers[i]?, s.queueMutex with
    | some .asking, none => some (s.getNextTask i)
    | _, _ => none
  | .leave i =>
    match s.workers[i]? with
    | some .leaving => some { s with workers := s.workers.set i .left }
    | _ => none
  | .collect =>
    if s.occupied < s.allocated then some { s with allocated := s.allocated - 1 } else none
  | .shutdown => some { s with terminated := true }

/-! ## What an action does -/

section
variable {pool : Config} {s s' : System}

/-- A thread calls `start`. -/
theorem step_enter {task : Task} {isNull : Bool}
    (h : step pool s (.enter task isNull) = some s') : s.submitters task = .outside ∧
      ∃ submitter ≠ .accepted,
        s' = { s with submitters := Function.update s.submitters task submitter } := by
  cases hsubmitter : s.submitters task with
  | outside =>
    simp only [step, hsubmitter] at h
    cases h
    refine ⟨rfl, _, ?_, rfl⟩
    by_cases hterminated : s.terminated = true
    · rw [if_pos hterminated]
      nofun
    · rw [if_neg hterminated]
      cases isNull with
      | true => nofun
      | false => nofun
  | _ => simp [step, hsubmitter] at h

/-- One call of `start` at a time holds the mutex. -/
theorem step_lock {task : Task} (h : step pool s (.lock task) = some s') :
    s.submitters task = .waiting ∧ s' = { s with
      submitters := Function.update s.submitters task .holding, queueMutex := some task } := by
  cases hsubmitter : s.submitters task with
  | waiting =>
    cases hmutex : s.queueMutex with
    | none =>
      simp only [step, hsubmitter, hmutex] at h
      exact ⟨rfl, (Option.some.inj h).symm⟩
    | some t => simp [step, hsubmitter, hmutex] at h
  | _ => simp [step, hsubmitter] at h

/-- Under the mutex a thread is asked for, or the task is queued. -/
theorem step_attempt {task : Task} {answer : Answer}
    (h : step pool s (.attempt task answer) = some s') :
    s.submitters task = .holding ∧ s.attempt pool task answer = some s' := by
  cases hsubmitter : s.submitters task with
  | holding =>
    simp only [step, hsubmitter] at h
    exact ⟨rfl, h⟩
  | _ => simp [step, hsubmitter] at h

/-- A worker runs the task that it was given. -/
theorem step_run {i : ℕ} (h : step pool s (.run i) = some s') :
    ∃ task, s.workers[i]? = some (.given task) ∧ s' = { s with
      workers := s.workers.set i (.running task), executed := s.executed ++ [task] } := by
  cases hi : s.workers[i]? with
  | none => simp [step, hi] at h
  | some w =>
    cases w with
    | given task =>
      simp only [step, hi] at h
      exact ⟨task, rfl, (Option.some.inj h).symm⟩
    | _ => simp [step, hi] at h

/-- `run` has returned, and the worker asks for the next task. -/
theorem step_returned {i : ℕ} (h : step pool s (.returned i) = some s') :
    ∃ task, s.workers[i]? = some (.running task) ∧ s' = { s with
      workers := s.workers.set i .asking, done := s.done ++ [task] } := by
  cases hi : s.workers[i]? with
  | none => simp [step, hi] at h
  | some w =>
    cases w with
    | running task =>
      simp only [step, hi] at h
      exact ⟨task, rfl, (Option.some.inj h).symm⟩
    | _ => simp [step, hi] at h

/-- The worker asks under the mutex. -/
theorem step_getNextTask {i : ℕ} (h : step pool s (.getNextTask i) = some s') :
    s.workers[i]? = some .asking ∧ s' = s.getNextTask i := by
  cases hi : s.workers[i]? with
  | none => simp [step, hi] at h
  | some w =>
    cases w with
    | asking =>
      cases hmutex : s.queueMutex with
      | none =>
        simp only [step, hi, hmutex] at h
        exact ⟨rfl, (Option.some.inj h).symm⟩
      | some task => simp [step, hi, hmutex] at h
    | _ => simp [step, hi] at h

/-- The worker leaves the thread it was on. -/
theorem step_leave {i : ℕ} (h : step pool s (.leave i) = some s') :
    s.workers[i]? = some .leaving ∧ s' = { s with workers := s.workers.set i .left } := by
  cases hi : s.workers[i]? with
  | none => simp [step, hi] at h
  | some w =>
    cases w with
    | leaving =>
      simp only [step, hi] at h
      exact ⟨rfl, (Option.some.inj h).symm⟩
    | _ => simp [step, hi] at h

/-- `Poco::ThreadPool` gives an idle thread back. -/
theorem step_collect (h : step pool s .collect = some s') :
    s.occupied < s.allocated ∧ s' = { s with allocated := s.allocated - 1 } := by
  by_cases hidle : s.occupied < s.allocated
  · rw [step, if_pos hidle] at h
    exact ⟨hidle, (Option.some.inj h).symm⟩
  · rw [step, if_neg hidle] at h
    cases h

end

/-! ## What stays true -/

/-- In how many places the task is. -/
def System.places (s : System) (task : Task) : ℕ :=
  s.workerQueue.count task + s.holders task + s.done.count task

/-- A worker moves on: what is counted of it before is counted of it after. -/
theorem countP_set_add {α : Type*} {p : α → Bool} {l : List α} {i : ℕ} {a : α} (b : α)
    (h : l[i]? = some a) :
    (l.set i b).countP p + (if p a then 1 else 0) = l.countP p + (if p b then 1 else 0) := by
  obtain ⟨hlt, hget⟩ := List.getElem?_eq_some_iff.mp h
  have hset := List.countP_set (p := p) (a := b) hlt
  have hpos : p a = true → 0 < l.countP p := fun hpa =>
    List.countP_pos_iff.mpr ⟨a, List.mem_of_getElem? h, hpa⟩
  rw [hget] at hset
  by_cases hpa : p a = true
  · have := hpos hpa
    rw [if_pos hpa] at hset ⊢
    omega
  · rw [if_neg hpa] at hset ⊢
    omega

/-- What is appended is counted once more. -/
theorem count_append_singleton (tasks : List Task) (task t : Task) :
    (tasks ++ [task]).count t = tasks.count t + if decide (task = t) = true then 1 else 0 := by
  rw [List.count_append, List.count_singleton]
  simp

/-- A worker that is active is on a thread. -/
theorem Worker.onThread_of_isActive {w : Worker} (h : w.isActive = true) : w.onThread = true := by
  cases w <;> first | rfl | cases h

/-- A worker holds the task that it runs. -/
theorem Worker.holds_of_runs {task : Task} {w : Worker} (h : w.runs task = true) :
    w.holds task = true := by
  cases w <;> first | exact h | cases h

/-- A task that is accepted is in one place; the counter is that of the active workers. -/
structure Inv (s : System) : Prop where
  count_eq : s.activeWorkerCount.toNat = s.activeWorkers
  occupied_le : s.occupied ≤ s.allocated
  allocated_lt : s.allocated < 2 ^ 31
  places_eq : ∀ task, s.places task = if s.submitters task = .accepted then 1 else 0
  executed_eq : ∀ task, s.executed.count task =
    s.workers.countP (Worker.runs task) + s.done.count task
  pushed_eq : s.pushed = s.taken ++ s.workerQueue
  active_pos : s.workerQueue ≠ [] → 0 < s.activeWorkers

namespace Config

theorem minCapacity_lt (pool : Config) : pool.minCapacity < 2 ^ 31 := by
  have h := pool.corePoolSize.toInt32.toInt_lt
  unfold minCapacity
  omega

theorem maxCapacity_lt (pool : Config) : pool.maxCapacity < 2 ^ 31 :=
  pool.maximumPoolSize.toInt32.toInt_lt

end Config

theorem inv_initial (pool : Config) : Inv pool.initial where
  count_eq := rfl
  occupied_le := Nat.zero_le _
  allocated_lt := pool.minCapacity_lt
  places_eq _ := rfl
  executed_eq _ := rfl
  pushed_eq := rfl
  active_pos h := absurd rfl h

namespace Inv

variable {s : System}

/-- There are not more workers than an `int` counts. -/
theorem activeWorkers_lt (h : Inv s) : s.activeWorkers < 2 ^ 31 := by
  have hle : s.activeWorkers ≤ s.occupied :=
    List.countP_mono_left fun w _ => Worker.onThread_of_isActive
  have := h.occupied_le
  have := h.allocated_lt
  omega

/-- A call of `start` that has not been accepted goes on and is not accepted. -/
theorem setSubmitter (h : Inv s) {task : Task} {submitter : Submitter} {mutex : Option Task}
    (hbefore : s.submitters task ≠ .accepted) (hafter : submitter ≠ .accepted) :
    Inv { s with submitters := Function.update s.submitters task submitter,
                 queueMutex := mutex } := by
  refine { h with places_eq := fun t => ?_ }
  show s.places t = if Function.update s.submitters task submitter t = .accepted then 1 else 0
  rw [h.places_eq t]
  by_cases ht : t = task
  · rw [ht, Function.update_self, if_neg hbefore, if_neg hafter]
  · rw [Function.update_of_ne ht]

/-- A worker starts with the task on a thread. -/
theorem startWorker (h : Inv s) {task : Task} {allocated : ℕ}
    (hbefore : s.submitters task ≠ .accepted) (hoccupied : s.occupied < allocated)
    (hallocated : allocated < 2 ^ 31) :
    Inv { s.startWorker task with allocated := allocated } := by
  -- each count grows by one exactly if the new worker is counted
  have happend (p : Worker → Bool) : (s.workers ++ [Worker.given task]).countP p =
      s.workers.countP p + if p (.given task) then 1 else 0 := by
    rw [List.countP_append, List.countP_singleton]
  constructor
  · show (s.activeWorkerCount + 1).toNat = (s.workers ++ [Worker.given task]).countP Worker.isActive
    -- the counter does not overflow
    have hactive := h.activeWorkers_lt
    rw [happend, UInt32.toNat_add, h.count_eq]
    show (s.activeWorkers + 1) % 2 ^ 32 = s.activeWorkers + 1
    omega
  · show (s.workers ++ [Worker.given task]).countP Worker.onThread ≤ allocated
    rw [happend]
    exact hoccupied
  · exact hallocated
  · intro t
    show s.workerQueue.count t + (s.workers ++ [Worker.given task]).countP (Worker.holds t) +
      s.done.count t = if Function.update s.submitters task .accepted t = .accepted then 1 else 0
    have hplaces : s.workerQueue.count t + s.workers.countP (Worker.holds t) + s.done.count t =
      if s.submitters t = .accepted then 1 else 0 := h.places_eq t
    rw [happend]
    -- the task that is given to the worker is in one place now
    by_cases ht : t = task
    · rw [ht, if_neg hbefore] at hplaces
      rw [ht, Function.update_self, if_pos rfl, Worker.holds, if_pos (decide_eq_true rfl)]
      omega
    · rw [Function.update_of_ne ht, ← hplaces, Worker.holds,
        if_neg (by simpa using fun h => ht h.symm)]
      rfl
  · intro t
    show s.executed.count t = (s.workers ++ [Worker.given task]).countP (Worker.runs t) + s.done.count t
    rw [happend]
    exact h.executed_eq t
  · exact h.pushed_eq
  · intro _
    show 0 < (s.workers ++ [Worker.given task]).countP Worker.isActive
    rw [happend]
    exact Nat.succ_pos _

/-- The task comes to the end of the queue. -/
theorem push (h : Inv s) {task : Task} (hbefore : s.submitters task ≠ .accepted)
    (hactive : 0 < s.activeWorkers) :
    Inv { s.finishStart task .accepted with
      workerQueue := s.workerQueue ++ [task], pushed := s.pushed ++ [task] } := by
  refine { h with
    places_eq := fun t => ?_
    pushed_eq := ?_
    active_pos := fun _ => hactive }
  · show (s.workerQueue ++ [task]).count t + s.holders t + s.done.count t =
      if Function.update s.submitters task .accepted t = .accepted then 1 else 0
    have hplaces : s.workerQueue.count t + s.holders t + s.done.count t =
      if s.submitters t = .accepted then 1 else 0 := h.places_eq t
    rw [count_append_singleton]
    by_cases ht : t = task
    · rw [ht, if_neg hbefore] at hplaces
      rw [ht, Function.update_self, if_pos rfl, if_pos (decide_eq_true rfl)]
      omega
    · rw [Function.update_of_ne ht, ← hplaces, if_neg (by simpa using fun h => ht h.symm)]
      rfl
  · show s.pushed ++ [task] = s.taken ++ (s.workerQueue ++ [task])
    rw [h.pushed_eq, List.append_assoc]

/-- Each outcome of `start` keeps the invariant. -/
theorem attempt {pool : Config} {s' : System} (h : Inv s) {task : Task} {answer : Answer}
    (hbefore : s.submitters task = .holding)
    (hattempt : s.attempt pool task answer = some s') : Inv s' := by
  -- the task of a call that is in the loop is not accepted yet
  have hnot : s.submitters task ≠ .accepted := by
    rw [hbefore]
    nofun
  have hlt := h.allocated_lt
  cases answer with
  | systemError =>
    cases hattempt
    exact h.setSubmitter hnot nofun
  | started =>
    rw [System.attempt] at hattempt
    -- an idle thread of the pool, or one more
    by_cases hidle : s.occupied < s.allocated
    · rw [if_pos hidle] at hattempt
      cases hattempt
      exact h.startWorker hnot hidle hlt
    · rw [if_neg hidle] at hattempt
      by_cases hcapacity : (s.allocated : ℤ) < pool.maxCapacity
      · rw [if_pos hcapacity] at hattempt
        cases hattempt
        have hmax := pool.maxCapacity_lt
        have hle := h.occupied_le
        exact h.startWorker hnot (by omega) (by omega)
      · rw [if_neg hcapacity] at hattempt
        cases hattempt
  | noThreadAvailable =>
    rw [System.attempt] at hattempt
    by_cases hzero : s.activeWorkerCount = 0
    · rw [if_pos hzero] at hattempt
      cases hattempt
      exact h
    · rw [if_neg hzero] at hattempt
      -- the queue takes the task, or it is full
      cases hpush : pool.blockingQueue.push s.workerQueue task with
      | none =>
        rw [hpush] at hattempt
        cases hattempt
        exact h.setSubmitter hnot nofun
      | some workerQueue =>
        rw [hpush] at hattempt
        cases hattempt
        have hactive : 0 < s.activeWorkers := by
          rw [← h.count_eq]
          exact Nat.pos_of_ne_zero fun hnat => hzero (UInt32.toNat_inj.mp hnat)
        rw [BlockingQueue.push_eq hpush]
        exact h.push hnot hactive

/-- One worker moves on. -/
theorem move {s' : System} {i : ℕ} {a b : Worker} (h : Inv s) (hi : s.workers[i]? = some a)
    (hworkers : s'.workers = s.workers.set i b) (hallocated : s'.allocated = s.allocated)
    (hsubmitters : s'.submitters = s.submitters)
    (honThread : b.onThread = true → a.onThread = true)
    (hcount : s'.activeWorkerCount.toNat + (if a.isActive then 1 else 0) =
      s.activeWorkerCount.toNat + if b.isActive then 1 else 0)
    (hplaces : ∀ task, s'.workerQueue.count task + (if b.holds task then 1 else 0) +
      s'.done.count task =
        s.workerQueue.count task + (if a.holds task then 1 else 0) + s.done.count task)
    (hexecuted : ∀ task, s'.executed.count task + (if a.runs task then 1 else 0) +
      s.done.count task =
        s.executed.count task + (if b.runs task then 1 else 0) + s'.done.count task)
    (hpushed : s'.pushed = s'.taken ++ s'.workerQueue)
    (hactive : s'.workerQueue ≠ [] →
      b.isActive = true ∨ a.isActive = false ∧ 0 < s.activeWorkers) : Inv s' := by
  -- every count over the workers changes by this worker only
  have hset (p : Worker → Bool) : s'.workers.countP p + (if p a then 1 else 0) =
      s.workers.countP p + if p b then 1 else 0 := by
    rw [hworkers]
    exact countP_set_add b hi
  constructor
  · have hactives := hset Worker.isActive
    have hbefore : s.activeWorkerCount.toNat = s.workers.countP Worker.isActive := h.count_eq
    show s'.activeWorkerCount.toNat = s'.workers.countP Worker.isActive
    omega
  · have hthreads := hset Worker.onThread
    have hbefore : s.workers.countP Worker.onThread ≤ s.allocated := h.occupied_le
    show s'.workers.countP Worker.onThread ≤ s'.allocated
    rw [hallocated]
    -- a worker that leaves its thread makes room
    by_cases hb : b.onThread = true
    · rw [if_pos hb, if_pos (honThread hb)] at hthreads
      omega
    · rw [if_neg hb] at hthreads
      omega
  · rw [hallocated]
    exact h.allocated_lt
  · intro t
    have hholds := hset (Worker.holds t)
    have hbefore : s.workerQueue.count t + s.workers.countP (Worker.holds t) + s.done.count t =
      if s.submitters t = .accepted then 1 else 0 := h.places_eq t
    have hmoved := hplaces t
    show s'.workerQueue.count t + s'.workers.countP (Worker.holds t) + s'.done.count t =
      if s'.submitters t = .accepted then 1 else 0
    rw [hsubmitters, ← hbefore]
    omega
  · intro t
    have hruns := hset (Worker.runs t)
    have hbefore := h.executed_eq t
    have hmoved := hexecuted t
    omega
  · exact hpushed
  · intro hne
    show 0 < s'.workers.countP Worker.isActive
    -- the worker is active still, or another one is
    rcases hactive hne with hb | ⟨ha, hpos⟩
    · rw [hworkers]
      obtain ⟨hlt, -⟩ := List.getElem?_eq_some_iff.mp hi
      exact List.countP_pos_iff.mpr ⟨b, List.mem_set hlt b, hb⟩
    · have hactives := hset Worker.isActive
      rw [ha, if_neg Bool.false_ne_true] at hactives
      have hbefore : 0 < s.workers.countP Worker.isActive := hpos
      omega

/-- `getNextTask` hands over the first task of the queue, or takes the worker off the counter. -/
theorem getNextTask (h : Inv s) {i : ℕ} (hi : s.workers[i]? = some .asking) :
    Inv (s.getNextTask i) := by
  cases hqueue : s.workerQueue with
  | cons task rest =>
    rw [System.getNextTask_cons hqueue]
    refine h.move (b := .given task) hi rfl rfl rfl (fun _ => rfl) rfl (fun t => ?_) (fun _ => rfl)
      ?_ (fun _ => .inl rfl)
    · show rest.count t + (if decide (task = t) = true then 1 else 0) + s.done.count t =
        s.workerQueue.count t + 0 + s.done.count t
      rw [hqueue, List.count_cons]
      simp
    · show s.pushed = s.taken ++ [task] ++ rest
      rw [h.pushed_eq, hqueue, List.append_assoc, List.singleton_append]
  | nil =>
    rw [System.getNextTask_nil hqueue]
    refine h.move (b := .leaving) hi rfl rfl rfl (fun _ => rfl) ?_ (fun _ => rfl) (fun _ => rfl)
      ?_ (fun hne => absurd hqueue hne)
    · -- the worker that asks is counted, so nothing is taken from zero
      have hpos : 0 < s.activeWorkers :=
        List.countP_pos_iff.mpr ⟨.asking, List.mem_of_getElem? hi, rfl⟩
      rw [← h.count_eq] at hpos
      show (s.activeWorkerCount - 1).toNat + 1 = s.activeWorkerCount.toNat + 0
      have hone : (1 : UInt32) ≤ s.activeWorkerCount := UInt32.le_iff_toNat_le.mpr hpos
      rw [UInt32.toNat_sub_of_le _ _ hone]
      exact Nat.sub_add_cancel hpos
    · exact h.pushed_eq

end Inv

theorem inv_step {pool : Config} {s s' : System} (a : Action) (h : Inv s)
    (hstep : step pool s a = some s') : Inv s' := by
  cases a with
  | enter task isNull =>
    obtain ⟨hbefore, submitter, hafter, rfl⟩ := step_enter hstep
    exact h.setSubmitter (by rw [hbefore]; nofun) hafter
  | lock task =>
    obtain ⟨hbefore, rfl⟩ := step_lock hstep
    exact h.setSubmitter (by rw [hbefore]; nofun) nofun
  | attempt task answer =>
    obtain ⟨hbefore, hattempt⟩ := step_attempt hstep
    exact h.attempt hbefore hattempt
  | run i =>
    obtain ⟨task, hi, rfl⟩ := step_run hstep
    -- a worker goes from the task it was given to the task it runs
    refine h.move (b := .running task) hi rfl rfl rfl (fun _ => rfl) rfl (fun _ => rfl)
      (fun t => ?_) h.pushed_eq (fun _ => .inl rfl)
    show (s.executed ++ [task]).count t + 0 + s.done.count t =
      s.executed.count t + (if decide (task = t) = true then 1 else 0) + s.done.count t
    rw [count_append_singleton]
    rfl
  | returned i =>
    obtain ⟨task, hi, rfl⟩ := step_returned hstep
    -- the task is counted with those done, and not with the worker
    refine h.move (b := .asking) hi rfl rfl rfl (fun _ => rfl) rfl (fun t => ?_) (fun t => ?_)
      h.pushed_eq (fun _ => .inl rfl)
    · show s.workerQueue.count t + 0 + (s.done ++ [task]).count t =
        s.workerQueue.count t + (if decide (task = t) = true then 1 else 0) + s.done.count t
      rw [count_append_singleton]
      omega
    · show s.executed.count t + (if decide (task = t) = true then 1 else 0) + s.done.count t =
        s.executed.count t + 0 + (s.done ++ [task]).count t
      rw [count_append_singleton]
      omega
  | getNextTask i =>
    obtain ⟨hi, rfl⟩ := step_getNextTask hstep
    exact h.getNextTask hi
  | leave i =>
    obtain ⟨hi, rfl⟩ := step_leave hstep
    exact h.move (b := .left) hi rfl rfl rfl nofun rfl (fun _ => rfl) (fun _ => rfl)
      h.pushed_eq (fun hne => .inr ⟨rfl, h.active_pos hne⟩)
  | collect =>
    obtain ⟨hidle, rfl⟩ := step_collect hstep
    have hlt := h.allocated_lt
    exact { h with
      occupied_le := Nat.le_sub_one_of_lt hidle
      allocated_lt := by show s.allocated - 1 < 2 ^ 31; omega }
  | shutdown =>
    cases hstep
    exact { h with }

theorem inv_of_run {pool : Config} {s s' : System} {actions : List Action} (h : Inv s)
    (hrun : Runs.run (step pool) s actions = some s') : Inv s' :=
  Runs.run_invariant (fun _ a _ hinv _ => inv_step a hinv) h hrun (Runs.everyStep_true _ _)

/-! ## Every run is safe -/

/-- What holds of the pool in every state. -/
structure Safe (s : System) : Prop where
  /-- An accepted task is queued, running or done, in one place and once. -/
  one_place : ∀ task, s.submitters task = .accepted →
    s.workerQueue.count task + s.holders task + s.done.count task = 1
  executed_once : ∀ task, s.executed.count task ≤ 1
  /-- What has been taken is the first of what was queued. -/
  in_order : s.pushed = s.taken ++ s.workerQueue
  counter : s.workerQueue ≠ [] →
    0 < s.activeWorkerCount ∧ s.activeWorkerCount.toNat = s.activeWorkers

/-- A worker that finds the queue empty is not taken off a counter at zero. -/
def KeepsCounter (s : System) (a : Action) : Prop :=
  ∀ i, a = .getNextTask i → s.workers[i]? = some .asking → s.workerQueue = [] →
    0 < s.activeWorkerCount

theorem Inv.counter_pos {s : System} (h : Inv s) (hpos : 0 < s.activeWorkers) :
    0 < s.activeWorkerCount := by
  rw [← h.count_eq] at hpos
  exact UInt32.lt_iff_toNat_lt.mpr hpos

theorem Inv.safe {s : System} (h : Inv s) : Safe s where
  one_place task haccepted := by
    have hplaces := h.places_eq task
    rw [if_pos haccepted] at hplaces
    exact hplaces
  executed_once task := by
    have hexecuted := h.executed_eq task
    have hplaces := h.places_eq task
    have hruns : s.workers.countP (Worker.runs task) ≤ s.holders task :=
      List.countP_mono_left fun w _ => Worker.holds_of_runs
    have hle : s.places task ≤ 1 := by
      rw [hplaces]
      split
      · exact Nat.le_refl 1
      · exact Nat.zero_le 1
    unfold System.places at hle
    omega
  in_order := h.pushed_eq
  counter hne := ⟨h.counter_pos (h.active_pos hne), h.count_eq⟩

theorem Inv.keepsCounter {s : System} (h : Inv s) (a : Action) : KeepsCounter s a := by
  intro i _ hi _
  exact h.counter_pos (List.countP_pos_iff.mpr ⟨.asking, List.mem_of_getElem? hi, rfl⟩)

/-- **Safety of the pool.** In every run, each task that `start` has accepted is in one place and
is executed at most once, the queue is first in, first out, and `m_activeWorkerCount` counts the
workers. -/
theorem pool_safe {pool : Config} {actions : List Action} {s : System}
    (hrun : Runs.run (step pool) pool.initial actions = some s) :
    Safe s ∧ Runs.EveryStep (step pool) KeepsCounter pool.initial actions := by
  refine ⟨(inv_of_run (inv_initial pool) hrun).safe, ?_⟩
  exact Runs.everyStep_of_invariant (fun _ a _ hinv _ => inv_step a hinv)
    (fun _ a hinv _ => hinv.keepsCounter a) (inv_initial pool) (Runs.everyStep_true _ _)

/-- One thread, and a queue of one task. -/
def oneThread : Config where
  corePoolSize := 1
  maximumPoolSize := 1
  blockingQueue := .bound 1 (by decide)
  core_ne_zero := by decide
  core_le_maximum := by decide

/-- The second task is queued, the third refused; the worker of the first one runs the second. -/
def queueAndRefuse : List Action := [
  .enter 0 false, .lock 0, .attempt 0 .started, .run 0,
  .enter 1 false, .enter 2 false, .lock 1, .attempt 1 .noThreadAvailable,
  .lock 2, .attempt 2 .noThreadAvailable,
  .returned 0, .getNextTask 0, .run 0, .returned 0, .getNextTask 0, .leave 0]

theorem pool_safe_queueAndRefuse : ∃ s,
    Runs.run (step oneThread) oneThread.initial queueAndRefuse = some s ∧ s.executed = [0, 1] ∧
      Safe s ∧ Runs.EveryStep (step oneThread) KeepsCounter oneThread.initial queueAndRefuse :=
  ⟨_, rfl, rfl, pool_safe rfl⟩

end EasyHttp.QueuedThreadPool
