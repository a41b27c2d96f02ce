import EasyHttp.Engine.HttpExecutionTaskManager

/-!
# What stays true of the task manager

* `MutexInv`: which call has `m_instanceMutex`;
* `PoolInv`, `TaskInv`: what the pool knows of the calls of `start`, and where the tasks are;
* `CallerInv`: which threads of tasks are in a call;
* `ListInv`, `ShutdownInv`: what is listed, and what a shutdown has waited for;
* `inv_of_run`: all of it along every run.
-/

namespace EasyHttp.HttpExecutionTaskManager

open AsyncTasks (ExecuteResult Notification Thrown caught notification)
open QueuedThreadPool (Config Submitter Worker)

namespace System

variable (s : System) (p : QueuedThreadPool.System) (action : QueuedThreadPool.Action)

/-- A step of the pool changes the pool and the tasks only. -/
theorem afterPool_eq : ∃ tasks, s.afterPool p action = { s with pool := p, tasks := tasks } := by
  cases action with
  | run i =>
    cases hi : s.pool.workers[i]? with
    | none => exact ⟨s.tasks, by rw [afterPool, hi]⟩
    | some w =>
      cases w with
      | given task => exact ⟨_, by rw [afterPool, hi]; rfl⟩
      | _ => exact ⟨s.tasks, by rw [afterPool, hi]⟩
  | _ => exact ⟨s.tasks, rfl⟩

/-- Something about the point at which each call is. -/
def perCall {β : Type} (f : StartPoint → β) (g : ShutdownPoint → β) : Call → β
  | .start task => f (s.starts task)
  | .shutdown k => g (s.shutdowns k)

theorem setStart_perCall {β : Type} (f : StartPoint → β) (g : ShutdownPoint → β) (task : TaskPtr)
    (point : StartPoint) : (s.setStart task point).perCall f g =
      Function.update (s.perCall f g) (.start task) (f point) := by
  funext call
  cases call with
  | start t =>
    show f (Function.update s.starts task point t) = _
    by_cases ht : t = task
    · rw [ht, Function.update_self, Function.update_self]
    · rw [Function.update_of_ne ht, Function.update_of_ne (by simpa using ht)]
      rfl
  | shutdown k =>
    rw [Function.update_of_ne (by simp)]
    rfl

theorem setShutdown_perCall {β : Type} (f : StartPoint → β) (g : ShutdownPoint → β) (k : ℕ)
    (point : ShutdownPoint) : (s.setShutdown k point).perCall f g =
      Function.update (s.perCall f g) (.shutdown k) (g point) := by
  funext call
  cases call with
  | start t =>
    rw [Function.update_of_ne (by simp)]
    rfl
  | shutdown j =>
    show g (Function.update s.shutdowns k point j) = _
    by_cases hj : j = k
    · rw [hj, Function.update_self, Function.update_self]
    · rw [Function.update_of_ne hj, Function.update_of_ne (by simpa using hj)]
      rfl

/-- The thread that is in a call. -/
def callerOf : Call → Option Caller := s.perCall StartPoint.caller? ShutdownPoint.caller?

/-- The calls that are in a section that keeps the mutex. -/
def hasMutex : Call → Bool := s.perCall StartPoint.isInPool ShutdownPoint.isJoining

end System

/-! ## Who has the mutex -/

/-- The mutex is held by the call that says so, and by no other. -/
def MutexInv (s : System) : Prop :=
  ∀ call, s.hasMutex call = true ↔ s.instanceMutex = some call

namespace MutexInv

variable {s s' : System}

theorem initial (pool : Config) : MutexInv (initial pool)
  | .start _ => ⟨nofun, nofun⟩
  | .shutdown _ => ⟨nofun, nofun⟩

theorem frame (h : MutexInv s) (hmutex : s'.instanceMutex = s.instanceMutex)
    (hhas : s'.hasMutex = s.hasMutex) : MutexInv s' := by
  intro call
  rw [hhas, hmutex]
  exact h call

/-- A call moves, and neither takes the mutex nor gives it back. -/
theorem move (h : MutexInv s) {call : Call} {b : Bool}
    (hmutex : s'.instanceMutex = s.instanceMutex)
    (hhas : s'.hasMutex = Function.update s.hasMutex call b) (hb : b = s.hasMutex call) :
    MutexInv s' := by
  refine h.frame hmutex ?_
  rw [hhas, hb, Function.update_eq_self]

/-- A call takes the mutex, which is free. -/
theorem lock (h : MutexInv s) {call : Call} (hfree : s.instanceMutex = none)
    (hmutex : s'.instanceMutex = some call)
    (hhas : s'.hasMutex = Function.update s.hasMutex call true) : MutexInv s' := by
  intro c
  rw [hhas, hmutex]
  by_cases hc : c = call
  · simp [hc]
  · rw [Function.update_of_ne hc, h c, hfree]
    simp [Ne.symm hc]

/-- The call that has the mutex gives it back. -/
theorem unlock (h : MutexInv s) {call : Call} (hself : s.hasMutex call = true)
    (hmutex : s'.instanceMutex = none)
    (hhas : s'.hasMutex = Function.update s.hasMutex call false) : MutexInv s' := by
  have hbefore : s.instanceMutex = some call := (h call).mp hself
  intro c
  rw [hhas, hmutex]
  by_cases hc : c = call
  · simp [hc]
  · rw [Function.update_of_ne hc, h c, hbefore]
    simp [Ne.symm hc]

end MutexInv

/-- The mutex has one holder at most after each step. -/
theorem mutexInv_step {pool : Config} {s s' : System} (a : Action) (h : MutexInv s)
    (hstep : step pool s a = some s') : MutexInv s' := by
  cases a with
  | start task caller =>
    obtain ⟨hnew, -, rfl⟩ := step_start hstep
    -- a call that waits has no mutex
    refine h.move rfl (s.setStart_perCall _ _ task _) ?_
    simp [System.hasMutex, System.perCall, hnew, StartPoint.isInPool]
  | startLock task =>
    obtain ⟨caller, hwaiting, hmutex, ⟨e, -, rfl⟩ | ⟨-, -, rfl⟩⟩ := step_startLock hstep
    · refine h.move rfl (s.setStart_perCall _ _ task _) ?_
      simp [System.hasMutex, System.perCall, hwaiting, StartPoint.isInPool]
    · exact h.lock hmutex rfl (s.setStart_perCall _ _ task _)
  | startReturned task =>
    obtain ⟨caller, hin, ⟨-, rfl⟩ | ⟨e, -, rfl⟩⟩ := step_startReturned hstep
    · exact h.unlock (by simp [System.hasMutex, System.perCall, hin, StartPoint.isInPool]) rfl
        (s.setStart_perCall _ _ task _)
    · exact h.unlock (by simp [System.hasMutex, System.perCall, hin, StartPoint.isInPool]) rfl
        (s.setStart_perCall _ _ task _)
  | startCaught task =>
    obtain ⟨caller, e, hcaught, -, rfl⟩ := step_startCaught hstep
    refine h.move rfl (s.setStart_perCall _ _ task _) ?_
    simp [System.hasMutex, System.perCall, hcaught, StartPoint.isInPool]
  | pool action =>
    -- the pool has no part in the mutex of the manager
    obtain ⟨-, p, -, rfl⟩ := step_pool hstep
    obtain ⟨tasks, heq⟩ := s.afterPool_eq p action
    rw [heq]
    exact h
  | executed task result =>
    obtain ⟨-, -, rfl⟩ := step_executed hstep
    exact h
  | onComplete task =>
    obtain ⟨result, what, -, -, rfl⟩ := step_onComplete hstep
    exact h
  | callback task =>
    obtain ⟨result, what, -, rfl⟩ := step_callback hstep
    exact h
  | returned task thrown =>
    obtain ⟨result, what, -, -, rfl⟩ := step_returned hstep
    exact h
  | finish task =>
    obtain ⟨result, thrown, -, rfl⟩ := step_finish hstep
    exact h
  | shutdown k caller =>
    obtain ⟨hout, -, rfl⟩ := step_shutdown hstep
    refine h.move rfl (s.setShutdown_perCall _ _ k _) ?_
    simp [System.hasMutex, System.perCall, hout, ShutdownPoint.isJoining]
  | shutdownLock k =>
    obtain ⟨caller, hwaiting, -, ⟨-, rfl⟩ | ⟨-, rfl⟩⟩ := step_shutdownLock hstep
    · refine h.move rfl (s.setShutdown_perCall _ _ k _) ?_
      simp [System.hasMutex, System.perCall, hwaiting, ShutdownPoint.isJoining]
    · refine h.move rfl (s.setShutdown_perCall _ _ k _) ?_
      simp [System.hasMutex, System.perCall, hwaiting, ShutdownPoint.isJoining]
  | cancel k =>
    -- the cancels and the waiting are made without the mutex
    obtain ⟨caller, copy, rest, hpoint, ⟨task, tasks, -, rfl⟩ | ⟨-, rfl⟩⟩ := step_cancel hstep
    · refine h.move rfl (s.setShutdown_perCall _ _ k _) ?_
      simp [System.hasMutex, System.perCall, hpoint, ShutdownPoint.isJoining]
    · refine h.move rfl (s.setShutdown_perCall _ _ k _) ?_
      simp [System.hasMutex, System.perCall, hpoint, ShutdownPoint.isJoining]
  | get k =>
    obtain ⟨caller, task, rest, hpoint, -, rfl⟩ := step_get hstep
    refine h.move rfl (s.setShutdown_perCall _ _ k _) ?_
    simp [System.hasMutex, System.perCall, hpoint, ShutdownPoint.isJoining]
  | joinLock k =>
    obtain ⟨caller, -, hmutex, rfl⟩ := step_joinLock hstep
    exact h.lock hmutex rfl (s.setShutdown_perCall _ _ k _)
  | join k =>
    obtain ⟨caller, hpoint, -, rfl⟩ := step_join hstep
    exact h.unlock (by simp [System.hasMutex, System.perCall, hpoint, ShutdownPoint.isJoining]) rfl
      (s.setShutdown_perCall _ _ k _)

/-! ## What the pool knows -/

/-- What the pool answers to a call of `start` that is at some point. -/
def StartPoint.Agrees : StartPoint → Submitter → Prop
  | .outside, submitter | .waiting _, submitter => submitter = .outside
  | .inPool _, _ => True
  | .accepted, submitter => submitter = .accepted
  | .caught _, submitter | .threw _, submitter => submitter ≠ .accepted ∧ submitter ≠ .holding

/-- What `start` has come to agrees with what the pool knows of the task. -/
structure PoolInv (s : System) : Prop where
  pool : QueuedThreadPool.Inv s.pool
  agrees : ∀ task, (s.starts task).Agrees (s.pool.submitters task)
  /-- The call that has `m_queueMutex` is in the loop. -/
  holder : ∀ task, s.pool.queueMutex = some task → s.pool.submitters task = .holding

theorem poolInv_initial (pool : Config) : PoolInv (initial pool) :=
  ⟨QueuedThreadPool.inv_initial pool, fun _ => rfl, nofun⟩

/-- The loop of the pool's `start` ends, or goes on with nothing changed. -/
theorem attempt_submitters {pool : Config} {p p' : QueuedThreadPool.System} {task : TaskPtr}
    {answer : QueuedThreadPool.Answer} (h : p.attempt pool task answer = some p') :
    p'.executed = p.executed ∧ p'.done = p.done ∧
      ∃ submitter, p'.submitters = Function.update p.submitters task submitter ∧
        (p'.queueMutex = none ∨ p' = p) := by
  cases answer with
  | started =>
    rw [QueuedThreadPool.System.attempt] at h
    -- an idle thread, a new one, or none
    by_cases hidle : p.occupied < p.allocated
    · rw [if_pos hidle] at h
      cases h
      exact ⟨rfl, rfl, _, rfl, .inl rfl⟩
    · rw [if_neg hidle] at h
      by_cases hcapacity : (p.allocated : ℤ) < pool.maxCapacity
      · rw [if_pos hcapacity] at h
        cases h
        exact ⟨rfl, rfl, _, rfl, .inl rfl⟩
      · rw [if_neg hcapacity] at h
        cases h
  | noThreadAvailable =>
    rw [QueuedThreadPool.System.attempt] at h
    by_cases hzero : p.activeWorkerCount = 0
    · rw [if_pos hzero] at h
      cases h
      exact ⟨rfl, rfl, p.submitters task, (Function.update_eq_self task p.submitters).symm,
        .inr rfl⟩
    · rw [if_neg hzero] at h
      -- the queue takes the task, or is full
      cases hpush : pool.blockingQueue.push p.workerQueue task with
      | none =>
        rw [hpush] at h
        cases h
        exact ⟨rfl, rfl, _, rfl, .inl rfl⟩
      | some workerQueue =>
        rw [hpush] at h
        cases h
        exact ⟨rfl, rfl, _, rfl, .inl rfl⟩
  | systemError =>
    cases h
    exact ⟨rfl, rfl, _, rfl, .inl rfl⟩

/-- The pool moves only the call of `start` that the manager makes. -/
theorem pool_submitters {pool : Config} {s : System} {action : QueuedThreadPool.Action}
    {p : QueuedThreadPool.System} (hallows : s.allows action = true)
    (hstep : QueuedThreadPool.step pool s.pool action = some p) {task : TaskPtr}
    (htask : (s.starts task).isInPool = false) :
    p.submitters task = s.pool.submitters task := by
  -- the pool moves the calls that are inside it
  have hne {t : TaskPtr} (ht : (s.starts t).isInPool = true) : task ≠ t := by
    rintro rfl
    rw [htask] at ht
    cases ht
  cases action with
  | enter t isNull =>
    rw [System.allows, Bool.and_eq_true] at hallows
    obtain ⟨-, submitter, -, rfl⟩ := QueuedThreadPool.step_enter hstep
    exact Function.update_of_ne (hne hallows.1) _ _
  | lock t =>
    obtain ⟨-, rfl⟩ := QueuedThreadPool.step_lock hstep
    exact Function.update_of_ne (hne hallows) _ _
  | attempt t answer =>
    obtain ⟨-, hattempt⟩ := QueuedThreadPool.step_attempt hstep
    obtain ⟨-, -, submitter, hsubmitters, -⟩ := attempt_submitters hattempt
    rw [hsubmitters]
    exact Function.update_of_ne (hne hallows) _ _
  | run i =>
    obtain ⟨t, -, rfl⟩ := QueuedThreadPool.step_run hstep
    rfl
  | returned i =>
    obtain ⟨t, -, rfl⟩ := QueuedThreadPool.step_returned hstep
    rfl
  | getNextTask i =>
    obtain ⟨-, rfl⟩ := QueuedThreadPool.step_getNextTask hstep
    cases hqueue : s.pool.workerQueue with
    | nil => rw [QueuedThreadPool.System.getNextTask_nil hqueue]
    | cons t rest => rw [QueuedThreadPool.System.getNextTask_cons hqueue]
  | leave i =>
    obtain ⟨-, rfl⟩ := QueuedThreadPool.step_leave hstep
    rfl
  | collect =>
    obtain ⟨-, rfl⟩ := QueuedThreadPool.step_collect hstep
    rfl
  | shutdown => cases hallows

/-- Who has `m_queueMutex`, after an action of the pool. -/
theorem pool_holder {pool : Config} {p p' : QueuedThreadPool.System}
    {action : QueuedThreadPool.Action}
    (h : ∀ task, p.queueMutex = some task → p.submitters task = .holding)
    (hstep : QueuedThreadPool.step pool p action = some p') :
    ∀ task, p'.queueMutex = some task → p'.submitters task = .holding := by
  cases action with
  | enter t isNull =>
    obtain ⟨houtside, submitter, -, rfl⟩ := QueuedThreadPool.step_enter hstep
    intro task hmutex
    -- a call that enters is not the one that has the mutex
    have hholding : p.submitters task = .holding := h task hmutex
    show Function.update p.submitters t submitter task = .holding
    rw [Function.update_of_ne, hholding]
    rintro rfl
    rw [houtside] at hholding
    cases hholding
  | lock t =>
    obtain ⟨-, rfl⟩ := QueuedThreadPool.step_lock hstep
    intro task hmutex
    rw [← Option.some.inj hmutex]
    exact Function.update_self ..
  | attempt t answer =>
    obtain ⟨-, hattempt⟩ := QueuedThreadPool.step_attempt hstep
    -- the loop goes on with the mutex, or the call leaves and frees it
    obtain ⟨-, -, submitter, -, hfree | rfl⟩ := attempt_submitters hattempt
    · rw [hfree]
      exact nofun
    · exact h
  | run i =>
    obtain ⟨t, -, rfl⟩ := QueuedThreadPool.step_run hstep
    exact h
  | returned i =>
    obtain ⟨t, -, rfl⟩ := QueuedThreadPool.step_returned hstep
    exact h
  | getNextTask i =>
    obtain ⟨-, rfl⟩ := QueuedThreadPool.step_getNextTask hstep
    cases hqueue : p.workerQueue with
    | nil =>
      rw [QueuedThreadPool.System.getNextTask_nil hqueue]
      exact h
    | cons t rest =>
      rw [QueuedThreadPool.System.getNextTask_cons hqueue]
      exact h
  | leave i =>
    obtain ⟨-, rfl⟩ := QueuedThreadPool.step_leave hstep
    exact h
  | collect =>
    obtain ⟨-, rfl⟩ := QueuedThreadPool.step_collect hstep
    exact h
  | shutdown =>
    cases hstep
    exact h

namespace PoolInv

variable {s : System}

theorem setStart (h : PoolInv s) (task : TaskPtr) (point : StartPoint)
    (hpoint : point.Agrees (s.pool.submitters task)) : PoolInv (s.setStart task point) := by
  refine ⟨h.pool, ?_, h.holder⟩
  exact (Function.forall_update_iff s.starts fun t p => p.Agrees (s.pool.submitters t)).mpr
    ⟨hpoint, fun t _ => h.agrees t⟩

/-- What the pool has accepted is accepted, or its `start` is about to return. -/
theorem accepted (h : PoolInv s) {task : TaskPtr} (haccepted : s.pool.submitters task = .accepted) :
    s.starts task = .accepted ∨ (s.starts task).isInPool = true := by
  have hagrees := h.agrees task
  rw [haccepted] at hagrees
  cases hpoint : s.starts task with
  | accepted => exact .inl rfl
  | inPool caller => exact .inr rfl
  | outside => rw [hpoint] at hagrees; cases hagrees
  | waiting caller => rw [hpoint] at hagrees; cases hagrees
  | caught caller => rw [hpoint] at hagrees; exact absurd rfl hagrees.1
  | threw e => rw [hpoint] at hagrees; exact absurd rfl hagrees.1

end PoolInv

/-- Manager and pool agree after each step. -/
theorem poolInv_step {pool : Config} {s s' : System} (a : Action) (h : PoolInv s)
    (hstep : step pool s a = some s') : PoolInv s' := by
  -- it is enough to look at the pool and at the calls of `start`
  have hsame {t : System} (h : PoolInv t) (hpool : s'.pool = t.pool)
      (hstarts : s'.starts = t.starts) : PoolInv s' := by
    refine ⟨?_, fun task => ?_, ?_⟩
    · rw [hpool]
      exact h.pool
    · rw [hpool, hstarts]
      exact h.agrees task
    · rw [hpool]
      exact h.holder
  cases a with
  | start task caller =>
    obtain ⟨hnew, -, rfl⟩ := step_start hstep
    have hagrees := h.agrees task
    rw [hnew] at hagrees
    exact hsame (h.setStart task (.waiting caller) hagrees) rfl rfl
  | startLock task =>
    obtain ⟨caller, hwaiting, -, ⟨e, -, rfl⟩ | ⟨-, -, rfl⟩⟩ := step_startLock hstep
    · have hagrees := h.agrees task
      rw [hwaiting] at hagrees
      refine hsame (h.setStart task (.threw e) ?_) rfl rfl
      rw [show s.pool.submitters task = .outside from hagrees]
      exact ⟨nofun, nofun⟩
    · exact hsame (h.setStart task (.inPool caller) trivial) rfl rfl
  | startReturned task =>
    obtain ⟨caller, -, ⟨haccepted, rfl⟩ | ⟨e, hthrew, rfl⟩⟩ := step_startReturned hstep
    · exact hsame (h.setStart task .accepted haccepted) rfl rfl
    · refine hsame (h.setStart task (.caught caller) ?_) rfl rfl
      rw [hthrew]
      exact ⟨nofun, nofun⟩
  | startCaught task =>
    obtain ⟨caller, e, hcaught, -, rfl⟩ := step_startCaught hstep
    -- a refused call has left the pool
    have hagrees := h.agrees task
    rw [hcaught] at hagrees
    exact hsame (h.setStart task (.threw e) hagrees) rfl rfl
  | pool action =>
    obtain ⟨hallows, p, hpool, rfl⟩ := step_pool hstep
    obtain ⟨tasks, heq⟩ := s.afterPool_eq p action
    rw [heq]
    refine ⟨QueuedThreadPool.inv_step action h.pool hpool, fun task => ?_,
      pool_holder h.holder hpool⟩
    -- while a call is inside the pool nothing is asked of it
    cases hin : (s.starts task).isInPool with
    | true =>
      show (s.starts task).Agrees (p.submitters task)
      cases hpoint : s.starts task with
      | inPool caller => trivial
      | _ => rw [hpoint] at hin; cases hin
    | false =>
      show (s.starts task).Agrees (p.submitters task)
      rw [pool_submitters hallows hpool hin]
      exact h.agrees task
  | executed task result =>
    obtain ⟨-, -, rfl⟩ := step_executed hstep
    exact hsame h rfl rfl
  | onComplete task =>
    obtain ⟨result, what, -, -, rfl⟩ := step_onComplete hstep
    exact hsame h rfl rfl
  | callback task =>
    obtain ⟨result, what, -, rfl⟩ := step_callback hstep
    exact hsame h rfl rfl
  | returned task thrown =>
    obtain ⟨result, what, -, -, rfl⟩ := step_returned hstep
    exact hsame h rfl rfl
  | finish task =>
    obtain ⟨result, thrown, -, rfl⟩ := step_finish hstep
    exact hsame h rfl rfl
  | shutdown k caller =>
    obtain ⟨-, -, rfl⟩ := step_shutdown hstep
    exact hsame h rfl rfl
  | shutdownLock k =>
    obtain ⟨caller, -, -, ⟨-, rfl⟩ | ⟨-, rfl⟩⟩ := step_shutdownLock hstep
    · exact hsame h rfl rfl
    · exact ⟨{ h.pool with }, h.agrees, h.holder⟩
  | cancel k =>
    obtain ⟨caller, copy, rest, -, ⟨task, tasks, -, rfl⟩ | ⟨-, rfl⟩⟩ := step_cancel hstep
    · exact hsame h rfl rfl
    · exact hsame h rfl rfl
  | get k =>
    obtain ⟨caller, task, rest, -, -, rfl⟩ := step_get hstep
    exact hsame h rfl rfl
  | joinLock k =>
    obtain ⟨caller, -, -, rfl⟩ := step_joinLock hstep
    exact hsame h rfl rfl
  | join k =>
    obtain ⟨caller, -, hleft, rfl⟩ := step_join hstep
    refine ⟨{ h.pool with occupied_le := ?_, allocated_lt := Nat.two_pow_pos 31 }, h.agrees,
      h.holder⟩
    -- no worker is on a thread
    refine Nat.le_of_eq (List.countP_eq_zero.mpr fun w hw => ?_)
    rw [hleft w hw]
    exact Bool.false_ne_true

/-! ## Where the tasks are -/

/-- Whether a task was begun, and has finished, agrees with what the pool has run. -/
structure TaskInv (s : System) : Prop where
  executed : ∀ task, (s.tasks task).isNotRun = true ↔ s.pool.executed.count task = 0
  done : ∀ task ∈ s.pool.done, (s.tasks task).isFinished = true

theorem taskInv_initial (pool : Config) : TaskInv (initial pool) := ⟨fun _ => ⟨fun _ => rfl,
  fun _ => rfl⟩, nofun⟩

/-- What an action of the pool adds to the calls of `run`, and to those that have returned. -/
theorem pool_history {pool : Config} {p p' : QueuedThreadPool.System}
    {action : QueuedThreadPool.Action} (hstep : QueuedThreadPool.step pool p action = some p') :
    (∃ i task, action = .run i ∧ p.workers[i]? = some (.given task) ∧
      p'.executed = p.executed ++ [task] ∧ p'.done = p.done) ∨
    (∃ i task, action = .returned i ∧ p.workers[i]? = some (.running task) ∧
      p'.executed = p.executed ∧ p'.done = p.done ++ [task]) ∨
    ((∀ i, action ≠ .run i) ∧ p'.executed = p.executed ∧ p'.done = p.done) := by
  -- three kinds of steps: a task begins, a task returns, and the rest
  cases action with
  | run i =>
    obtain ⟨task, hi, rfl⟩ := QueuedThreadPool.step_run hstep
    exact .inl ⟨i, task, rfl, hi, rfl, rfl⟩
  | returned i =>
    obtain ⟨task, hi, rfl⟩ := QueuedThreadPool.step_returned hstep
    exact .inr (.inl ⟨i, task, rfl, hi, rfl, rfl⟩)
  | enter task isNull =>
    obtain ⟨-, submitter, -, rfl⟩ := QueuedThreadPool.step_enter hstep
    exact .inr (.inr ⟨nofun, rfl, rfl⟩)
  | lock task =>
    obtain ⟨-, rfl⟩ := QueuedThreadPool.step_lock hstep
    exact .inr (.inr ⟨nofun, rfl, rfl⟩)
  | attempt task answer =>
    obtain ⟨-, hattempt⟩ := QueuedThreadPool.step_attempt hstep
    obtain ⟨hexecuted, hdone, -⟩ := attempt_submitters hattempt
    exact .inr (.inr ⟨nofun, hexecuted, hdone⟩)
  | getNextTask i =>
    obtain ⟨-, rfl⟩ := QueuedThreadPool.step_getNextTask hstep
    refine .inr (.inr ⟨nofun, ?_⟩)
    cases hqueue : p.workerQueue with
    | nil =>
      rw [QueuedThreadPool.System.getNextTask_nil hqueue]
      exact ⟨rfl, rfl⟩
    | cons task rest =>
      rw [QueuedThreadPool.System.getNextTask_cons hqueue]
      exact ⟨rfl, rfl⟩
  | leave i =>
    obtain ⟨-, rfl⟩ := QueuedThreadPool.step_leave hstep
    exact .inr (.inr ⟨nofun, rfl, rfl⟩)
  | collect =>
    obtain ⟨-, rfl⟩ := QueuedThreadPool.step_collect hstep
    exact .inr (.inr ⟨nofun, rfl, rfl⟩)
  | shutdown =>
    cases hstep
    exact .inr (.inr ⟨nofun, rfl, rfl⟩)

/-- The worker begins the task that it was given. -/
theorem System.afterPool_run {s : System} {p : QueuedThreadPool.System} {i : ℕ} {task : TaskPtr}
    (hi : s.pool.workers[i]? = some (.given task)) :
    s.afterPool p (.run i) = { s.setTask task .execute with pool := p } := by
  rw [afterPool, hi]

theorem System.afterPool_of_ne {s : System} {p : QueuedThreadPool.System}
    {action : QueuedThreadPool.Action} (hne : ∀ i, action ≠ .run i) :
    s.afterPool p action = { s with pool := p } := by
  cases action with
  | run i => exact absurd rfl (hne i)
  | _ => rfl

/-- A worker that is to call `run` of its task is the first to do so. -/
theorem given_notRun (pool : Config) {s : System} {i : ℕ} {task : TaskPtr}
    (hpool : QueuedThreadPool.Inv s.pool) (htask : TaskInv s)
    (hi : s.pool.workers[i]? = some (.given task)) : (s.tasks task).isNotRun = true := by
  rw [htask.executed]
  -- otherwise the task would be executed twice
  have hstep : QueuedThreadPool.step pool s.pool (.run i) = some { s.pool with
      workers := s.pool.workers.set i (.running task)
      executed := s.pool.executed ++ [task] } := by rw [QueuedThreadPool.step, hi]
  have honce : (s.pool.executed ++ [task]).count task ≤ 1 :=
    (QueuedThreadPool.inv_step _ hpool hstep).safe.executed_once task
  rw [List.count_append, List.count_singleton_self] at honce
  omega

namespace TaskInv

variable {s : System}

/-- A task that runs goes on. -/
theorem setTask (h : TaskInv s) (task : TaskPtr) (point : TaskPoint)
    (hbefore : (s.tasks task).isNotRun = false) (hafter : point.isNotRun = false)
    (hfinished : (s.tasks task).isFinished = true → point.isFinished = true) :
    TaskInv (s.setTask task point) := by
  constructor
  · refine (Function.forall_update_iff s.tasks fun t p =>
      p.isNotRun = true ↔ s.pool.executed.count t = 0).mpr ⟨?_, fun t _ => h.executed t⟩
    rw [← h.executed task, hbefore, hafter]
  · refine (Function.forall_update_iff s.tasks fun t p =>
      t ∈ s.pool.done → p.isFinished = true).mpr ⟨fun hmem => ?_, fun t _ => h.done t⟩
    exact hfinished (h.done task hmem)

/-- A worker calls `run` of the task. -/
theorem run (h : TaskInv s) {task : TaskPtr} {p : QueuedThreadPool.System}
    (hnotRun : (s.tasks task).isNotRun = true)
    (hexecuted : p.executed = s.pool.executed ++ [task]) (hdone : p.done = s.pool.done) :
    TaskInv { s.setTask task .execute with pool := p } := by
  constructor
  · refine (Function.forall_update_iff s.tasks fun t point =>
      point.isNotRun = true ↔ p.executed.count t = 0).mpr ⟨?_, fun t ht => ?_⟩
    · rw [hexecuted, List.count_append, List.count_singleton_self]
      simp [TaskPoint.isNotRun]
    · rw [hexecuted, List.count_append, List.count_singleton, if_neg (by simpa using Ne.symm ht)]
      exact h.executed t
  · refine (Function.forall_update_iff s.tasks fun t point =>
      t ∈ p.done → point.isFinished = true).mpr ⟨fun hmem => ?_, fun t _ hmem => ?_⟩
    · rw [hdone] at hmem
      have hfinished := h.done task hmem
      cases hpoint : s.tasks task with
      | notRun => rw [hpoint] at hfinished; cases hfinished
      | _ => rw [hpoint] at hnotRun; cases hnotRun
    · rw [hdone] at hmem
      exact h.done t hmem

end TaskInv

/-- What has been executed was begun. -/
theorem afterExecute_isNotRun (result : ExecuteResult) :
    (afterExecute result).isNotRun = false := by
  unfold afterExecute
  cases notification result <;> rfl

/-- Tasks and workers agree after each step. -/
theorem taskInv_step {pool : Config} {s s' : System} (a : Action) (hpool : PoolInv s)
    (h : TaskInv s) (hstep : step pool s a = some s') : TaskInv s' := by
  cases a with
  | pool action =>
    obtain ⟨hallows, p, htaken, rfl⟩ := step_pool hstep
    rcases pool_history htaken with ⟨i, task, rfl, hi, hexecuted, hdone⟩ |
      ⟨i, task, rfl, hi, hexecuted, hdone⟩ | ⟨hne, hexecuted, hdone⟩
    · rw [System.afterPool_run hi]
      exact h.run (given_notRun pool hpool.pool h hi) hexecuted hdone
    · -- the manager lets the worker go on only when `run` has returned
      rw [System.afterPool_of_ne (by nofun)]
      rw [System.allows, hi] at hallows
      -- the task that begins was counted nowhere
      refine ⟨fun t => ?_, fun t hmem => ?_⟩
      · show _ ↔ p.executed.count t = 0
        rw [hexecuted]
        exact h.executed t
      · change t ∈ p.done at hmem
        rw [hdone, List.mem_append, List.mem_singleton] at hmem
        rcases hmem with hold | rfl
        · exact h.done t hold
        · exact hallows
    · rw [System.afterPool_of_ne hne]
      -- the task that returns has finished
      refine ⟨fun t => ?_, fun t hmem => ?_⟩
      · show _ ↔ p.executed.count t = 0
        rw [hexecuted]
        exact h.executed t
      · change t ∈ p.done at hmem
        rw [hdone] at hmem
        exact h.done t hmem
  | executed task result =>
    obtain ⟨hpoint, -, rfl⟩ := step_executed hstep
    exact h.setTask task (afterExecute result) (by rw [hpoint]; rfl) (afterExecute_isNotRun result)
      (by rw [hpoint]; nofun)
  | onComplete task =>
    obtain ⟨result, what, hpoint, -, rfl⟩ := step_onComplete hstep
    -- the task goes on, and stays one that was run
    have hset := h.setTask task (.callback result what) (by rw [hpoint]; rfl) rfl
      (by rw [hpoint]; nofun)
    exact ⟨hset.executed, hset.done⟩
  | callback task =>
    obtain ⟨result, what, hpoint, rfl⟩ := step_callback hstep
    have hset := h.setTask task (.called result what) (by rw [hpoint]; rfl) rfl
      (by rw [hpoint]; nofun)
    exact ⟨hset.executed, hset.done⟩
  | returned task thrown =>
    obtain ⟨result, what, hpoint, -, rfl⟩ := step_returned hstep
    exact h.setTask task (.leaving result thrown) (by rw [hpoint]; rfl) rfl (by rw [hpoint]; nofun)
  | finish task =>
    obtain ⟨result, thrown, hpoint, rfl⟩ := step_finish hstep
    exact h.setTask task (.finished result _) (by rw [hpoint]; rfl) rfl fun _ => rfl
  | start task caller =>
    obtain ⟨-, -, rfl⟩ := step_start hstep
    exact ⟨h.executed, h.done⟩
  | startLock task =>
    obtain ⟨caller, -, -, ⟨e, -, rfl⟩ | ⟨-, -, rfl⟩⟩ := step_startLock hstep
    · exact ⟨h.executed, h.done⟩
    · exact ⟨h.executed, h.done⟩
  | startReturned task =>
    obtain ⟨caller, -, ⟨-, rfl⟩ | ⟨e, -, rfl⟩⟩ := step_startReturned hstep
    · exact ⟨h.executed, h.done⟩
    · exact ⟨h.executed, h.done⟩
  | startCaught task =>
    obtain ⟨caller, e, -, -, rfl⟩ := step_startCaught hstep
    exact ⟨h.executed, h.done⟩
  | shutdown k caller =>
    obtain ⟨-, -, rfl⟩ := step_shutdown hstep
    exact ⟨h.executed, h.done⟩
  | shutdownLock k =>
    obtain ⟨caller, -, -, ⟨-, rfl⟩ | ⟨-, rfl⟩⟩ := step_shutdownLock hstep
    · exact ⟨h.executed, h.done⟩
    · exact ⟨h.executed, h.done⟩
  | cancel k =>
    obtain ⟨caller, copy, rest, -, ⟨task, tasks, -, rfl⟩ | ⟨-, rfl⟩⟩ := step_cancel hstep
    · exact ⟨h.executed, h.done⟩
    · exact ⟨h.executed, h.done⟩
  | get k =>
    obtain ⟨caller, task, rest, -, -, rfl⟩ := step_get hstep
    exact ⟨h.executed, h.done⟩
  | joinLock k =>
    obtain ⟨caller, -, -, rfl⟩ := step_joinLock hstep
    exact ⟨h.executed, h.done⟩
  | join k =>
    obtain ⟨caller, -, -, rfl⟩ := step_join hstep
    exact ⟨h.executed, h.done⟩

/-! ## Which threads are in a call -/

/-- A thread is inside one call at most, the one that is pending for it. -/
structure CallerInv (s : System) : Prop where
  pending : ∀ task call, s.pending task = some call ↔ s.callerOf call = some (.task task)
  userCode : ∀ task, s.pending task ≠ none → (s.tasks task).runsUserCode = true

theorem callerInv_initial (pool : Config) : CallerInv (initial pool) := by
  refine ⟨fun task call => ?_, fun task hne => absurd rfl hne⟩
  cases call with
  | start t => exact ⟨nofun, nofun⟩
  | shutdown k => exact ⟨nofun, nofun⟩

namespace CallerInv

variable {s s' : System}

/-- A thread that is in no call may enter one. -/
theorem enter (h : CallerInv s) {caller : Caller} {call : Call} (hcan : s.canCall caller = true)
    (hnone : s.callerOf call = none) (hpending : s'.pending = caller.update s.pending (some call))
    (hcaller : s'.callerOf = Function.update s.callerOf call (some caller))
    (htasks : s'.tasks = s.tasks) : CallerInv s' := by
  -- the call is new, so no thread waits in it
  have hnot (task : TaskPtr) : s.pending task ≠ some call := by
    rw [Ne, h.pending task call, hnone]
    nofun
  cases caller with
  | application =>
    -- a thread of the application is not recorded
    have hsame : s'.pending = s.pending := hpending
    refine ⟨fun task c => ?_, fun task => ?_⟩
    · rw [hsame, hcaller]
      by_cases hc : c = call
      · rw [hc, Function.update_self]
        exact ⟨fun heq => absurd heq (hnot task), nofun⟩
      · rw [Function.update_of_ne hc]
        exact h.pending task c
    · rw [hsame, htasks]
      exact h.userCode task
  | task t =>
    have hupdate : s'.pending = Function.update s.pending t (some call) := hpending
    rw [System.canCall, Bool.and_eq_true, Option.isNone_iff_eq_none] at hcan
    -- the task waits in this call from now on
    refine ⟨fun task c => ?_, fun task hne => ?_⟩
    · rw [hupdate, hcaller]
      by_cases hc : c = call
      · rw [hc, Function.update_self]
        by_cases ht : task = t
        · rw [ht, Function.update_self]
          simp
        · rw [Function.update_of_ne ht]
          exact ⟨fun heq => absurd heq (hnot task), fun heq => absurd (by simpa using heq.symm) ht⟩
      · rw [Function.update_of_ne hc, ← h.pending task c]
        by_cases ht : task = t
        · rw [ht, Function.update_self, hcan.2]
          simp [Ne.symm hc]
        · rw [Function.update_of_ne ht]
    · rw [htasks]
      by_cases ht : task = t
      · rw [ht]
        exact hcan.1
      · rw [hupdate, Function.update_of_ne ht] at hne
        exact h.userCode task hne

/-- A thread leaves the call it is in. -/
theorem leave (h : CallerInv s) {caller : Caller} {call : Call}
    (hsome : s.callerOf call = some caller) (hpending : s'.pending = caller.update s.pending none)
    (hcaller : s'.callerOf = Function.update s.callerOf call none) (htasks : s'.tasks = s.tasks) :
    CallerInv s' := by
  -- each call has one caller
  have hof (task : TaskPtr) (c : Call) (hc : c ≠ call) :
      s.pending task = some c ↔ s'.callerOf c = some (.task task) := by
    rw [hcaller, Function.update_of_ne hc]
    exact h.pending task c
  cases caller with
  | application =>
    have hsame : s'.pending = s.pending := hpending
    refine ⟨fun task c => ?_, fun task => ?_⟩
    · by_cases hc : c = call
      · rw [hsame, hc, h.pending task call, hsome, hcaller, Function.update_self]
        simp
      · rw [hsame]
        exact hof task c hc
    · rw [hsame, htasks]
      exact h.userCode task
  | task t =>
    have hupdate : s'.pending = Function.update s.pending t none := hpending
    have hself : s.pending t = some call := (h.pending t call).mpr hsome
    -- the task is in no call any more
    refine ⟨fun task c => ?_, fun task hne => ?_⟩
    · by_cases hc : c = call
      · rw [hc, hupdate, hcaller, Function.update_self]
        by_cases ht : task = t
        · rw [ht, Function.update_self]
          simp
        · rw [Function.update_of_ne ht, h.pending task call, hsome]
          simp [Ne.symm ht]
      · rw [← hof task c hc, hupdate]
        by_cases ht : task = t
        · rw [ht, Function.update_self, hself]
          simp [Ne.symm hc]
        · rw [Function.update_of_ne ht]
    · rw [hupdate] at hne
      rw [htasks]
      by_cases ht : task = t
      · rw [ht, Function.update_self] at hne
        exact absurd rfl hne
      · rw [Function.update_of_ne ht] at hne
        exact h.userCode task hne

/-- No thread enters or leaves a call, and those in a call stay where they are. -/
theorem keep (h : CallerInv s) (hpending : s'.pending = s.pending)
    (hcaller : s'.callerOf = s.callerOf)
    (htasks : ∀ task, s.pending task ≠ none → s'.tasks task = s.tasks task) : CallerInv s' := by
  refine ⟨fun task call => ?_, fun task hne => ?_⟩
  · rw [hpending, hcaller]
    exact h.pending task call
  · rw [hpending] at hne
    rw [htasks task hne]
    exact h.userCode task hne

/-- A call goes on. -/
theorem move (h : CallerInv s) {call : Call} {caller : Option Caller}
    (hpending : s'.pending = s.pending)
    (hcaller : s'.callerOf = Function.update s.callerOf call caller)
    (hsame : s.callerOf call = caller) (htasks : s'.tasks = s.tasks) : CallerInv s' := by
  refine h.keep hpending ?_ fun task _ => by rw [htasks]
  rw [hcaller, ← hsame, Function.update_eq_self]

/-- The thread of a task that is in no call goes on. -/
theorem setTask (h : CallerInv s) {task : TaskPtr} {point : TaskPoint}
    (hnone : s.pending task = none) (hpending : s'.pending = s.pending)
    (hcaller : s'.callerOf = s.callerOf)
    (htasks : s'.tasks = Function.update s.tasks task point) : CallerInv s' := by
  refine h.keep hpending hcaller fun t hne => ?_
  rw [htasks, Function.update_of_ne]
  rintro rfl
  exact hne hnone

/-- A task that runs no code of the user's is inside no call. -/
theorem pending_eq_none (h : CallerInv s) (task : TaskPtr)
    (hpoint : (s.tasks task).runsUserCode = false) : s.pending task = none := by
  by_contra hne
  rw [h.userCode task hne] at hpoint
  cases hpoint

end CallerInv

/-- No thread is in two calls after each step. -/
theorem callerInv_step {pool : Config} {s s' : System} (a : Action) (hpool : PoolInv s)
    (htask : TaskInv s) (h : CallerInv s) (hstep : step pool s a = some s') : CallerInv s' := by
  cases a with
  | start task caller =>
    obtain ⟨hnew, hcan, rfl⟩ := step_start hstep
    refine h.enter hcan ?_ rfl (s.setStart_perCall _ _ task _) rfl
    simp [System.callerOf, System.perCall, hnew, StartPoint.caller?]
  | startLock task =>
    obtain ⟨caller, hwaiting, -, ⟨e, -, rfl⟩ | ⟨-, -, rfl⟩⟩ := step_startLock hstep
    -- the call is refused and returns
    · refine h.leave ?_ rfl (s.setStart_perCall _ _ task _) rfl
      simp [System.callerOf, System.perCall, hwaiting, StartPoint.caller?]
    -- the call goes on, and its caller still waits
    · refine h.move rfl (s.setStart_perCall _ _ task _) ?_ rfl
      simp [System.callerOf, System.perCall, hwaiting, StartPoint.caller?]
  | startReturned task =>
    obtain ⟨caller, hin, ⟨-, rfl⟩ | ⟨e, -, rfl⟩⟩ := step_startReturned hstep
    · refine h.leave ?_ rfl (s.setStart_perCall _ _ task _) rfl
      simp [System.callerOf, System.perCall, hin, StartPoint.caller?]
    · refine h.move rfl (s.setStart_perCall _ _ task _) ?_ rfl
      simp [System.callerOf, System.perCall, hin, StartPoint.caller?]
  | startCaught task =>
    obtain ⟨caller, e, hcaught, -, rfl⟩ := step_startCaught hstep
    refine h.leave ?_ rfl (s.setStart_perCall _ _ task _) rfl
    simp [System.callerOf, System.perCall, hcaught, StartPoint.caller?]
  | pool action =>
    obtain ⟨-, p, htaken, rfl⟩ := step_pool hstep
    rcases pool_history htaken with ⟨i, task, rfl, hi, -, -⟩ | ⟨i, task, rfl, -, -, -⟩ | ⟨hne, -, -⟩
    · rw [System.afterPool_run hi]
      have hnotRun := given_notRun pool hpool.pool htask hi
      refine h.setTask (h.pending_eq_none task ?_) rfl rfl rfl
      cases hpoint : s.tasks task with
      | notRun => rfl
      | _ => rw [hpoint] at hnotRun; cases hnotRun
    · exact h.keep rfl rfl fun _ _ => rfl
    · rw [System.afterPool_of_ne hne]
      exact h.keep rfl rfl fun _ _ => rfl
  | executed task result =>
    obtain ⟨-, hnone, rfl⟩ := step_executed hstep
    exact h.setTask hnone rfl rfl rfl
  | onComplete task =>
    obtain ⟨result, what, hpoint, -, rfl⟩ := step_onComplete hstep
    exact h.setTask (h.pending_eq_none task (by rw [hpoint]; rfl)) rfl rfl rfl
  | callback task =>
    obtain ⟨result, what, hpoint, rfl⟩ := step_callback hstep
    exact h.setTask (h.pending_eq_none task (by rw [hpoint]; rfl)) rfl rfl rfl
  | returned task thrown =>
    obtain ⟨result, what, -, hnone, rfl⟩ := step_returned hstep
    exact h.setTask hnone rfl rfl rfl
  | finish task =>
    obtain ⟨result, thrown, hpoint, rfl⟩ := step_finish hstep
    exact h.setTask (h.pending_eq_none task (by rw [hpoint]; rfl)) rfl rfl rfl
  | shutdown k caller =>
    obtain ⟨hout, hcan, rfl⟩ := step_shutdown hstep
    refine h.enter hcan ?_ rfl (s.setShutdown_perCall _ _ k _) rfl
    simp [System.callerOf, System.perCall, hout, ShutdownPoint.caller?]
  | shutdownLock k =>
    obtain ⟨caller, hwaiting, -, ⟨-, rfl⟩ | ⟨-, rfl⟩⟩ := step_shutdownLock hstep
    · refine h.leave ?_ rfl (s.setShutdown_perCall _ _ k _) rfl
      simp [System.callerOf, System.perCall, hwaiting, ShutdownPoint.caller?]
    · refine h.move rfl (s.setShutdown_perCall _ _ k _) ?_ rfl
      simp [System.callerOf, System.perCall, hwaiting, ShutdownPoint.caller?]
  | cancel k =>
    obtain ⟨caller, copy, rest, hpoint, ⟨task, tasks, -, rfl⟩ | ⟨-, rfl⟩⟩ := step_cancel hstep
    · refine h.move rfl (s.setShutdown_perCall _ _ k _) ?_ rfl
      simp [System.callerOf, System.perCall, hpoint, ShutdownPoint.caller?]
    · refine h.move rfl (s.setShutdown_perCall _ _ k _) ?_ rfl
      simp [System.callerOf, System.perCall, hpoint, ShutdownPoint.caller?]
  | get k =>
    obtain ⟨caller, task, rest, hpoint, -, rfl⟩ := step_get hstep
    refine h.move rfl (s.setShutdown_perCall _ _ k _) ?_ rfl
    simp [System.callerOf, System.perCall, hpoint, ShutdownPoint.caller?]
  | joinLock k =>
    obtain ⟨caller, hpoint, -, rfl⟩ := step_joinLock hstep
    refine h.move rfl (s.setShutdown_perCall _ _ k _) ?_ rfl
    simp [System.callerOf, System.perCall, hpoint, ShutdownPoint.caller?]
  | join k =>
    obtain ⟨caller, hpoint, -, rfl⟩ := step_join hstep
    refine h.leave ?_ rfl (s.setShutdown_perCall _ _ k _) rfl
    simp [System.callerOf, System.perCall, hpoint, ShutdownPoint.caller?]

/-! ## What is in the list -/

/-- What is listed was started; while the pool is asked for a task, that task is the last. -/
structure ListInv (s : System) : Prop where
  new : ∀ task ∈ s.executionTaskList, (s.starts task).isNew = false
  /-- While the pool is asked, the task is the last of the list. -/
  last : ∀ task, (s.starts task).isInPool = true →
    ∃ before, s.executionTaskList = before ++ [task] ∧ task ∉ before

theorem listInv_initial (pool : Config) : ListInv (initial pool) := ⟨nofun, nofun⟩

/-- While the mutex is free no `start` is inside the pool. -/
theorem MutexInv.not_inPool {s : System} (h : MutexInv s) (hmutex : s.instanceMutex = none)
    (task : TaskPtr) : (s.starts task).isInPool = false := by
  rw [← Bool.not_eq_true]
  intro hin
  have hsome := (h (.start task)).mp hin
  rw [hmutex] at hsome
  cases hsome

namespace ListInv

variable {s s' : System}

/-- A call of `start` moves, and the list stays. -/
theorem setStart (h : ListInv s) (task : TaskPtr) {point : StartPoint}
    (hlist : s'.executionTaskList = s.executionTaskList)
    (hstarts : s'.starts = Function.update s.starts task point)
    (hnew : point.isNew = true → (s.starts task).isNew = true)
    (hin : point.isInPool = false) : ListInv s' := by
  refine ⟨?_, ?_⟩
  · rw [hlist, hstarts]
    refine (Function.forall_update_iff s.starts fun t p =>
      t ∈ s.executionTaskList → p.isNew = false).mpr ⟨fun hmem => ?_, fun t _ => h.new t⟩
    rw [← Bool.not_eq_true]
    intro hpoint
    have hbefore := h.new task hmem
    rw [hnew hpoint] at hbefore
    cases hbefore
  · rw [hlist, hstarts]
    refine (Function.forall_update_iff s.starts fun t p => p.isInPool = true →
      ∃ before, s.executionTaskList = before ++ [t] ∧ t ∉ before).mpr ⟨?_, fun t _ => h.last t⟩
    rw [hin]
    nofun

/-- A task is removed; the mutex is free. -/
theorem of_removeTask (task : TaskPtr)
    (hlist : s'.executionTaskList = s.executionTaskList.erase task)
    (hnew : ∀ t ∈ s.executionTaskList, (s'.starts t).isNew = false)
    (hin : ∀ t, (s'.starts t).isInPool = false) : ListInv s' := by
  refine ⟨fun t hmem => ?_, fun t hpoint => ?_⟩
  · rw [hlist] at hmem
    exact hnew t (List.mem_of_mem_erase hmem)
  · rw [hin t] at hpoint
    cases hpoint

end ListInv

/-- The list is right after each step. -/
theorem listInv_step {pool : Config} {s s' : System} (a : Action) (hmutex : MutexInv s)
    (h : ListInv s) (hstep : step pool s a = some s') : ListInv s' := by
  cases a with
  | start task caller =>
    obtain ⟨hnew, -, rfl⟩ := step_start hstep
    exact h.setStart task rfl rfl (fun _ => by rw [hnew]; rfl) rfl
  | startLock task =>
    obtain ⟨caller, hwaiting, hfree, ⟨e, -, rfl⟩ | ⟨-, -, rfl⟩⟩ := step_startLock hstep
    · exact h.setStart task rfl rfl nofun rfl
    · have hnotMem : task ∉ s.executionTaskList := by
        intro hmem
        have hbefore := h.new task hmem
        rw [hwaiting] at hbefore
        cases hbefore
      refine ⟨fun t hmem => ?_, fun t hin => ?_⟩
      · change t ∈ s.executionTaskList ++ [task] at hmem
        show (Function.update s.starts task (.inPool caller) t).isNew = false
        rw [List.mem_append, List.mem_singleton] at hmem
        by_cases ht : t = task
        · rw [ht, Function.update_self]
          rfl
        · rw [Function.update_of_ne ht]
          exact h.new t (hmem.resolve_right ht)
      · by_cases ht : t = task
        · rw [ht]
          exact ⟨s.executionTaskList, rfl, hnotMem⟩
        · -- nobody else has the mutex
          change (Function.update s.starts task (.inPool caller) t).isInPool = true at hin
          rw [Function.update_of_ne ht, hmutex.not_inPool hfree t] at hin
          cases hin
  | startReturned task =>
    obtain ⟨caller, -, ⟨-, rfl⟩ | ⟨e, -, rfl⟩⟩ := step_startReturned hstep
    · exact h.setStart task rfl rfl nofun rfl
    · exact h.setStart task rfl rfl nofun rfl
  | startCaught task =>
    obtain ⟨caller, e, -, hfree, rfl⟩ := step_startCaught hstep
    refine .of_removeTask task (s := s) rfl (fun t hmem => ?_) ?_
    · show (Function.update s.starts task (.threw e) t).isNew = false
      by_cases ht : t = task
      · rw [ht, Function.update_self]
        rfl
      · rw [Function.update_of_ne ht]
        exact h.new t hmem
    · exact (Function.forall_update_iff s.starts fun _ p => p.isInPool = false).mpr
        ⟨rfl, fun t _ => hmutex.not_inPool hfree t⟩
  | onComplete task =>
    obtain ⟨result, what, -, hfree, rfl⟩ := step_onComplete hstep
    exact .of_removeTask task (s := s) rfl h.new (hmutex.not_inPool hfree)
  | pool action =>
    obtain ⟨-, p, -, rfl⟩ := step_pool hstep
    obtain ⟨tasks, heq⟩ := s.afterPool_eq p action
    rw [heq]
    exact ⟨h.new, h.last⟩
  | executed task result =>
    obtain ⟨-, -, rfl⟩ := step_executed hstep
    exact ⟨h.new, h.last⟩
  | callback task =>
    obtain ⟨result, what, -, rfl⟩ := step_callback hstep
    exact ⟨h.new, h.last⟩
  | returned task thrown =>
    obtain ⟨result, what, -, -, rfl⟩ := step_returned hstep
    exact ⟨h.new, h.last⟩
  | finish task =>
    obtain ⟨result, thrown, -, rfl⟩ := step_finish hstep
    exact ⟨h.new, h.last⟩
  | shutdown k caller =>
    obtain ⟨-, -, rfl⟩ := step_shutdown hstep
    exact ⟨h.new, h.last⟩
  | shutdownLock k =>
    obtain ⟨caller, -, -, ⟨-, rfl⟩ | ⟨-, rfl⟩⟩ := step_shutdownLock hstep
    · exact ⟨h.new, h.last⟩
    · exact ⟨h.new, h.last⟩
  | cancel k =>
    obtain ⟨caller, copy, rest, -, ⟨task, tasks, -, rfl⟩ | ⟨-, rfl⟩⟩ := step_cancel hstep
    · exact ⟨h.new, h.last⟩
    · exact ⟨h.new, h.last⟩
  | get k =>
    obtain ⟨caller, task, rest, -, -, rfl⟩ := step_get hstep
    exact ⟨h.new, h.last⟩
  | joinLock k =>
    obtain ⟨caller, -, -, rfl⟩ := step_joinLock hstep
    exact ⟨h.new, h.last⟩
  | join k =>
    obtain ⟨caller, -, -, rfl⟩ := step_join hstep
    exact ⟨h.new, h.last⟩

/-! ## What a shutdown has done -/

/-- The pool has answered. -/
def StartPoint.isDecided : StartPoint → Bool
  | accepted | caught _ | threw _ => true
  | outside | waiting _ | inPool _ => false

/-- A `start` is decided when it is neither new nor inside the pool. -/
theorem StartPoint.isDecided_eq (point : StartPoint) :
    point.isDecided = (!point.isNew && !point.isInPool) := by
  cases point <;> rfl

/-- What each call of `gracefulShutdown` has behind it, and what it still waits for. -/
structure ShutdownInv (s : System) : Prop where
  terminated : ∀ k, (s.shutdowns k).hasTerminated = true → s.terminated = true
  unique : ∀ j k, (s.shutdowns j).hasTerminated = true → (s.shutdowns k).hasTerminated = true →
    j = k
  noStart : s.terminated = true → ∀ task, (s.starts task).isInPool = false
  returned : ∀ k, s.shutdowns k = .returned → s.released = true
  released : s.released = true → s.terminated = true ∧ ∀ w ∈ s.pool.workers, w = .left
  toGet : ∀ k, ∀ task ∈ (s.shutdowns k).toGet, (s.starts task).isDecided = true
  listed : ∀ k, (s.shutdowns k).hasTerminated = true → ∀ task ∈ s.executionTaskList,
    task ∈ (s.shutdowns k).toGet ∨ (s.tasks task).isFinished = true

theorem shutdownInv_initial (pool : Config) : ShutdownInv (initial pool) where
  terminated _ := nofun
  unique _ _ := nofun
  noStart := nofun
  returned _ := nofun
  released := nofun
  toGet _ _ := nofun
  listed _ := nofun

namespace ShutdownInv

variable {s s' : System}

/-- No call of `gracefulShutdown` moves. -/
theorem keep (h : ShutdownInv s) (hshutdowns : s'.shutdowns = s.shutdowns)
    (hterminated : s'.terminated = s.terminated) (hreleased : s'.released = s.released)
    (hin : ∀ task, s.terminated = true → (s'.starts task).isInPool = true →
      (s.starts task).isInPool = true)
    (hworkers : s.released = true → s'.pool.workers = s.pool.workers)
    (hdecided : ∀ task, (s.starts task).isDecided = true → (s'.starts task).isDecided = true)
    (hlist : s.terminated = true → ∀ task ∈ s'.executionTaskList, task ∈ s.executionTaskList)
    (hfinished : ∀ task, (s.tasks task).isFinished = true → (s'.tasks task).isFinished = true) :
    ShutdownInv s' := by
  constructor
  -- what each call of `gracefulShutdown` has behind it
  · rw [hshutdowns, hterminated]
    exact h.terminated
  · rw [hshutdowns]
    exact h.unique
  -- a `start` that is in the pool now was there before
  · rw [hterminated]
    intro hset task
    rw [← Bool.not_eq_true]
    intro hpoint
    have hbefore := hin task hset hpoint
    rw [h.noStart hset task] at hbefore
    cases hbefore
  · rw [hshutdowns, hreleased]
    exact h.returned
  · rw [hreleased, hterminated]
    intro hset
    rw [hworkers hset]
    exact h.released hset
  · rw [hshutdowns]
    exact fun k task hmem => hdecided task (h.toGet k task hmem)
  -- a listed task is still to be waited for, or it has finished
  · rw [hshutdowns]
    intro k hset task hmem
    rcases h.listed k hset task (hlist (h.terminated k hset) task hmem) with hget | hdone
    · exact .inl hget
    · exact .inr (hfinished task hdone)

/-- Only a call of `start` moves, and the list does not grow. -/
theorem setStart (h : ShutdownInv s) (task : TaskPtr) {point : StartPoint}
    (hshutdowns : s'.shutdowns = s.shutdowns) (hterminated : s'.terminated = s.terminated)
    (hreleased : s'.released = s.released) (hpool : s'.pool = s.pool)
    (hstarts : s'.starts = Function.update s.starts task point)
    (hlist : s.terminated = true → ∀ task ∈ s'.executionTaskList, task ∈ s.executionTaskList)
    (htasks : s'.tasks = s.tasks) (hin : s.terminated = true → point.isInPool = false)
    (hdecided : (s.starts task).isDecided = true → point.isDecided = true) : ShutdownInv s' := by
  refine h.keep hshutdowns hterminated hreleased ?_ (fun _ => by rw [hpool]) ?_ hlist
    (fun t => by rw [htasks]; exact id)
  · rw [hstarts]
    refine (Function.forall_update_iff s.starts fun t p => s.terminated = true →
      p.isInPool = true → (s.starts t).isInPool = true).mpr ⟨fun hset hpoint => ?_, fun _ _ _ => id⟩
    rw [hin hset] at hpoint
    cases hpoint
  · rw [hstarts]
    exact (Function.forall_update_iff s.starts fun t p => (s.starts t).isDecided = true →
      p.isDecided = true).mpr ⟨hdecided, fun _ _ => id⟩

/-- Only the thread of a task moves. -/
theorem setTask (h : ShutdownInv s) (task : TaskPtr) {point : TaskPoint}
    (hshutdowns : s'.shutdowns = s.shutdowns) (hterminated : s'.terminated = s.terminated)
    (hreleased : s'.released = s.released)
    (hworkers : s.released = true → s'.pool.workers = s.pool.workers)
    (hstarts : s'.starts = s.starts)
    (hlist : s.terminated = true → ∀ task ∈ s'.executionTaskList, task ∈ s.executionTaskList)
    (htasks : s'.tasks = Function.update s.tasks task point)
    (hfinished : (s.tasks task).isFinished = true → point.isFinished = true) : ShutdownInv s' := by
  refine h.keep hshutdowns hterminated hreleased (fun t _ => by rw [hstarts]; exact id) hworkers
    (fun t => by rw [hstarts]; exact id) hlist ?_
  rw [htasks]
  exact (Function.forall_update_iff s.tasks fun t p => (s.tasks t).isFinished = true →
    p.isFinished = true).mpr ⟨hfinished, fun _ _ => id⟩

/-- A call of `gracefulShutdown` goes on. -/
theorem setShutdown (h : ShutdownInv s) (k : ℕ) (point : ShutdownPoint)
    (hshutdowns : s'.shutdowns = Function.update s.shutdowns k point)
    (hterminated : s'.terminated = s.terminated) (hreleased : s'.released = s.released)
    (hpool : s'.pool = s.pool) (hstarts : s'.starts = s.starts) (htasks : s'.tasks = s.tasks)
    (hlist : s'.executionTaskList = s.executionTaskList)
    (hhas : point.hasTerminated = (s.shutdowns k).hasTerminated) (hreturned : point ≠ .returned)
    (htoGet : ∀ task ∈ point.toGet, task ∈ (s.shutdowns k).toGet)
    (hgot : ∀ task ∈ (s.shutdowns k).toGet, task ∈ point.toGet ∨
      (s.tasks task).isFinished = true) : ShutdownInv s' := by
  -- the other calls are where they were, and this one has not set the flag now
  have hhas' (j : ℕ) : (s'.shutdowns j).hasTerminated = (s.shutdowns j).hasTerminated := by
    rw [hshutdowns]
    by_cases hj : j = k
    · rw [hj, Function.update_self, hhas]
    · rw [Function.update_of_ne hj]
  constructor
  · intro j hset
    rw [hhas'] at hset
    rw [hterminated]
    exact h.terminated j hset
  · intro i j hi hj
    rw [hhas'] at hi hj
    exact h.unique i j hi hj
  · rw [hterminated, hstarts]
    exact h.noStart
  · rw [hshutdowns, hreleased]
    exact (Function.forall_update_iff s.shutdowns fun _ p => p = .returned →
      s.released = true).mpr ⟨fun heq => absurd heq hreturned, fun j _ => h.returned j⟩
  · rw [hreleased, hterminated, hpool]
    exact h.released
  · rw [hshutdowns, hstarts]
    exact (Function.forall_update_iff s.shutdowns fun _ p => ∀ task ∈ p.toGet,
      (s.starts task).isDecided = true).mpr
        ⟨fun task hmem => h.toGet k task (htoGet task hmem), fun j _ => h.toGet j⟩
  -- what this call does not wait for any more has finished
  · intro j hset task hmem
    rw [hhas'] at hset
    rw [hlist] at hmem
    rw [htasks, hshutdowns]
    have hbefore := h.listed j hset task hmem
    by_cases hj : j = k
    · rw [hj] at hbefore
      rw [hj, Function.update_self]
      exact hbefore.elim (hgot task) .inr
    · rw [Function.update_of_ne hj]
      exact hbefore

end ShutdownInv

/-- When no worker has a thread and `start` does not ask the pool, only idle threads are stopped. -/
theorem pool_idle {pool : Config} {s : System} {action : QueuedThreadPool.Action}
    {p : QueuedThreadPool.System} (hallows : s.allows action = true)
    (hin : ∀ task, (s.starts task).isInPool = false) (hleft : ∀ w ∈ s.pool.workers, w = .left)
    (hstep : QueuedThreadPool.step pool s.pool action = some p) : action = .collect := by
  have hnone {i : ℕ} {w : Worker} (hi : s.pool.workers[i]? = some w) : w = .left :=
    hleft w (List.mem_of_getElem? hi)
  cases action with
  | collect => rfl
  | enter task isNull =>
    rw [System.allows, hin task] at hallows
    cases hallows
  | lock task =>
    rw [System.allows, hin task] at hallows
    cases hallows
  | attempt task answer =>
    rw [System.allows, hin task] at hallows
    cases hallows
  | run i =>
    obtain ⟨task, hi, -⟩ := QueuedThreadPool.step_run hstep
    cases hnone hi
  | returned i =>
    obtain ⟨task, hi, -⟩ := QueuedThreadPool.step_returned hstep
    cases hnone hi
  | getNextTask i =>
    obtain ⟨hi, -⟩ := QueuedThreadPool.step_getNextTask hstep
    cases hnone hi
  | leave i =>
    obtain ⟨hi, -⟩ := QueuedThreadPool.step_leave hstep
    cases hnone hi
  | shutdown => cases hallows

/-- The calls of `gracefulShutdown` have done what their points say after each step. -/
theorem shutdownInv_step {pool : Config} {s s' : System} (a : Action) (hmutex : MutexInv s)
    (hpool : PoolInv s) (htask : TaskInv s) (hlist : ListInv s) (h : ShutdownInv s)
    (hstep : step pool s a = some s') : ShutdownInv s' := by
  cases a with
  | start task caller =>
    obtain ⟨hnew, -, rfl⟩ := step_start hstep
    exact h.setStart task rfl rfl rfl rfl rfl (fun _ _ => id) rfl (fun _ => rfl)
      (by rw [hnew]; nofun)
  | startLock task =>
    obtain ⟨caller, hwaiting, -, ⟨e, -, rfl⟩ | ⟨hnot, -, rfl⟩⟩ := step_startLock hstep
    -- a manager that is terminated refuses the task
    · exact h.setStart task rfl rfl rfl rfl rfl (fun _ _ => id) rfl (fun _ => rfl)
        fun _ => rfl
    · exact h.setStart task rfl rfl rfl rfl rfl (by rw [hnot]; nofun) rfl
        (by rw [hnot]; nofun) (by rw [hwaiting]; nofun)
  | startReturned task =>
    obtain ⟨caller, -, ⟨-, rfl⟩ | ⟨e, -, rfl⟩⟩ := step_startReturned hstep
    · exact h.setStart task rfl rfl rfl rfl rfl (fun _ _ => id) rfl (fun _ => rfl)
        fun _ => rfl
    · exact h.setStart task rfl rfl rfl rfl rfl (fun _ _ => id) rfl (fun _ => rfl)
        fun _ => rfl
  | startCaught task =>
    obtain ⟨caller, e, -, -, rfl⟩ := step_startCaught hstep
    exact h.setStart task rfl rfl rfl rfl rfl
      (fun _ t hmem => List.mem_of_mem_erase hmem) rfl (fun _ => rfl) fun _ => rfl
  | pool action =>
    obtain ⟨hallows, p, htaken, rfl⟩ := step_pool hstep
    -- after the release there is no thread left that could work
    have hworkers (hreleased : s.released = true) : p.workers = s.pool.workers := by
      obtain ⟨hterminated, hleft⟩ := h.released hreleased
      obtain rfl := pool_idle hallows (h.noStart hterminated) hleft htaken
      obtain ⟨-, rfl⟩ := QueuedThreadPool.step_collect htaken
      rfl
    rcases pool_history htaken with ⟨i, task, rfl, hi, -, -⟩ | ⟨i, task, rfl, -, -, -⟩ | ⟨hne, -, -⟩
    · rw [System.afterPool_run hi]
      -- a task that is given to a worker was not run before
      have hnotRun := given_notRun pool hpool.pool htask hi
      refine h.setTask task rfl rfl rfl hworkers rfl (fun _ _ => id) rfl fun hfinished => ?_
      cases hpoint : s.tasks task with
      | notRun => rw [hpoint] at hfinished; cases hfinished
      | _ => rw [hpoint] at hnotRun; cases hnotRun
    · exact h.keep rfl rfl rfl (fun _ _ => id) hworkers (fun _ => id) (fun _ _ => id) fun _ => id
    · rw [System.afterPool_of_ne hne]
      exact h.keep rfl rfl rfl (fun _ _ => id) hworkers (fun _ => id) (fun _ _ => id) fun _ => id
  | executed task result =>
    obtain ⟨hpoint, -, rfl⟩ := step_executed hstep
    exact h.setTask task rfl rfl rfl (fun _ => rfl) rfl (fun _ _ => id) rfl
      (by rw [hpoint]; nofun)
  | onComplete task =>
    obtain ⟨result, what, hpoint, -, rfl⟩ := step_onComplete hstep
    exact h.setTask task rfl rfl rfl (fun _ => rfl) rfl
      (fun _ t hmem => List.mem_of_mem_erase hmem) rfl (by rw [hpoint]; nofun)
  | callback task =>
    obtain ⟨result, what, hpoint, rfl⟩ := step_callback hstep
    exact h.setTask task rfl rfl rfl (fun _ => rfl) rfl (fun _ _ => id) rfl
      (by rw [hpoint]; nofun)
  | returned task thrown =>
    obtain ⟨result, what, hpoint, -, rfl⟩ := step_returned hstep
    exact h.setTask task rfl rfl rfl (fun _ => rfl) rfl (fun _ _ => id) rfl
      (by rw [hpoint]; nofun)
  | finish task =>
    obtain ⟨result, thrown, hpoint, rfl⟩ := step_finish hstep
    exact h.setTask task rfl rfl rfl (fun _ => rfl) rfl (fun _ _ => id) rfl fun _ => rfl
  | shutdown k caller =>
    obtain ⟨hout, -, rfl⟩ := step_shutdown hstep
    exact h.setShutdown k (.waiting caller) rfl rfl rfl rfl rfl rfl rfl
      (by rw [hout]; rfl) nofun nofun (by rw [hout]; nofun)
  | shutdownLock k =>
    obtain ⟨caller, hwaiting, hfree, ⟨-, rfl⟩ | ⟨hnot, rfl⟩⟩ := step_shutdownLock hstep
    · exact h.setShutdown k .alreadyTerminated rfl rfl rfl rfl rfl rfl rfl
        (by rw [hwaiting]; rfl) nofun nofun (by rw [hwaiting]; nofun)
    · -- no other call has terminated the manager
      have hnone (j : ℕ) : (s.shutdowns j).hasTerminated = false := by
        rw [← Bool.not_eq_true]
        intro hset
        rw [h.terminated j hset] at hnot
        cases hnot
      have hself {j : ℕ} (hset : (Function.update s.shutdowns k (.cancelling caller
          s.executionTaskList s.executionTaskList) j).hasTerminated = true) : j = k := by
        by_contra hj
        rw [Function.update_of_ne hj, hnone j] at hset
        cases hset
      -- under the mutex no `start` is inside the pool
      have hdecided (t : TaskPtr) (hmem : t ∈ s.executionTaskList) :
          (s.starts t).isDecided = true := by
        rw [StartPoint.isDecided_eq, hlist.new t hmem, hmutex.not_inPool hfree t]
        rfl
      refine ⟨fun _ _ => rfl, fun i j hi hj => (hself hi).trans (hself hj).symm,
        fun _ => hmutex.not_inPool hfree, ?_, fun hset => ⟨rfl, (h.released hset).2⟩, ?_, ?_⟩
      · exact (Function.forall_update_iff s.shutdowns fun _ p => p = .returned →
          s.released = true).mpr ⟨nofun, fun j _ => h.returned j⟩
      · exact (Function.forall_update_iff s.shutdowns fun _ p => ∀ task ∈ p.toGet,
          (s.starts task).isDecided = true).mpr ⟨hdecided, fun j _ => h.toGet j⟩
      -- the call waits for all that is listed
      · intro j hset task hmem
        rw [hself hset]
        show task ∈ (Function.update s.shutdowns k _ k).toGet ∨ _
        rw [Function.update_self]
        exact .inl hmem
  | cancel k =>
    obtain ⟨caller, copy, rest, hpoint, ⟨task, tasks, -, rfl⟩ | ⟨-, rfl⟩⟩ := step_cancel hstep
    · exact h.setShutdown k (.cancelling caller copy tasks) rfl rfl rfl rfl rfl rfl
        rfl (by rw [hpoint]; rfl) nofun (by rw [hpoint]; exact fun _ => id)
        (by rw [hpoint]; exact fun _ => .inl)
    · exact h.setShutdown k (.getting caller copy) rfl rfl rfl rfl rfl rfl
        rfl (by rw [hpoint]; rfl) nofun (by rw [hpoint]; exact fun _ => id)
        (by rw [hpoint]; exact fun _ => .inl)
  | get k =>
    obtain ⟨caller, task, rest, hpoint, hfinished, rfl⟩ := step_get hstep
    refine h.setShutdown k (.getting caller rest) rfl rfl rfl rfl rfl rfl
      rfl (by rw [hpoint]; rfl) nofun (by rw [hpoint]; exact fun _ => List.mem_cons_of_mem task) ?_
    rw [hpoint]
    intro t hmem
    -- `get` has returned, so the task has finished
    rcases List.mem_cons.mp hmem with rfl | hrest
    · exact .inr hfinished
    · exact .inl hrest
  | joinLock k =>
    obtain ⟨caller, hpoint, -, rfl⟩ := step_joinLock hstep
    exact h.setShutdown k (.joining caller) rfl rfl rfl rfl rfl rfl rfl
      (by rw [hpoint]; rfl) nofun nofun (by rw [hpoint]; nofun)
  | join k =>
    obtain ⟨caller, hpoint, hleft, rfl⟩ := step_join hstep
    have hset : (s.shutdowns k).hasTerminated = true := by rw [hpoint]; rfl
    -- only one call has set the flag, so it is this one that returns
    have hself {j : ℕ} (hj : (Function.update s.shutdowns k .returned j).hasTerminated = true) :
        j = k := by
      by_contra hne
      rw [Function.update_of_ne hne] at hj
      exact hne (h.unique j k hj hset)
    refine ⟨fun j _ => h.terminated k hset, fun i j hi hj => (hself hi).trans (hself hj).symm,
      h.noStart, fun _ _ => rfl, fun _ => ⟨h.terminated k hset, hleft⟩, ?_, ?_⟩
    · exact (Function.forall_update_iff s.shutdowns fun _ p => ∀ task ∈ p.toGet,
        (s.starts task).isDecided = true).mpr ⟨nofun, fun j _ => h.toGet j⟩
    -- there is nothing left to wait for: what is listed has finished
    · intro j _ task hmem
      have hbefore := h.listed k hset task hmem
      rw [hpoint] at hbefore
      exact .inr (hbefore.resolve_left nofun)

/-- The invariant of the manager with its pool. -/
structure Inv (s : System) : Prop where
  mutex : MutexInv s
  pool : PoolInv s
  task : TaskInv s
  caller : CallerInv s
  list : ListInv s
  shutdown : ShutdownInv s

theorem inv_initial (pool : Config) : Inv (initial pool) where
  mutex := MutexInv.initial pool
  pool := poolInv_initial pool
  task := taskInv_initial pool
  caller := callerInv_initial pool
  list := listInv_initial pool
  shutdown := shutdownInv_initial pool

theorem inv_step {pool : Config} {s s' : System} (a : Action) (h : Inv s)
    (hstep : step pool s a = some s') : Inv s' where
  mutex := mutexInv_step a h.mutex hstep
  pool := poolInv_step a h.pool hstep
  task := taskInv_step a h.pool h.task hstep
  caller := callerInv_step a h.pool h.task h.caller hstep
  list := listInv_step a h.mutex h.list hstep
  shutdown := shutdownInv_step a h.mutex h.pool h.task h.list h.shutdown hstep

theorem inv_of_run {pool : Config} {s s' : System} {actions : List Action} (h : Inv s)
    (hrun : Runs.run (step pool) s actions = some s') : Inv s' :=
  Runs.run_invariant (fun _ a _ hinv _ => inv_step a hinv) h hrun (Runs.everyStep_true _ _)

end EasyHttp.HttpExecutionTaskManager
