import EasyHttp.ExecutorService.QueuedThreadPool

/-!
# Tasks that wait

A worker that has been given NULL keeps its thread for a while. A task that comes meanwhile finds
no thread; `start` tries again when no other worker is active, and queues the task when there is
one. Then the thread becomes idle, and the task waits for the other worker.

* `AnswersExactly`: what is assumed of `Poco::ThreadPool::start`;
* `NoneLeaving`: no task is queued while a worker that has been given NULL has its thread;
* `no_task_waits`: under this no task waits beside an idle thread;
* `not_noTaskWaits_leaving`: a run of two workers where one does.
-/

namespace EasyHttp.QueuedThreadPool

/-- The idle threads. -/
def System.idle (s : System) : ℕ := s.allocated - s.occupied

/-- `Poco::ThreadPool` has no thread only when none is idle and it is at its capacity. -/
def AnswersExactly (pool : Config) (s : System) : Action → Prop
  | .attempt _ .noThreadAvailable => s.idle = 0 ∧ pool.maxCapacity ≤ s.allocated
  | _ => True

/-- No call is in `start`, and each worker is in `run` of a task or has left its thread. -/
structure Settled (s : System) : Prop where
  submitters : ∀ task, s.submitters task ≠ .waiting ∧ s.submitters task ≠ .holding
  workers : ∀ w ∈ s.workers, (∃ task, w = .running task) ∨ w = .left

/-- No task waits beside an idle thread. -/
def NoTaskWaits (s : System) : Prop := Settled s → 0 < s.idle → s.workerQueue = []

/-- When there is no thread for a task and a worker is active, no other worker has been given NULL
and still has its thread. -/
def NoneLeaving (s : System) : Action → Prop
  | .attempt _ .noThreadAvailable => s.activeWorkerCount ≠ 0 → .leaving ∉ s.workers
  | _ => True

section
variable (pool : Config) (s : System)

instance : DecidablePred (AnswersExactly pool s)
  | .attempt _ .noThreadAvailable =>
    inferInstanceAs (Decidable (s.idle = 0 ∧ pool.maxCapacity ≤ s.allocated))
  | .attempt _ .started | .attempt _ .systemError | .enter _ _ | .lock _ | .run _ | .returned _
  | .getNextTask _ | .leave _ | .collect | .shutdown => isTrue trivial

instance : DecidablePred (NoneLeaving s)
  | .attempt _ .noThreadAvailable =>
    inferInstanceAs (Decidable (s.activeWorkerCount ≠ 0 → .leaving ∉ s.workers))
  | .attempt _ .started | .attempt _ .systemError | .enter _ _ | .lock _ | .run _ | .returned _
  | .getNextTask _ | .leave _ | .collect | .shutdown => isTrue trivial

end

/-- While tasks wait, each thread has an active worker, and there can be no other thread. -/
structure Busy (pool : Config) (s : System) : Prop where
  idle_eq : s.idle = 0
  capacity_le : pool.maxCapacity ≤ s.allocated
  none_leaving : .leaving ∉ s.workers

/-- While a task is queued the pool is busy. -/
def BusyWhileQueued (pool : Config) (s : System) : Prop := s.workerQueue ≠ [] → Busy pool s

namespace BusyWhileQueued

variable {pool : Config} {s s' : System}

/-- An empty queue asks nothing of the pool. -/
theorem of_nil (h : s.workerQueue = []) : BusyWhileQueued pool s := fun hne => absurd h hne

/-- A step that neither queues a task nor moves a worker. -/
theorem congr (h : BusyWhileQueued pool s) (hqueue : s'.workerQueue = s.workerQueue)
    (hworkers : s'.workers = s.workers) (hallocated : s'.allocated = s.allocated) :
    BusyWhileQueued pool s' := by
  intro hne
  rw [hqueue] at hne
  obtain ⟨hidle, hcapacity, hleaving⟩ := h hne
  refine ⟨?_, ?_, ?_⟩
  · rw [System.idle, System.occupied, hworkers, hallocated]
    exact hidle
  · rw [hallocated]
    exact hcapacity
  · rw [hworkers]
    exact hleaving

/-- A worker goes on with its thread. -/
theorem move {i : ℕ} {a b : Worker} (h : BusyWhileQueued pool s) (hi : s.workers[i]? = some a)
    (ha : a.onThread = true) (hb : b.onThread = true) (hleaving : b ≠ .leaving)
    (hqueue : s'.workerQueue ≠ [] → s.workerQueue ≠ [])
    (hworkers : s'.workers = s.workers.set i b) (hallocated : s'.allocated = s.allocated) :
    BusyWhileQueued pool s' := by
  intro hne
  have hbusy := h (hqueue hne)
  refine ⟨?_, ?_, ?_⟩
  · have hset := countP_set_add (p := Worker.onThread) b hi
    rw [if_pos ha, if_pos hb] at hset
    have hidle : s.allocated - s.workers.countP Worker.onThread = 0 := hbusy.idle_eq
    show s'.allocated - s'.workers.countP Worker.onThread = 0
    rw [hworkers, hallocated]
    omega
  · rw [hallocated]
    exact hbusy.capacity_le
  · rw [hworkers]
    intro hmem
    rcases List.mem_or_eq_of_mem_set hmem with hold | heq
    · exact hbusy.none_leaving hold
    · exact hleaving heq.symm

/-- `start` queues a task only when the pool is busy. -/
theorem attempt {task : Task} {answer : Answer} (h : BusyWhileQueued pool s)
    (hanswer : AnswersExactly pool s (.attempt task answer))
    (hnone : NoneLeaving s (.attempt task answer))
    (hattempt : s.attempt pool task answer = some s') : BusyWhileQueued pool s' := by
  cases answer with
  | systemError =>
    cases hattempt
    exact h.congr rfl rfl rfl
  | started =>
    -- a thread is found, so no task is queued
    have hqueue : s.workerQueue = [] := by
      by_contra hne
      obtain ⟨hidle, hcapacity, -⟩ := h hne
      have hidle' : s.allocated - s.occupied = 0 := hidle
      rw [System.attempt, if_neg (by omega), if_neg (by omega)] at hattempt
      cases hattempt
    rw [System.attempt] at hattempt
    -- an idle thread, or one more
    by_cases hidle : s.occupied < s.allocated
    · rw [if_pos hidle] at hattempt
      cases hattempt
      exact of_nil hqueue
    · rw [if_neg hidle] at hattempt
      by_cases hcapacity : (s.allocated : ℤ) < pool.maxCapacity
      · rw [if_pos hcapacity] at hattempt
        cases hattempt
        exact of_nil hqueue
      · rw [if_neg hcapacity] at hattempt
        cases hattempt
  | noThreadAvailable =>
    rw [System.attempt] at hattempt
    by_cases hzero : s.activeWorkerCount = 0
    · rw [if_pos hzero] at hattempt
      cases hattempt
      exact h
    · rw [if_neg hzero] at hattempt
      -- no thread was available, so the pool is busy and the task may wait
      cases hpush : pool.blockingQueue.push s.workerQueue task with
      | none =>
        rw [hpush] at hattempt
        cases hattempt
        exact h.congr rfl rfl rfl
      | some workerQueue =>
        rw [hpush] at hattempt
        cases hattempt
        obtain ⟨hidle, hcapacity⟩ := hanswer
        exact fun _ => ⟨hidle, hcapacity, hnone hzero⟩

/-- A worker that asks takes the first task, and stays active. -/
theorem getNextTask {i : ℕ} (h : BusyWhileQueued pool s) (hi : s.workers[i]? = some .asking) :
    BusyWhileQueued pool (s.getNextTask i) := by
  cases hqueue : s.workerQueue with
  | nil =>
    rw [System.getNextTask_nil hqueue]
    exact of_nil hqueue
  | cons task rest =>
    rw [System.getNextTask_cons hqueue]
    refine h.move hi rfl rfl (by nofun) (fun _ => ?_) rfl rfl
    rw [hqueue]
    nofun

end BusyWhileQueued

/-- Each step keeps the pool busy while a task is queued. -/
theorem busyWhileQueued_step {pool : Config} {s s' : System} (a : Action)
    (h : BusyWhileQueued pool s) (hanswer : AnswersExactly pool s a) (hnone : NoneLeaving s a)
    (hstep : step pool s a = some s') : BusyWhileQueued pool s' := by
  cases a with
  | enter task isNull =>
    obtain ⟨-, submitter, -, rfl⟩ := step_enter hstep
    exact h.congr rfl rfl rfl
  | lock task =>
    obtain ⟨-, rfl⟩ := step_lock hstep
    exact h.congr rfl rfl rfl
  | attempt task answer =>
    obtain ⟨-, hattempt⟩ := step_attempt hstep
    exact h.attempt hanswer hnone hattempt
  | run i =>
    -- workers that go on are still on their threads
    obtain ⟨task, hi, rfl⟩ := step_run hstep
    exact h.move hi rfl (b := .running task) rfl nofun id rfl rfl
  | returned i =>
    obtain ⟨task, hi, rfl⟩ := step_returned hstep
    exact h.move hi rfl (b := .asking) rfl nofun id rfl rfl
  | getNextTask i =>
    obtain ⟨hi, rfl⟩ := step_getNextTask hstep
    exact h.getNextTask hi
  | leave i =>
    obtain ⟨hi, rfl⟩ := step_leave hstep
    -- a worker leaves only when no task is queued
    exact fun hne => absurd (List.mem_of_getElem? hi) (h hne).none_leaving
  | collect =>
    obtain ⟨hidle, rfl⟩ := step_collect hstep
    intro hne
    have hidle' : s.allocated - s.occupied = 0 := (h hne).idle_eq
    omega
  | shutdown =>
    cases hstep
    exact h.congr rfl rfl rfl

/-- **No task waits beside an idle thread**, in a run in which no task is queued while a worker that
has been given NULL still has its thread. -/
theorem no_task_waits {pool : Config} {actions : List Action} {s : System}
    (hrun : Runs.run (step pool) pool.initial actions = some s)
    (hanswers : Runs.EveryStep (step pool) (AnswersExactly pool) pool.initial actions)
    (hnone : Runs.EveryStep (step pool) NoneLeaving pool.initial actions) : NoTaskWaits s := by
  have hbusy : BusyWhileQueued pool s :=
    Runs.run_invariant (fun _ a _ h hstep => busyWhileQueued_step a h hstep.1 hstep.2)
      (.of_nil rfl) hrun (hanswers.and hnone)
  intro _ hidle
  by_contra hne
  have hzero := (hbusy hne).idle_eq
  omega

/-- Two threads, and a queue without a bound. -/
def twoThreads : Config where
  corePoolSize := 2
  maximumPoolSize := 2
  blockingQueue := .unbound
  core_ne_zero := by decide
  core_le_maximum := by decide

/-- Two tasks run. -/
def startTwo : List Action := [
  .enter 0 false, .lock 0, .attempt 0 .started, .run 0,
  .enter 1 false, .lock 1, .attempt 1 .started, .run 1]

/-- The third task comes while both workers run a task. -/
def queueBesideRunning : List Action := startTwo ++ [
  .enter 2 false, .lock 2, .attempt 2 .noThreadAvailable,
  .returned 1, .getNextTask 1, .run 1, .returned 0, .getNextTask 0, .leave 0]

theorem no_task_waits_queueBesideRunning : ∃ s,
    Runs.run (step twoThreads) twoThreads.initial queueBesideRunning = some s ∧
      0 < s.idle ∧ NoTaskWaits s := by
  have hanswers : Runs.EveryStep (step twoThreads) (AnswersExactly twoThreads) twoThreads.initial
      queueBesideRunning := by decide +kernel
  have hnone : Runs.EveryStep (step twoThreads) NoneLeaving twoThreads.initial
      queueBesideRunning := by decide +kernel
  exact ⟨_, rfl, by decide +kernel, no_task_waits rfl hanswers hnone⟩

/-- The third task comes when a worker has been given NULL and still has its thread. -/
def queueBesideLeaving : List Action := startTwo ++ [
  .returned 1, .getNextTask 1,
  .enter 2 false, .lock 2, .attempt 2 .noThreadAvailable, .leave 1]

/-- One worker runs the first task, the third task is queued, and the other thread is idle. -/
def besideLeaving : System :=
  (Runs.run (step twoThreads) twoThreads.initial queueBesideLeaving).getD twoThreads.initial

/-- The three tasks are accepted, and no other. -/
theorem besideLeaving_submitters :
    ∀ task, besideLeaving.submitters task = .accepted ∨ besideLeaving.submitters task = .outside
  | 0 | 1 | 2 => .inl rfl
  | _ + 3 => .inr rfl

/-- Nothing moves on its own in this state. -/
theorem settled_besideLeaving : Settled besideLeaving where
  submitters task := by
    rcases besideLeaving_submitters task with h | h <;> rw [h] <;> exact ⟨nofun, nofun⟩
  workers := by
    have hworkers : besideLeaving.workers = [.running 0, .left] := rfl
    simp [hworkers]

theorem not_noTaskWaits_leaving :
    Runs.run (step twoThreads) twoThreads.initial queueBesideLeaving = some besideLeaving ∧
      Runs.EveryStep (step twoThreads) (AnswersExactly twoThreads) twoThreads.initial
        queueBesideLeaving ∧ ¬NoTaskWaits besideLeaving := by
  refine ⟨rfl, by decide +kernel, fun hwaits => ?_⟩
  have hqueue : besideLeaving.workerQueue = [] :=
    hwaits settled_besideLeaving (by decide +kernel)
  cases hqueue

end EasyHttp.QueuedThreadPool
