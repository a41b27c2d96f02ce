import EasyHttp.Engine.HttpExecutionTaskManagerTheorems
import EasyHttp.Library.Reaches
import Mathlib

/-!
# Graceful shutdown

What holds when `gracefulShutdown` has returned, and when it returns at all.

* `toAsync_step`: the manager with its pool has, seen through `toAsync`, only steps of `AsyncTasks`;
* `quiet_of_returned`: when it has returned, all is done, and nothing is done afterwards;
* `canReturn_iff`: from which states it can still return.
-/

namespace EasyHttp.HttpExecutionTaskManager

open AsyncTasks (ExecuteResult Notification Thrown caught notification)
open QueuedThreadPool (Config Submitter Worker)

/-! ## The tasks of the manager -/

/-- A task that is not run, as `AsyncTasks` sees it: `start` and the pool's answer are one there. -/
def StartPoint.asyncPoint (submitter : Submitter) : StartPoint → AsyncTasks.Point
  | .outside | .waiting _ => .new
  | .inPool _ =>
    match submitter with
    | .accepted => .execute
    | .threw _ => .startFailed
    | .outside | .waiting | .holding => .new
  | .caught _ => .startFailed
  | .accepted => .execute
  | .threw _ => .refused

/-- What the manager alone sees of a task. -/
def TaskPoint.asyncPoint (start : AsyncTasks.Point) : TaskPoint → AsyncTasks.Point
  | .notRun => start
  | .execute => .execute
  | .onComplete result what => .onComplete result what
  | .callback result what => .callback result what
  | .called result what => .called result what
  | .leaving result thrown => .leaving result thrown
  | .finished result exception => .finished result exception

/-- The task has not been started. -/
def isNewPoint : AsyncTasks.Point → Bool
  | .new => true
  | _ => false

namespace System

/-- The point of a task, with that of its `start`. -/
def asyncPoint (s : System) (task : TaskPtr) : AsyncTasks.Point :=
  (s.tasks task).asyncPoint ((s.starts task).asyncPoint (s.pool.submitters task))

/-- The state of `AsyncTasks`, where a task is listed when the pool has answered. -/
def toAsync (s : System) : AsyncTasks.System where
  executionTaskList := s.executionTaskList.filter fun task => !isNewPoint (s.asyncPoint task)
  terminated := s.terminated
  points := s.asyncPoint
  calls := s.calls

variable {s s' : System} {task : TaskPtr} {point : AsyncTasks.Point}

theorem toAsync_congr (hpoints : s'.asyncPoint = s.asyncPoint)
    (hlist : s'.executionTaskList = s.executionTaskList)
    (hterminated : s'.terminated = s.terminated) (hcalls : s'.calls = s.calls) :
    s'.toAsync = s.toAsync := by
  unfold toAsync
  rw [hpoints, hlist, hterminated, hcalls]

/-- A task is listed before the pool is asked. -/
theorem toAsync_grow (hpoints : s'.asyncPoint = s.asyncPoint)
    (hnew : isNewPoint (s.asyncPoint task) = true)
    (hlist : s'.executionTaskList = s.executionTaskList ++ [task])
    (hterminated : s'.terminated = s.terminated) (hcalls : s'.calls = s.calls) :
    s'.toAsync = s.toAsync := by
  unfold toAsync
  rw [hpoints, hlist, hterminated, hcalls, List.filter_append, List.filter_cons, hnew]
  simp

/-- What is in the list does not change while a task stays started. -/
theorem filter_update (l : List TaskPtr)
    (hnew : isNewPoint point = isNewPoint (s.asyncPoint task)) :
    (l.filter fun t => !isNewPoint (Function.update s.asyncPoint task point t)) =
      l.filter fun t => !isNewPoint (s.asyncPoint t) := by
  refine List.filter_congr fun t _ => ?_
  by_cases ht : t = task
  · rw [ht, Function.update_self, hnew]
  · rw [Function.update_of_ne ht]

/-- A task goes on that is not listed, or that the pool has taken or refused. -/
theorem toAsync_setPoint (hpoints : s'.asyncPoint = Function.update s.asyncPoint task point)
    (hnew : isNewPoint point = isNewPoint (s.asyncPoint task) ∨ task ∉ s.executionTaskList)
    (hlist : s'.executionTaskList = s.executionTaskList)
    (hterminated : s'.terminated = s.terminated) :
    s'.toAsync = { s.toAsync.setPoint task point with calls := s'.calls } := by
  have hfilter : (s.executionTaskList.filter fun t =>
      !isNewPoint (Function.update s.asyncPoint task point t)) =
        s.executionTaskList.filter fun t => !isNewPoint (s.asyncPoint t) := by
    rcases hnew with hnew | hnotMem
    · exact filter_update _ hnew
    · refine List.filter_congr fun t hmem => ?_
      rw [Function.update_of_ne (fun h : t = task => hnotMem (h ▸ hmem))]
  unfold toAsync AsyncTasks.System.setPoint
  rw [hpoints, hlist, hterminated, hfilter]

/-- Taking a task off the list is a step of the abstract state. -/
theorem toAsync_removeTask (hpoints : s'.asyncPoint = Function.update s.asyncPoint task point)
    (hnew : isNewPoint point = isNewPoint (s.asyncPoint task))
    (hlist : s'.executionTaskList = s.executionTaskList.erase task)
    (hterminated : s'.terminated = s.terminated) (hcalls : s'.calls = s.calls) :
    s'.toAsync = (s.toAsync.removeTask task).setPoint task point := by
  unfold toAsync AsyncTasks.System.setPoint AsyncTasks.System.removeTask
  rw [hpoints, hlist, hterminated, hcalls, filter_update _ hnew]
  congr 1
  exact (List.erase_filter ..).symm

/-- The pool answers for the task that was listed last. -/
theorem toAsync_push (hpoints : s'.asyncPoint = Function.update s.asyncPoint task point)
    (hbefore : isNewPoint (s.asyncPoint task) = true) (hafter : isNewPoint point = false)
    (hlist : s'.executionTaskList = s.executionTaskList)
    (hlast : ∃ before, s.executionTaskList = before ++ [task] ∧ task ∉ before)
    (hterminated : s'.terminated = s.terminated) (hcalls : s'.calls = s.calls) :
    s'.toAsync = { s.toAsync.setPoint task point with
      executionTaskList := s.toAsync.executionTaskList ++ [task] } := by
  obtain ⟨before, heq, hnotMem⟩ := hlast
  have hsame : (before.filter fun t => !isNewPoint (Function.update s.asyncPoint task point t)) =
      before.filter fun t => !isNewPoint (s.asyncPoint t) := by
    refine List.filter_congr fun t hmem => ?_
    rw [Function.update_of_ne (fun h : t = task => hnotMem (h ▸ hmem))]
  unfold toAsync AsyncTasks.System.setPoint
  rw [hpoints, hlist, hterminated, hcalls, heq, List.filter_append, List.filter_append, hsame]
  simp [hbefore, hafter]

end System

/-- The thread of a task goes on. -/
theorem System.asyncPoint_setTask {s s' : System} (task : TaskPtr) (point : TaskPoint)
    (hrun : point.isNotRun = false) (htasks : s'.tasks = Function.update s.tasks task point)
    (hstarts : s'.starts = s.starts) (hpool : s'.pool.submitters = s.pool.submitters) :
    s'.asyncPoint = Function.update s.asyncPoint task (point.asyncPoint .new) := by
  funext t
  unfold asyncPoint
  rw [htasks, hstarts, hpool]
  by_cases ht : t = task
  · rw [ht, Function.update_self, Function.update_self]
    cases point with
    | notRun => cases hrun
    | _ => rfl
  · rw [Function.update_of_ne ht, Function.update_of_ne ht]

/-- A call of `start` goes on whose task does not run. -/
theorem System.asyncPoint_setStart {s s' : System} (task : TaskPtr) (point : StartPoint)
    (submitter : Submitter) (hnotRun : s.tasks task = .notRun)
    (hstarts : s'.starts = Function.update s.starts task point) (htasks : s'.tasks = s.tasks)
    (hpool : s'.pool.submitters = Function.update s.pool.submitters task submitter) :
    s'.asyncPoint = Function.update s.asyncPoint task (point.asyncPoint submitter) := by
  funext t
  unfold asyncPoint
  rw [htasks, hstarts, hpool]
  by_cases ht : t = task
  · rw [ht, Function.update_self, Function.update_self, Function.update_self, hnotRun]
    rfl
  · rw [Function.update_of_ne ht, Function.update_of_ne ht, Function.update_of_ne ht]

/-- A call of `start` goes on, and `AsyncTasks` does not see it. -/
theorem System.asyncPoint_stutter {s s' : System} (task : TaskPtr) (point : StartPoint)
    (submitter : Submitter)
    (hsame : point.asyncPoint submitter = (s.starts task).asyncPoint (s.pool.submitters task))
    (hstarts : s'.starts = Function.update s.starts task point) (htasks : s'.tasks = s.tasks)
    (hpool : s'.pool.submitters = Function.update s.pool.submitters task submitter) :
    s'.asyncPoint = s.asyncPoint := by
  funext t
  unfold asyncPoint
  rw [htasks, hstarts, hpool]
  by_cases ht : t = task
  · rw [ht, Function.update_self, Function.update_self, hsame]
  · rw [Function.update_of_ne ht, Function.update_of_ne ht]

/-- Only what the pool has accepted is begun. -/
theorem notRun_of_not_accepted {s : System} (h : Inv s) (task : TaskPtr)
    (hsubmitter : s.pool.submitters task ≠ .accepted) : s.tasks task = .notRun := by
  have hplaces := h.pool.pool.places_eq task
  have hexecuted := h.pool.pool.executed_eq task
  rw [if_neg hsubmitter] at hplaces
  have hruns : s.pool.workers.countP (Worker.runs task) ≤ s.pool.holders task :=
    List.countP_mono_left fun w _ => Worker.holds_of_runs
  unfold QueuedThreadPool.System.places at hplaces
  have hnone : (s.tasks task).isNotRun = true := (h.task.executed task).mpr (by omega)
  cases hpoint : s.tasks task with
  | notRun => rfl
  | _ => rw [hpoint] at hnone; cases hnone

/-- Before a task is begun its point is that of its `start`. -/
theorem System.asyncPoint_of_notRun {s : System} {task : TaskPtr} (h : s.tasks task = .notRun) :
    s.asyncPoint task = (s.starts task).asyncPoint (s.pool.submitters task) := by
  unfold asyncPoint
  rw [h]
  rfl

/-- The pool answers, and `AsyncTasks` takes it as the answer to a call of `start`. -/
theorem toAsync_answer {s s' : System} {task : TaskPtr} {submitter : Submitter} {accepted : Bool}
    (h : Inv s) (hin : (s.starts task).isInPool = true)
    (hnew : (s.starts task).asyncPoint (s.pool.submitters task) = .new)
    (hafter : (s.starts task).asyncPoint submitter =
      if accepted = true then AsyncTasks.Point.execute else .startFailed)
    (hstarts : s'.starts = s.starts) (htasks : s'.tasks = s.tasks)
    (hpool : s'.pool.submitters = Function.update s.pool.submitters task submitter)
    (hlist : s'.executionTaskList = s.executionTaskList)
    (hterminated : s'.terminated = s.terminated) (hcalls : s'.calls = s.calls) :
    AsyncTasks.step s.toAsync (.start task accepted) = some s'.toAsync := by
  -- a task that is new to the abstract manager was not accepted
  have hsubmitter : s.pool.submitters task ≠ .accepted := by
    intro heq
    rw [heq] at hnew
    cases hpoint : s.starts task with
    | inPool caller => rw [hpoint] at hnew; cases hnew
    | _ => rw [hpoint] at hin; cases hin
  have hnotRun := notRun_of_not_accepted h task hsubmitter
  have hpoint : s.toAsync.points task = .new := (System.asyncPoint_of_notRun hnotRun).trans hnew
  have hopen : s.toAsync.terminated = false := by
    rw [← Bool.not_eq_true]
    intro hset
    rw [h.shutdown.noStart hset task] at hin
    cases hin
  have hmoved : s'.asyncPoint = Function.update s.asyncPoint task
      ((s.starts task).asyncPoint submitter) :=
    System.asyncPoint_setStart task (s.starts task) submitter hnotRun
      (by rw [Function.update_eq_self, hstarts]) htasks hpool
  rw [hafter] at hmoved
  have hbefore : isNewPoint (s.asyncPoint task) = true := by
    rw [show s.asyncPoint task = .new from hpoint]
    rfl
  rw [AsyncTasks.step, hpoint]
  simp only [hopen, Bool.false_eq_true, if_false]
  rw [System.toAsync_push hmoved hbefore (by cases accepted <;> rfl) hlist (h.list.last task hin)
    hterminated hcalls]

/-- The pool's part of `start` goes on: it has an answer, or none yet. -/
theorem toAsync_submitter {s s' : System} {task : TaskPtr} {submitter : Submitter} (h : Inv s)
    (hin : (s.starts task).isInPool = true)
    (hnew : (s.starts task).asyncPoint (s.pool.submitters task) = .new)
    (hstarts : s'.starts = s.starts) (htasks : s'.tasks = s.tasks)
    (hpool : s'.pool.submitters = Function.update s.pool.submitters task submitter)
    (hlist : s'.executionTaskList = s.executionTaskList)
    (hterminated : s'.terminated = s.terminated) (hcalls : s'.calls = s.calls) :
    ∃ bs, Runs.run AsyncTasks.step s.toAsync bs = some s'.toAsync := by
  have hanswer (accepted : Bool) (hafter : (s.starts task).asyncPoint submitter =
      if accepted = true then AsyncTasks.Point.execute else .startFailed) :
      ∃ bs, Runs.run AsyncTasks.step s.toAsync bs = some s'.toAsync :=
    ⟨[.start task accepted], Runs.run_cons_some
      (toAsync_answer h hin hnew hafter hstarts htasks hpool hlist hterminated hcalls) rfl⟩
  have hnothing (hsame : (s.starts task).asyncPoint submitter = .new) :
      ∃ bs, Runs.run AsyncTasks.step s.toAsync bs = some s'.toAsync := by
    have hpoints : s'.asyncPoint = s.asyncPoint :=
      System.asyncPoint_stutter task (s.starts task) submitter (hsame.trans hnew.symm)
        (by rw [Function.update_eq_self, hstarts]) htasks hpool
    exact ⟨[], by rw [System.toAsync_congr hpoints hlist hterminated hcalls]; rfl⟩
  cases hpoint : s.starts task with
  | inPool caller =>
    rw [hpoint] at hanswer hnothing
    cases submitter with
    | accepted => exact hanswer true rfl
    | threw e => exact hanswer false rfl
    | outside => exact hnothing rfl
    | waiting => exact hnothing rfl
    | holding => exact hnothing rfl
  | _ => rw [hpoint] at hin; cases hin

/-- A step of `AsyncTasks`, or none, stands behind each step of the pool. -/
theorem toAsync_pool {pool : Config} {s : System} {action : QueuedThreadPool.Action}
    {p : QueuedThreadPool.System} (h : Inv s) (hallows : s.allows action = true)
    (hstep : QueuedThreadPool.step pool s.pool action = some p) :
    ∃ bs, Runs.run AsyncTasks.step s.toAsync bs = some (s.afterPool p action).toAsync := by
  -- while `start` is inside the pool the abstract manager sees the same point
  have hundecided {task : TaskPtr} {submitter : Submitter} (hin : (s.starts task).isInPool = true)
      (hsubmitter : s.pool.submitters task = submitter)
      (hopen : submitter = .outside ∨ submitter = .waiting ∨ submitter = .holding) :
      (s.starts task).asyncPoint (s.pool.submitters task) = .new := by
    cases hpoint : s.starts task with
    | inPool caller =>
      rw [hsubmitter]
      rcases hopen with rfl | rfl | rfl <;> rfl
    | _ => rw [hpoint] at hin; cases hin
  -- the other steps of the pool are not seen by the abstract manager
  have hstutter {t : System} (hpoints : t.asyncPoint = s.asyncPoint)
      (hlist : t.executionTaskList = s.executionTaskList)
      (hterminated : t.terminated = s.terminated) (hcalls : t.calls = s.calls) :
      ∃ bs, Runs.run AsyncTasks.step s.toAsync bs = some t.toAsync :=
    ⟨[], by rw [System.toAsync_congr hpoints hlist hterminated hcalls]; rfl⟩
  cases action with
  | enter task isNull =>
    rw [System.allows, Bool.and_eq_true] at hallows
    obtain ⟨houtside, submitter, -, rfl⟩ := QueuedThreadPool.step_enter hstep
    exact toAsync_submitter h hallows.1 (hundecided hallows.1 houtside (.inl rfl)) rfl rfl rfl rfl
      rfl rfl
  | lock task =>
    obtain ⟨hwaiting, rfl⟩ := QueuedThreadPool.step_lock hstep
    exact toAsync_submitter h hallows (hundecided hallows hwaiting (.inr (.inl rfl))) rfl rfl rfl
      rfl rfl rfl
  | attempt task answer =>
    obtain ⟨hholding, hattempt⟩ := QueuedThreadPool.step_attempt hstep
    obtain ⟨-, -, submitter, hsubmitters, -⟩ := attempt_submitters hattempt
    exact toAsync_submitter h hallows (hundecided hallows hholding (.inr (.inr rfl))) rfl rfl
      hsubmitters rfl rfl rfl
  | run i =>
    obtain ⟨task, hi, rfl⟩ := QueuedThreadPool.step_run hstep
    rw [System.afterPool_run hi]
    -- the task is the pool's, so it counts as in `execute` already
    have haccepted : s.pool.submitters task = .accepted := by
      have hplaces := h.pool.pool.places_eq task
      have hheld : 0 < s.pool.holders task :=
        List.countP_pos_iff.mpr ⟨_, List.mem_of_getElem? hi, decide_eq_true rfl⟩
      unfold QueuedThreadPool.System.places at hplaces
      by_contra hne
      rw [if_neg hne] at hplaces
      omega
    have hnotRun : s.tasks task = .notRun := by
      have hfirst := given_notRun pool h.pool.pool h.task hi
      cases hpoint : s.tasks task with
      | notRun => rfl
      | _ => rw [hpoint] at hfirst; cases hfirst
    have hexecute : s.asyncPoint task = .execute := by
      rw [System.asyncPoint_of_notRun hnotRun, haccepted]
      rcases h.pool.accepted haccepted with hpoint | hin
      · rw [hpoint]
        rfl
      · cases hpoint : s.starts task with
        | inPool caller => rfl
        | _ => rw [hpoint] at hin; cases hin
    refine hstutter ?_ rfl rfl rfl
    refine Eq.trans (System.asyncPoint_setTask (s := s) task .execute rfl rfl rfl rfl) ?_
    exact (congrArg (Function.update s.asyncPoint task) hexecute.symm).trans
      (Function.update_eq_self ..)
  | returned i =>
    obtain ⟨task, -, rfl⟩ := QueuedThreadPool.step_returned hstep
    exact hstutter rfl rfl rfl rfl
  | getNextTask i =>
    obtain ⟨-, rfl⟩ := QueuedThreadPool.step_getNextTask hstep
    refine hstutter ?_ rfl rfl rfl
    have hsubmitters : (s.pool.getNextTask i).submitters = s.pool.submitters := by
      cases hqueue : s.pool.workerQueue with
      | nil => rw [QueuedThreadPool.System.getNextTask_nil hqueue]
      | cons task rest => rw [QueuedThreadPool.System.getNextTask_cons hqueue]
    funext task
    show (s.tasks task).asyncPoint
      ((s.starts task).asyncPoint ((s.pool.getNextTask i).submitters task)) = _
    rw [hsubmitters]
    rfl
  | leave i =>
    obtain ⟨-, rfl⟩ := QueuedThreadPool.step_leave hstep
    exact hstutter rfl rfl rfl rfl
  | collect =>
    obtain ⟨-, rfl⟩ := QueuedThreadPool.step_collect hstep
    exact hstutter rfl rfl rfl rfl
  | shutdown => cases hallows

/-- **Refinement.** The manager with its pool has, seen through `toAsync`, only steps of
`AsyncTasks`. -/
theorem toAsync_step {pool : Config} {s s' : System} (a : Action) (h : Inv s)
    (hstep : step pool s a = some s') :
    ∃ bs, Runs.run AsyncTasks.step s.toAsync bs = some s'.toAsync := by
  -- a step is seen as one step of the abstract manager, or not at all
  have hstutter (heq : s'.toAsync = s.toAsync) :
      ∃ bs, Runs.run AsyncTasks.step s.toAsync bs = some s'.toAsync := ⟨[], by rw [heq]; rfl⟩
  have hsingle {b : AsyncTasks.Action} (heq : AsyncTasks.step s.toAsync b = some s'.toAsync) :
      ∃ bs, Runs.run AsyncTasks.step s.toAsync bs = some s'.toAsync :=
    ⟨[b], Runs.run_cons_some heq rfl⟩
  -- a task that runs has its own point in the abstract manager
  have hrunning (task : TaskPtr) {point : AsyncTasks.Point}
      (htask : ∀ start, (s.tasks task).asyncPoint start = point) :
      s.toAsync.points task = point := htask _
  cases a with
  | start task caller =>
    obtain ⟨hnew, -, rfl⟩ := step_start hstep
    refine hstutter (System.toAsync_congr ?_ rfl rfl rfl)
    exact System.asyncPoint_stutter task (.waiting caller) (s.pool.submitters task)
      (by rw [hnew]; rfl) rfl rfl (Function.update_eq_self ..).symm
  | startLock task =>
    obtain ⟨caller, hwaiting, -, hcases⟩ := step_startLock hstep
    have hsubmitter : s.pool.submitters task = .outside := by
      have hagrees := h.pool.agrees task
      rw [hwaiting] at hagrees
      exact hagrees
    have hnotRun := notRun_of_not_accepted h task (by rw [hsubmitter]; nofun)
    have hpoint : s.toAsync.points task = .new := by
      show s.asyncPoint task = .new
      rw [System.asyncPoint_of_notRun hnotRun, hwaiting]
      rfl
    have hnotMem : task ∉ s.executionTaskList := by
      intro hmem
      have hlisted := h.list.new task hmem
      rw [hwaiting] at hlisted
      cases hlisted
    rcases hcases with ⟨e, hdown, rfl⟩ | ⟨hopen, -, rfl⟩
    -- a terminated manager throws, in both
    · have hterminated : s.toAsync.terminated = true :=
        hdown.elim id fun hreleased => (h.shutdown.released hreleased).1
      refine hsingle (b := .start task true) ?_
      rw [AsyncTasks.step, hpoint]
      simp only [hterminated, if_true]
      refine congrArg some (Eq.symm ?_)
      exact System.toAsync_setPoint (System.asyncPoint_setStart task (.threw e)
        (s.pool.submitters task) hnotRun rfl rfl (Function.update_eq_self ..).symm)
        (.inr hnotMem) rfl rfl
    -- the task is listed now, but for the abstract manager it is still new: that step comes with
    -- the answer of the pool
    · have hnew : isNewPoint (s.asyncPoint task) = true := by
        rw [show s.asyncPoint task = .new from hpoint]
        rfl
      refine hstutter (System.toAsync_grow ?_ hnew rfl rfl rfl)
      exact System.asyncPoint_stutter task (.inPool caller) .outside
        (by rw [hwaiting, hsubmitter]; rfl) rfl rfl
        (by rw [← hsubmitter]; exact (Function.update_eq_self ..).symm)
  | startReturned task =>
    obtain ⟨caller, hin, ⟨haccepted, rfl⟩ | ⟨e, hthrew, rfl⟩⟩ := step_startReturned hstep
    · refine hstutter (System.toAsync_congr ?_ rfl rfl rfl)
      exact System.asyncPoint_stutter task .accepted (s.pool.submitters task)
        (by rw [hin, haccepted]; rfl) rfl rfl (Function.update_eq_self ..).symm
    · refine hstutter (System.toAsync_congr ?_ rfl rfl rfl)
      exact System.asyncPoint_stutter task (.caught caller) (s.pool.submitters task)
        (by rw [hin, hthrew]; rfl) rfl rfl (Function.update_eq_self ..).symm
  | startCaught task =>
    obtain ⟨caller, e, hcaught, -, rfl⟩ := step_startCaught hstep
    have hagrees := h.pool.agrees task
    rw [hcaught] at hagrees
    have hnotRun := notRun_of_not_accepted h task hagrees.1
    have hpoint : s.asyncPoint task = .startFailed := by
      rw [System.asyncPoint_of_notRun hnotRun, hcaught]
      rfl
    -- the failed `start` takes the task off the list, in both
    refine hsingle (b := .startFailed task) ?_
    rw [AsyncTasks.step, show s.toAsync.points task = .startFailed from hpoint]
    refine congrArg some (Eq.symm ?_)
    exact System.toAsync_removeTask (System.asyncPoint_setStart task (.threw e)
      (s.pool.submitters task) hnotRun rfl rfl (Function.update_eq_self ..).symm)
      (by rw [hpoint]; rfl) rfl rfl rfl
  | pool action =>
    obtain ⟨hallows, p, htaken, rfl⟩ := step_pool hstep
    exact toAsync_pool h hallows htaken
  | executed task result =>
    obtain ⟨hpoint, -, rfl⟩ := step_executed hstep
    have hexecute := hrunning task (by rw [hpoint]; exact fun _ => rfl)
    have hmoved : (s.setTask task (afterExecute result)).asyncPoint =
        Function.update s.asyncPoint task ((afterExecute result).asyncPoint .new) :=
      System.asyncPoint_setTask task _ (afterExecute_isNotRun result) rfl rfl rfl
    refine hsingle (b := .executed task result) ?_
    rw [AsyncTasks.step, hexecute]
    -- what has been executed is not new
    have hafter : isNewPoint ((afterExecute result).asyncPoint .new) = false := by
      unfold afterExecute
      cases notification result <;> rfl
    rw [System.toAsync_setPoint hmoved (.inl (by
      rw [hafter, show s.asyncPoint task = .execute from hexecute]; rfl)) rfl rfl]
    unfold afterExecute
    cases notification result <;> rfl
  | onComplete task =>
    obtain ⟨result, what, hpoint, -, rfl⟩ := step_onComplete hstep
    have hbefore := hrunning task (by rw [hpoint]; exact fun _ => rfl)
    refine hsingle (b := .onComplete task) ?_
    rw [AsyncTasks.step, hbefore]
    refine congrArg some (Eq.symm ?_)
    exact System.toAsync_removeTask
      (System.asyncPoint_setTask task (.callback result what) rfl rfl rfl rfl)
      (by rw [show s.asyncPoint task = _ from hbefore]; rfl) rfl rfl rfl
  | callback task =>
    obtain ⟨result, what, hpoint, rfl⟩ := step_callback hstep
    have hbefore := hrunning task (by rw [hpoint]; exact fun _ => rfl)
    refine hsingle (b := .callback task) ?_
    rw [AsyncTasks.step, hbefore]
    refine congrArg some (Eq.symm ?_)
    exact System.toAsync_setPoint
      (System.asyncPoint_setTask task (.called result what) rfl rfl rfl rfl)
      (.inl (by rw [show s.asyncPoint task = _ from hbefore]; rfl)) rfl rfl
  | returned task thrown =>
    obtain ⟨result, what, hpoint, -, rfl⟩ := step_returned hstep
    have hbefore := hrunning task (by rw [hpoint]; exact fun _ => rfl)
    refine hsingle (b := .returned task thrown) ?_
    rw [AsyncTasks.step, hbefore]
    refine congrArg some (Eq.symm ?_)
    exact System.toAsync_setPoint
      (System.asyncPoint_setTask task (.leaving result thrown) rfl rfl rfl rfl)
      (.inl (by rw [show s.asyncPoint task = _ from hbefore]; rfl)) rfl rfl
  | finish task =>
    obtain ⟨result, thrown, hpoint, rfl⟩ := step_finish hstep
    have hbefore := hrunning task (by rw [hpoint]; exact fun _ => rfl)
    refine hsingle (b := .finish task) ?_
    rw [AsyncTasks.step, hbefore]
    refine congrArg some (Eq.symm ?_)
    exact System.toAsync_setPoint
      (System.asyncPoint_setTask task (.finished result (thrown.map caught)) rfl rfl rfl rfl)
      (.inl (by rw [show s.asyncPoint task = _ from hbefore]; rfl)) rfl rfl
  | shutdown k caller =>
    obtain ⟨-, -, rfl⟩ := step_shutdown hstep
    exact hstutter rfl
  | shutdownLock k =>
    obtain ⟨caller, -, -, ⟨-, rfl⟩ | ⟨-, rfl⟩⟩ := step_shutdownLock hstep
    · exact hstutter rfl
    · exact hsingle (b := .gracefulShutdown) rfl
  | cancel k =>
    obtain ⟨caller, copy, rest, -, ⟨task, tasks, -, rfl⟩ | ⟨-, rfl⟩⟩ := step_cancel hstep
    · exact hstutter rfl
    · exact hstutter rfl
  | get k =>
    obtain ⟨caller, task, rest, -, -, rfl⟩ := step_get hstep
    exact hstutter rfl
  | joinLock k =>
    obtain ⟨caller, -, -, rfl⟩ := step_joinLock hstep
    exact hstutter rfl
  | join k =>
    obtain ⟨caller, -, -, rfl⟩ := step_join hstep
    exact hstutter rfl

/-- A run of the manager is a run of the abstract one. -/
theorem toAsync_run {pool : Config} {s s' : System} {actions : List Action} (h : Inv s)
    (hrun : Runs.run (step pool) s actions = some s') :
    ∃ bs, Runs.run AsyncTasks.step s.toAsync bs = some s'.toAsync :=
  Runs.simulates_run System.toAsync (fun _ a _ h => inv_step a h)
    (fun _ a _ h => toAsync_step a h) h hrun

/-- The abstract invariant holds along a run of the manager. -/
theorem asyncInv_of_run {pool : Config} {s s' : System} {actions : List Action} (h : Inv s)
    (hasync : AsyncTasks.Inv s.toAsync) (hrun : Runs.run (step pool) s actions = some s') :
    AsyncTasks.Inv s'.toAsync := by
  obtain ⟨bs, hbs⟩ := toAsync_run h hrun
  exact AsyncTasks.inv_of_run hasync hbs

/-! ## When a shutdown has returned -/

/-- The calls of the callback of a task. -/
def System.callsOf (s : System) (task : TaskPtr) : List Notification :=
  (s.calls.filter fun call => call.1 = task).map Prod.snd

/-- Each task that was accepted has finished, and its callback has been called once, unless what
`execute` threw is no exception; no other task was run. -/
structure AllDone (s : System) : Prop where
  accepted : ∀ task, s.starts task = .accepted → ∃ result exception,
    s.tasks task = .finished result exception ∧
      s.callsOf task = (notification result).toOption.toList
  others : ∀ task, s.starts task ≠ .accepted → s.tasks task = .notRun ∧ s.callsOf task = []

/-- Nothing has been accepted, run or called since. -/
structure NothingNew (s s' : System) : Prop where
  tasks : s'.tasks = s.tasks
  calls : s'.calls = s.calls
  executed : s'.pool.executed = s.pool.executed
  accepted : ∀ task, s'.starts task = .accepted → s.starts task = .accepted

/-- What the pool has taken, and no worker has on a thread, is done. -/
theorem finished_of_left {s : System} (h : Inv s) (hleft : ∀ w ∈ s.pool.workers, w = .left)
    {task : TaskPtr} (haccepted : s.pool.submitters task = .accepted) :
    (s.tasks task).isFinished = true := by
  have hplaces := h.pool.pool.places_eq task
  rw [if_pos haccepted] at hplaces
  have hnobody (p : Worker → Bool) (hp : p .left = false) : s.pool.workers.countP p = 0 := by
    refine List.countP_eq_zero.mpr fun w hw => ?_
    rw [hleft w hw, hp]
    exact Bool.false_ne_true
  have hheld : s.pool.holders task = 0 := hnobody _ rfl
  -- a task that is queued keeps a worker active
  have hqueue : s.pool.workerQueue = [] := by
    by_contra hne
    have hactive := h.pool.pool.active_pos hne
    have hnone : s.pool.activeWorkers = 0 := hnobody _ rfl
    omega
  rw [QueuedThreadPool.System.places, hheld, hqueue] at hplaces
  exact h.task.done task (List.count_pos_iff.mp (by rw [List.count_nil] at hplaces; omega))

/-- Where no worker has a thread, a task is finished or was never run. -/
theorem notRun_or_finished {s : System} (h : Inv s) (hleft : ∀ w ∈ s.pool.workers, w = .left)
    (task : TaskPtr) : s.tasks task = .notRun ∨ (s.tasks task).isFinished = true := by
  by_cases haccepted : s.pool.submitters task = .accepted
  · exact .inr (finished_of_left h hleft haccepted)
  · exact .inl (notRun_of_not_accepted h task haccepted)

/-- What `start` has accepted the pool has accepted. -/
theorem submitter_of_accepted {s : System} (h : Inv s) {task : TaskPtr}
    (haccepted : s.starts task = .accepted) : s.pool.submitters task = .accepted := by
  have hagrees := h.pool.agrees task
  rw [haccepted] at hagrees
  exact hagrees

/-- When the pool is released every task has ended. -/
theorem allDone_of_released {s : System} (h : Inv s) (hasync : AsyncTasks.Inv s.toAsync)
    (hreleased : s.released = true) : AllDone s := by
  obtain ⟨hterminated, hleft⟩ := h.shutdown.released hreleased
  have hcalls (task : TaskPtr) : s.callsOf task = (s.asyncPoint task).calls := hasync.calls_eq task
  refine ⟨fun task haccepted => ?_, fun task hne => ?_⟩
  · have hfinished := finished_of_left h hleft (submitter_of_accepted h haccepted)
    cases hpoint : s.tasks task with
    | finished result exception =>
      refine ⟨result, exception, rfl, ?_⟩
      rw [hcalls, System.asyncPoint, hpoint]
      rfl
    | _ => rw [hpoint] at hfinished; cases hfinished
  · have hsubmitter : s.pool.submitters task ≠ .accepted := by
      intro haccepted
      rcases h.pool.accepted haccepted with hstart | hin
      · exact hne hstart
      · rw [h.shutdown.noStart hterminated task] at hin
        cases hin
    have hnotRun := notRun_of_not_accepted h task hsubmitter
    refine ⟨hnotRun, ?_⟩
    rw [hcalls, System.asyncPoint_of_notRun hnotRun]
    cases hpoint : s.starts task with
    | accepted => exact absurd hpoint hne
    | inPool caller =>
      have hin := h.shutdown.noStart hterminated task
      rw [hpoint] at hin
      cases hin
    | _ => rfl

/-- Once the pool is released, nothing happens. -/
theorem nothingNew_step {pool : Config} {s s' : System} (a : Action) (h : Inv s)
    (hreleased : s.released = true) (hstep : step pool s a = some s') :
    s'.released = true ∧ NothingNew s s' := by
  -- the manager is terminated and its threads have left, so no task is running
  obtain ⟨hterminated, hleft⟩ := h.shutdown.released hreleased
  have hin := h.shutdown.noStart hterminated
  have hidle {task : TaskPtr} {point : TaskPoint} (hpoint : s.tasks task = point)
      (hrun : point.isNotRun = false) (hopen : point.isFinished = false) : False := by
    rcases notRun_or_finished h hleft task with hnotRun | hfinished
    · rw [← hpoint, hnotRun] at hrun
      cases hrun
    · rw [hpoint, hopen] at hfinished
      cases hfinished
  -- it is enough that tasks, calls and runs are as before
  have hnothing {t : System} (htasks : t.tasks = s.tasks) (hcalls : t.calls = s.calls)
      (hexecuted : t.pool.executed = s.pool.executed) {task : TaskPtr} {point : StartPoint}
      (hstarts : t.starts = Function.update s.starts task point) (hpoint : point ≠ .accepted) :
      NothingNew s t := by
    refine ⟨htasks, hcalls, hexecuted, fun t haccepted => ?_⟩
    rw [hstarts] at haccepted
    by_cases ht : t = task
    · rw [ht, Function.update_self] at haccepted
      exact absurd haccepted hpoint
    · rw [Function.update_of_ne ht] at haccepted
      exact haccepted
  cases a with
  | start task caller =>
    obtain ⟨-, -, rfl⟩ := step_start hstep
    exact ⟨hreleased, hnothing rfl rfl rfl rfl nofun⟩
  | startLock task =>
    obtain ⟨caller, -, -, ⟨e, -, rfl⟩ | ⟨hopen, -, -⟩⟩ := step_startLock hstep
    · exact ⟨hreleased, hnothing rfl rfl rfl rfl nofun⟩
    · rw [hterminated] at hopen
      cases hopen
  | startReturned task =>
    obtain ⟨caller, hpoint, -⟩ := step_startReturned hstep
    have hnone := hin task
    rw [hpoint] at hnone
    cases hnone
  | startCaught task =>
    obtain ⟨caller, e, -, -, rfl⟩ := step_startCaught hstep
    exact ⟨hreleased, hnothing rfl rfl rfl rfl nofun⟩
  | pool action =>
    obtain ⟨hallows, p, htaken, rfl⟩ := step_pool hstep
    -- only an idle thread can still be collected
    obtain rfl := pool_idle hallows hin hleft htaken
    obtain ⟨-, rfl⟩ := QueuedThreadPool.step_collect htaken
    exact ⟨hreleased, rfl, rfl, rfl, fun _ => id⟩
  | executed task result =>
    obtain ⟨hpoint, -, -⟩ := step_executed hstep
    exact (hidle hpoint rfl rfl).elim
  | onComplete task =>
    obtain ⟨result, what, hpoint, -, -⟩ := step_onComplete hstep
    exact (hidle hpoint rfl rfl).elim
  | callback task =>
    obtain ⟨result, what, hpoint, -⟩ := step_callback hstep
    exact (hidle hpoint rfl rfl).elim
  | returned task thrown =>
    obtain ⟨result, what, hpoint, -, -⟩ := step_returned hstep
    exact (hidle hpoint rfl rfl).elim
  | finish task =>
    obtain ⟨result, thrown, hpoint, -⟩ := step_finish hstep
    exact (hidle hpoint rfl rfl).elim
  | shutdown k caller =>
    obtain ⟨-, -, rfl⟩ := step_shutdown hstep
    exact ⟨hreleased, rfl, rfl, rfl, fun _ => id⟩
  | shutdownLock k =>
    obtain ⟨caller, -, -, ⟨-, rfl⟩ | ⟨-, rfl⟩⟩ := step_shutdownLock hstep
    · exact ⟨hreleased, rfl, rfl, rfl, fun _ => id⟩
    · exact ⟨hreleased, rfl, rfl, rfl, fun _ => id⟩
  | cancel k =>
    obtain ⟨caller, copy, rest, -, ⟨task, tasks, -, rfl⟩ | ⟨-, rfl⟩⟩ := step_cancel hstep
    · exact ⟨hreleased, rfl, rfl, rfl, fun _ => id⟩
    · exact ⟨hreleased, rfl, rfl, rfl, fun _ => id⟩
  | get k =>
    obtain ⟨caller, task, rest, -, -, rfl⟩ := step_get hstep
    exact ⟨hreleased, rfl, rfl, rfl, fun _ => id⟩
  | joinLock k =>
    obtain ⟨caller, -, -, rfl⟩ := step_joinLock hstep
    exact ⟨hreleased, rfl, rfl, rfl, fun _ => id⟩
  | join k =>
    obtain ⟨caller, -, -, rfl⟩ := step_join hstep
    exact ⟨rfl, rfl, rfl, rfl, fun _ => id⟩

/-- After the release no task begins, and no callback is called. -/
theorem nothingNew_of_run {pool : Config} {s s' : System} {actions : List Action} (h : Inv s)
    (hreleased : s.released = true) (hrun : Runs.run (step pool) s actions = some s') :
    NothingNew s s' := by
  have hpres (t : System) (a : Action) (t' : System)
      (hkept : Inv t ∧ t.released = true ∧ NothingNew s t) (_ : True)
      (hstep : step pool t a = some t') : Inv t' ∧ t'.released = true ∧ NothingNew s t' := by
    obtain ⟨hinv, hreleased, hsame⟩ := hkept
    obtain ⟨hreleased', hnew⟩ := nothingNew_step a hinv hreleased hstep
    exact ⟨inv_step a hinv hstep, hreleased', hnew.tasks.trans hsame.tasks,
      hnew.calls.trans hsame.calls, hnew.executed.trans hsame.executed,
      fun task haccepted => hsame.accepted task (hnew.accepted task haccepted)⟩
  have hkept := Runs.run_invariant hpres ⟨h, hreleased, rfl, rfl, rfl, fun _ => id⟩ hrun
    (Runs.everyStep_true _ _)
  exact hkept.2.2

/-- **Quiet after shutdown.** When `gracefulShutdown` has returned from its last section, each
accepted task has finished and has called its callback once, and nothing happens afterwards. -/
theorem quiet_of_returned {pool : Config} {actions : List Action} {s : System}
    (hrun : Runs.run (step pool) (initial pool) actions = some s) {k : ℕ}
    (hreturned : s.shutdowns k = .returned) :
    AllDone s ∧ ∀ more s', Runs.run (step pool) s more = some s' → NothingNew s s' := by
  have hinv := inv_of_run (inv_initial pool) hrun
  have hreleased := hinv.shutdown.returned k hreturned
  have hasync := asyncInv_of_run (inv_initial pool) AsyncTasks.inv_initial hrun
  exact ⟨allDone_of_released hinv hasync hreleased,
    fun more s' hmore => nothingNew_of_run hinv hreleased hmore⟩

/-- One thread, as the constructor makes it. -/
def oneThread : Config := { QueuedThreadPool.oneThread with blockingQueue := .unbound }

/-- A task is shut down while it is in `execute`. -/
def shutdownOne : List Action := [
  .start 0 .application, .startLock 0, .pool (.enter 0 false), .pool (.lock 0),
  .pool (.attempt 0 .started), .startReturned 0, .pool (.run 0),
  .shutdown 0 .application, .shutdownLock 0, .cancel 0, .cancel 0,
  .executed 0 (.ok none), .onComplete 0, .callback 0, .returned 0 none, .finish 0,
  .get 0, .joinLock 0, .pool (.returned 0), .pool (.getNextTask 0), .pool (.leave 0), .join 0]

theorem quiet_of_returned_shutdownOne : ∃ s,
    Runs.run (step oneThread) (initial oneThread) shutdownOne = some s ∧
      (AllDone s ∧ ∀ more s', Runs.run (step oneThread) s more = some s' → NothingNew s s') :=
  ⟨_, rfl, quiet_of_returned
    (show Runs.run (step oneThread) (initial oneThread) shutdownOne = some _ from rfl) (k := 0) rfl⟩

/-- **The manager with its pool refines `AsyncTasks`.** Seen through `toAsync`, every run is one of
`AsyncTasks`, where `start` and the pool's answer are one step. -/
theorem refines_asyncTasks {pool : Config} {actions : List Action} {s : System}
    (hrun : Runs.run (step pool) (initial pool) actions = some s) :
    ∃ bs, Runs.run AsyncTasks.step {} bs = some s.toAsync :=
  toAsync_run (inv_initial pool) hrun

theorem refines_asyncTasks_shutdownOne : ∃ s,
    Runs.run (step oneThread) (initial oneThread) shutdownOne = some s ∧
      ∃ bs, Runs.run AsyncTasks.step {} bs = some s.toAsync :=
  ⟨_, rfl, refines_asyncTasks
    (show Runs.run (step oneThread) (initial oneThread) shutdownOne = some _ from rfl)⟩

/-! ## When a shutdown can return -/

/-- Past the first section, and not at the end. -/
def ShutdownPoint.inProgress : ShutdownPoint → Bool
  | cancelling _ _ _ | getting _ _ | joining _ => true
  | outside | waiting _ | alreadyTerminated | returned => false

/-- A `gracefulShutdown` in progress has a caller. -/
theorem ShutdownPoint.caller?_ne_none {point : ShutdownPoint} (h : point.inProgress = true) :
    point.caller? ≠ none := by
  cases point <;> first | exact Option.some_ne_none _ | cases h

/-- A `gracefulShutdown` in progress has set the flag. -/
theorem ShutdownPoint.hasTerminated_of_inProgress {point : ShutdownPoint}
    (h : point.inProgress = true) : point.hasTerminated = true := by
  cases point <;> first | rfl | cases h

/-- Nothing keeps the shutdown from returning. -/
structure Free (s : System) (k : ℕ) : Prop where
  /-- A task that shuts down its own manager would wait for itself. -/
  application : (s.shutdowns k).caller? = some .application
  /-- A task that the pool has not taken never finishes, also when it is still to be removed. -/
  accepted : ∀ task ∈ (s.shutdowns k).toGet, s.starts task = .accepted
  /-- While the shutdown has the mutex, a thread of the pool that calls `start` or
  `gracefulShutdown` waits for it. -/
  nobodyWaits : (s.shutdowns k).isJoining = true → ∀ task, s.pending task = none

/-- What `execute` of each task ends with is given. -/
def Follows (results : TaskPtr → ExecuteResult) (_ : System) : Action → Prop
  | .executed task result => result = results task
  | _ => True

/-- The shutdown returns in some order of the steps. -/
def CanReturn (pool : Config) (results : TaskPtr → ExecuteResult) (s : System) (k : ℕ) : Prop :=
  Runs.Reaches (step pool) (Follows results) (fun s' => s'.shutdowns k = .returned) s

/-! ### A shutdown that is not free never returns -/

/-- The thread of a task that is in a call is a thread of the pool. -/
theorem pending_eq_none_of_left {s : System} (h : Inv s) (hleft : ∀ w ∈ s.pool.workers, w = .left)
    (task : TaskPtr) : s.pending task = none := by
  refine h.caller.pending_eq_none task ?_
  rcases notRun_or_finished h hleft task with hnotRun | hfinished
  · rw [hnotRun]
    rfl
  · cases hpoint : s.tasks task with
    | finished result exception => rfl
    | _ => rw [hpoint] at hfinished; cases hfinished

/-- The mutex is kept from everybody, or is free. -/
theorem mutex_of_terminated {s : System} (h : Inv s) {k : ℕ}
    (hset : (s.shutdowns k).hasTerminated = true) (hjoining : (s.shutdowns k).isJoining = false) :
    s.instanceMutex = none := by
  cases hmutex : s.instanceMutex with
  | none => rfl
  | some call =>
    have hhas := (h.mutex call).mpr hmutex
    cases call with
    | start task =>
      have hin : (s.starts task).isInPool = true := hhas
      rw [h.shutdown.noStart (h.shutdown.terminated k hset) task] at hin
      cases hin
    | shutdown j =>
      have hj : (s.shutdowns j).isJoining = true := hhas
      have hsetj : (s.shutdowns j).hasTerminated = true := by
        cases hpoint : s.shutdowns j with
        | joining caller => rfl
        | _ => rw [hpoint] at hj; cases hj
      rw [h.shutdown.unique j k hsetj hset, hjoining] at hj
      cases hj

/-- A thread that waits while a shutdown has the mutex goes on waiting. -/
theorem pending_step {pool : Config} {s s' : System} (a : Action) (h : Inv s) {k : ℕ}
    (hjoining : (s.shutdowns k).isJoining = true) {task : TaskPtr}
    (hpending : s.pending task ≠ none) (hstep : step pool s a = some s') :
    s'.shutdowns k = s.shutdowns k ∧ s'.pending task ≠ none := by
  -- the shutdown has the mutex, so every step that needs it is impossible
  have hmutex : s.instanceMutex = some (.shutdown k) := (h.mutex (.shutdown k)).mp hjoining
  have hfree {P : Prop} (hnone : s.instanceMutex = none) : P := by
    rw [hmutex] at hnone
    cases hnone
  -- a thread that waits inside a call cannot enter another one
  have hupdate {caller : Caller} {call : Call} (hcan : s.canCall caller = true) :
      caller.update s.pending (some call) task ≠ none := by
    cases caller with
    | application => exact hpending
    | task t =>
      show Function.update s.pending t (some call) task ≠ none
      by_cases ht : task = t
      · rw [ht, Function.update_self]
        nofun
      · rw [Function.update_of_ne ht]
        exact hpending
  -- the calls that are not joining are other ones
  have hother {j : ℕ} {point : ShutdownPoint} (hpoint : (s.shutdowns j).isJoining = false) :
      Function.update s.shutdowns j point k = s.shutdowns k := by
    refine Function.update_of_ne ?_ ..
    rintro rfl
    rw [hjoining] at hpoint
    cases hpoint
  cases a with
  | start t caller =>
    obtain ⟨-, hcan, rfl⟩ := step_start hstep
    exact ⟨rfl, hupdate hcan⟩
  | startLock t =>
    obtain ⟨caller, -, hnone, -⟩ := step_startLock hstep
    exact hfree hnone
  | startReturned t =>
    obtain ⟨caller, hpoint, -⟩ := step_startReturned hstep
    -- the mutex would be that of the `start`
    have hstart := (h.mutex (.start t)).mp (show (s.starts t).isInPool = true by rw [hpoint]; rfl)
    rw [hmutex] at hstart
    cases hstart
  | startCaught t =>
    obtain ⟨caller, e, -, hnone, -⟩ := step_startCaught hstep
    exact hfree hnone
  | pool action =>
    obtain ⟨-, p, -, rfl⟩ := step_pool hstep
    obtain ⟨tasks, heq⟩ := s.afterPool_eq p action
    rw [heq]
    exact ⟨rfl, hpending⟩
  | executed t result =>
    obtain ⟨-, -, rfl⟩ := step_executed hstep
    exact ⟨rfl, hpending⟩
  | onComplete t =>
    obtain ⟨result, what, -, hnone, -⟩ := step_onComplete hstep
    exact hfree hnone
  | callback t =>
    obtain ⟨result, what, -, rfl⟩ := step_callback hstep
    exact ⟨rfl, hpending⟩
  | returned t thrown =>
    obtain ⟨result, what, -, -, rfl⟩ := step_returned hstep
    exact ⟨rfl, hpending⟩
  | finish t =>
    obtain ⟨result, thrown, -, rfl⟩ := step_finish hstep
    exact ⟨rfl, hpending⟩
  | shutdown j caller =>
    obtain ⟨hout, hcan, rfl⟩ := step_shutdown hstep
    exact ⟨hother (by rw [hout]; rfl), hupdate hcan⟩
  | shutdownLock j =>
    obtain ⟨caller, -, hnone, -⟩ := step_shutdownLock hstep
    exact hfree hnone
  | cancel j =>
    obtain ⟨caller, copy, rest, hpoint, ⟨t, ts, -, rfl⟩ | ⟨-, rfl⟩⟩ := step_cancel hstep
    · exact ⟨hother (by rw [hpoint]; rfl), hpending⟩
    · exact ⟨hother (by rw [hpoint]; rfl), hpending⟩
  | get j =>
    obtain ⟨caller, t, rest, hpoint, -, rfl⟩ := step_get hstep
    exact ⟨hother (by rw [hpoint]; rfl), hpending⟩
  | joinLock j =>
    obtain ⟨caller, -, hnone, -⟩ := step_joinLock hstep
    exact hfree hnone
  | join j =>
    -- the thread that waits has not left the pool
    obtain ⟨caller, -, hleft, -⟩ := step_join hstep
    exact absurd (pending_eq_none_of_left h hleft task) hpending

/-- A shutdown returns when no worker has a thread, or goes on for the same caller, and stops
waiting only for what has finished. -/
theorem inProgress_step {pool : Config} {s s' : System} (a : Action) {k : ℕ}
    (hprogress : (s.shutdowns k).inProgress = true) (hstep : step pool s a = some s') :
    ((∀ w ∈ s.pool.workers, w = .left) ∧ (s.shutdowns k).toGet = []) ∨
    ((s'.shutdowns k).inProgress = true ∧
      (s'.shutdowns k).caller? = (s.shutdowns k).caller? ∧
      ∀ task ∈ (s.shutdowns k).toGet,
        task ∈ (s'.shutdowns k).toGet ∨ (s.tasks task).isFinished = true) := by
  -- wherever the call goes, these three things are to be shown
  have hmoved {point : ShutdownPoint} (heq : s'.shutdowns k = point)
      (hpoint : point.inProgress = true) (hcaller : point.caller? = (s.shutdowns k).caller?)
      (hget : ∀ task ∈ (s.shutdowns k).toGet,
        task ∈ point.toGet ∨ (s.tasks task).isFinished = true) :
      (s'.shutdowns k).inProgress = true ∧
        (s'.shutdowns k).caller? = (s.shutdowns k).caller? ∧
        ∀ task ∈ (s.shutdowns k).toGet,
          task ∈ (s'.shutdowns k).toGet ∨ (s.tasks task).isFinished = true := by
    rw [heq]
    exact ⟨hpoint, hcaller, hget⟩
  have hsame (heq : s'.shutdowns k = s.shutdowns k) := hmoved heq hprogress rfl fun _ => .inl
  -- a step of another call leaves this one
  have hother {j : ℕ} {point : ShutdownPoint} (hj : k ≠ j) :
      Function.update s.shutdowns j point k = s.shutdowns k := Function.update_of_ne hj ..
  have hne {j : ℕ} (hpoint : (s.shutdowns j).inProgress = false) : k ≠ j := by
    rintro rfl
    rw [hprogress] at hpoint
    cases hpoint
  cases a with
  | start t caller =>
    obtain ⟨-, -, rfl⟩ := step_start hstep
    exact .inr (hsame rfl)
  | startLock t =>
    obtain ⟨caller, -, -, ⟨e, -, rfl⟩ | ⟨-, -, rfl⟩⟩ := step_startLock hstep
    · exact .inr (hsame rfl)
    · exact .inr (hsame rfl)
  | startReturned t =>
    obtain ⟨caller, -, ⟨-, rfl⟩ | ⟨e, -, rfl⟩⟩ := step_startReturned hstep
    · exact .inr (hsame rfl)
    · exact .inr (hsame rfl)
  | startCaught t =>
    obtain ⟨caller, e, -, -, rfl⟩ := step_startCaught hstep
    exact .inr (hsame rfl)
  | pool action =>
    obtain ⟨-, p, -, rfl⟩ := step_pool hstep
    obtain ⟨tasks, heq⟩ := s.afterPool_eq p action
    exact .inr (hsame (by rw [heq]))
  | executed t result =>
    obtain ⟨-, -, rfl⟩ := step_executed hstep
    exact .inr (hsame rfl)
  | onComplete t =>
    obtain ⟨result, what, -, -, rfl⟩ := step_onComplete hstep
    exact .inr (hsame rfl)
  | callback t =>
    obtain ⟨result, what, -, rfl⟩ := step_callback hstep
    exact .inr (hsame rfl)
  | returned t thrown =>
    obtain ⟨result, what, -, -, rfl⟩ := step_returned hstep
    exact .inr (hsame rfl)
  | finish t =>
    obtain ⟨result, thrown, -, rfl⟩ := step_finish hstep
    exact .inr (hsame rfl)
  | shutdown j caller =>
    obtain ⟨hout, -, rfl⟩ := step_shutdown hstep
    exact .inr (hsame (hother (hne (by rw [hout]; rfl))))
  | shutdownLock j =>
    obtain ⟨caller, hwaiting, -, ⟨-, rfl⟩ | ⟨-, rfl⟩⟩ := step_shutdownLock hstep
    · exact .inr (hsame (hother (hne (by rw [hwaiting]; rfl))))
    · exact .inr (hsame (hother (hne (by rw [hwaiting]; rfl))))
  | cancel j =>
    refine .inr ?_
    obtain ⟨caller, copy, rest, hpoint, ⟨t, ts, -, rfl⟩ | ⟨-, rfl⟩⟩ := step_cancel hstep
    · rcases eq_or_ne k j with rfl | hj
      · exact hmoved (Function.update_self ..) rfl (by rw [hpoint]; rfl)
          (by rw [hpoint]; exact fun _ => .inl)
      · exact hsame (hother hj)
    · rcases eq_or_ne k j with rfl | hj
      · exact hmoved (Function.update_self ..) rfl (by rw [hpoint]; rfl)
          (by rw [hpoint]; exact fun _ => .inl)
      · exact hsame (hother hj)
  | get j =>
    refine .inr ?_
    obtain ⟨caller, t, rest, hpoint, hfinished, rfl⟩ := step_get hstep
    rcases eq_or_ne k j with rfl | hj
    -- the task that `get` has returned from has finished
    · refine hmoved (Function.update_self ..) rfl (by rw [hpoint]; rfl) ?_
      rw [hpoint]
      intro task hmem
      rcases List.mem_cons.mp hmem with rfl | hrest
      · exact .inr hfinished
      · exact .inl hrest
    · exact hsame (hother hj)
  | joinLock j =>
    refine .inr ?_
    obtain ⟨caller, hpoint, -, rfl⟩ := step_joinLock hstep
    rcases eq_or_ne k j with rfl | hj
    · exact hmoved (Function.update_self ..) rfl (by rw [hpoint]; rfl) (by rw [hpoint]; nofun)
    · exact hsame (hother hj)
  | join j =>
    obtain ⟨caller, hpoint, hleft, rfl⟩ := step_join hstep
    rcases eq_or_ne k j with rfl | hj
    · exact .inl ⟨hleft, by rw [hpoint]; rfl⟩
    · exact .inr (hsame (hother hj))

/-- What the pool has not taken stays so. -/
theorem notAccepted_step {pool : Config} {s s' : System} (a : Action) {task : TaskPtr}
    (hdecided : (s.starts task).isDecided = true) (hnot : s.starts task ≠ .accepted)
    (hstep : step pool s a = some s') : s'.starts task ≠ .accepted := by
  -- a `start` that goes on to another point than `accepted` changes nothing here
  have hupdate {t : TaskPtr} {point : StartPoint} (hpoint : point ≠ .accepted) :
      Function.update s.starts t point task ≠ .accepted := by
    by_cases ht : task = t
    · rw [ht, Function.update_self]
      exact hpoint
    · rw [Function.update_of_ne ht]
      exact hnot
  cases a with
  | start t caller =>
    obtain ⟨-, -, rfl⟩ := step_start hstep
    exact hupdate nofun
  | startLock t =>
    obtain ⟨caller, -, -, ⟨e, -, rfl⟩ | ⟨-, -, rfl⟩⟩ := step_startLock hstep
    · exact hupdate nofun
    · exact hupdate nofun
  | startReturned t =>
    obtain ⟨caller, hpoint, ⟨-, rfl⟩ | ⟨e, -, rfl⟩⟩ := step_startReturned hstep
    -- the accepted one is inside the pool, so it is another task
    · have ht : task ≠ t := by
        rintro rfl
        rw [hpoint] at hdecided
        cases hdecided
      show Function.update s.starts t .accepted task ≠ .accepted
      rw [Function.update_of_ne ht]
      exact hnot
    · exact hupdate nofun
  | startCaught t =>
    obtain ⟨caller, e, -, -, rfl⟩ := step_startCaught hstep
    exact hupdate nofun
  | pool action =>
    obtain ⟨-, p, -, rfl⟩ := step_pool hstep
    obtain ⟨tasks, heq⟩ := s.afterPool_eq p action
    rw [heq]
    exact hnot
  | executed t result =>
    obtain ⟨-, -, rfl⟩ := step_executed hstep
    exact hnot
  | onComplete t =>
    obtain ⟨result, what, -, -, rfl⟩ := step_onComplete hstep
    exact hnot
  | callback t =>
    obtain ⟨result, what, -, rfl⟩ := step_callback hstep
    exact hnot
  | returned t thrown =>
    obtain ⟨result, what, -, -, rfl⟩ := step_returned hstep
    exact hnot
  | finish t =>
    obtain ⟨result, thrown, -, rfl⟩ := step_finish hstep
    exact hnot
  | shutdown j caller =>
    obtain ⟨-, -, rfl⟩ := step_shutdown hstep
    exact hnot
  | shutdownLock j =>
    obtain ⟨caller, -, -, ⟨-, rfl⟩ | ⟨-, rfl⟩⟩ := step_shutdownLock hstep
    · exact hnot
    · exact hnot
  | cancel j =>
    obtain ⟨caller, copy, rest, -, ⟨t, ts, -, rfl⟩ | ⟨-, rfl⟩⟩ := step_cancel hstep
    · exact hnot
    · exact hnot
  | get j =>
    obtain ⟨caller, t, rest, -, -, rfl⟩ := step_get hstep
    exact hnot
  | joinLock j =>
    obtain ⟨caller, -, -, rfl⟩ := step_joinLock hstep
    exact hnot
  | join j =>
    obtain ⟨caller, -, -, rfl⟩ := step_join hstep
    exact hnot

/-- A shutdown that is in progress and not free stays so. -/
theorem notFree_step {pool : Config} {s s' : System} (a : Action) (h : Inv s) {k : ℕ}
    (hprogress : (s.shutdowns k).inProgress = true) (hnot : ¬Free s k)
    (hstep : step pool s a = some s') : (s'.shutdowns k).inProgress = true ∧ ¬Free s' k := by
  -- there are three things that keep a shutdown, and each stays
  by_cases happlication : (s.shutdowns k).caller? = some .application
  · by_cases hlost : ∀ task ∈ (s.shutdowns k).toGet, s.starts task = .accepted
    · -- some thread waits for the mutex that the shutdown has
      have hwaits : (s.shutdowns k).isJoining = true ∧ ∃ task, s.pending task ≠ none := by
        by_contra hnobody
        refine hnot ⟨happlication, hlost, fun hjoining task => ?_⟩
        by_contra hpending
        exact hnobody ⟨hjoining, task, hpending⟩
      obtain ⟨hjoining, task, hpending⟩ := hwaits
      obtain ⟨heq, hpending'⟩ := pending_step a h hjoining hpending hstep
      rw [heq]
      refine ⟨hprogress, fun hfree => hpending' (hfree.nobodyWaits ?_ task)⟩
      rw [heq]
      exact hjoining
    -- it waits for a task that the pool has not accepted
    · obtain ⟨task, hmem, hne⟩ : ∃ task ∈ (s.shutdowns k).toGet, s.starts task ≠ .accepted := by
        simpa using hlost
      have hdecided := h.shutdown.toGet k task hmem
      have hsubmitter : s.pool.submitters task ≠ .accepted := by
        intro haccepted
        rcases h.pool.accepted haccepted with hstart | hin
        · exact hne hstart
        · rw [StartPoint.isDecided_eq, hin] at hdecided
          simp at hdecided
      rcases inProgress_step a hprogress hstep with ⟨-, hnil⟩ | ⟨hprogress', -, hget⟩
      · rw [hnil] at hmem
        cases hmem
      · refine ⟨hprogress', fun hfree => ?_⟩
        rcases hget task hmem with hmem' | hfinished
        · exact notAccepted_step a hdecided hne hstep (hfree.accepted task hmem')
        · rw [notRun_of_not_accepted h task hsubmitter] at hfinished
          cases hfinished
  · rcases inProgress_step a hprogress hstep with ⟨hleft, -⟩ | ⟨hprogress', hcaller, -⟩
    · -- the thread that shuts down is one of those that it joins
      cases hpoint : (s.shutdowns k).caller? with
      | none => exact absurd hpoint (ShutdownPoint.caller?_ne_none hprogress)
      | some caller =>
        cases caller with
        | application => exact absurd hpoint happlication
        | task t =>
          have hpending := (h.caller.pending t (.shutdown k)).mpr hpoint
          rw [pending_eq_none_of_left h hleft t] at hpending
          cases hpending
    · refine ⟨hprogress', fun hfree => happlication ?_⟩
      rw [← hcaller]
      exact hfree.application

/-! ### A shutdown that is free can return -/

/-- How far a task is from its end. -/
def TaskPoint.rank : TaskPoint → ℕ
  | notRun => 0
  | execute => 10
  | onComplete _ _ => 8
  | callback _ _ => 7
  | called _ _ => 6
  | leaving _ _ => 4
  | finished _ _ => 3

/-- How far a worker is from leaving its thread, if no task is queued. -/
def System.workerRank (s : System) : Worker → ℕ
  | .given _ => 12
  | .running task => (s.tasks task).rank + if (s.pending task).isSome then 1 else 0
  | .asking => 2
  | .leaving => 1
  | .left => 0

/-- How much the workers of the pool still have to do. -/
def System.work (s : System) : ℕ :=
  (s.pool.workers.map s.workerRank).sum + 13 * s.pool.workerQueue.length

/-- How far a `gracefulShutdown` is from its end. -/
def ShutdownPoint.rank : ShutdownPoint → ℕ
  | cancelling _ executionTaskListCopy rest => rest.length + executionTaskListCopy.length + 4
  | getting _ rest => rest.length + 3
  | joining _ => 2
  | outside | waiting _ | alreadyTerminated | returned => 0

/-- The sum over a list after one entry is replaced. -/
theorem sum_map_set_add {α : Type*} (f : α → ℕ) {l : List α} {i : ℕ} {a : α} (b : α)
    (h : l[i]? = some a) : ((l.set i b).map f).sum + f a = (l.map f).sum + f b := by
  induction l generalizing i with
  | nil => cases h
  | cons c l ih =>
    cases i with
    | zero =>
      cases h
      simp only [List.set_cons_zero, List.map_cons, List.sum_cons]
      omega
    | succ i =>
      have hrest := ih (i := i) h
      simp only [List.set_cons_succ, List.map_cons, List.sum_cons]
      omega

section
variable {s s' : System}

/-- The thread of a task goes on. -/
theorem work_lt_of_worker (hworkers : s'.pool.workers = s.pool.workers)
    (hqueue : s'.pool.workerQueue = s.pool.workerQueue) {w : Worker} (hw : w ∈ s.pool.workers)
    (hlt : s'.workerRank w < s.workerRank w)
    (hle : ∀ v ∈ s.pool.workers, s'.workerRank v ≤ s.workerRank v) : s'.work < s.work := by
  have hsum : (s.pool.workers.map s'.workerRank).sum < (s.pool.workers.map s.workerRank).sum :=
    List.sum_lt_sum _ _ hle ⟨w, hw, hlt⟩
  unfold System.work
  rw [hworkers, hqueue]
  omega

/-- A task that goes on leaves less to do. -/
theorem work_setTask {task : TaskPtr} {point : TaskPoint} (hpool : s'.pool = s.pool)
    (htasks : s'.tasks = Function.update s.tasks task point) (hpending : s'.pending = s.pending)
    (hmem : .running task ∈ s.pool.workers) (hlt : point.rank < (s.tasks task).rank) :
    s'.work < s.work := by
  have hrank (t : TaskPtr) : s'.workerRank (.running t) =
      (Function.update s.tasks task point t).rank + if (s.pending t).isSome then 1 else 0 := by
    rw [System.workerRank, htasks, hpending]
  refine work_lt_of_worker (by rw [hpool]) (by rw [hpool]) hmem ?_ fun v _ => ?_
  · rw [hrank, Function.update_self, System.workerRank]
    omega
  · cases v with
    | running t =>
      rw [hrank, System.workerRank]
      by_cases ht : t = task
      · rw [ht, Function.update_self]
        omega
      · rw [Function.update_of_ne ht]
    | _ => exact Nat.le_refl _

/-- A call that is over leaves less to do. -/
theorem work_setPending {task : TaskPtr} (hpool : s'.pool = s.pool) (htasks : s'.tasks = s.tasks)
    (hpending : s'.pending = Function.update s.pending task none)
    (hmem : .running task ∈ s.pool.workers) (hsome : s.pending task ≠ none) :
    s'.work < s.work := by
  have hrank (t : TaskPtr) : s'.workerRank (.running t) = (s.tasks t).rank +
      if (Function.update s.pending task none t).isSome then 1 else 0 := by
    rw [System.workerRank, htasks, hpending]
  refine work_lt_of_worker (by rw [hpool]) (by rw [hpool]) hmem ?_ fun v _ => ?_
  · rw [hrank, Function.update_self, System.workerRank,
      if_pos (Option.isSome_iff_ne_none.mpr hsome)]
    simp
  · cases v with
    | running t =>
      rw [hrank, System.workerRank]
      by_cases ht : t = task
      · rw [ht, Function.update_self]
        simp
      · rw [Function.update_of_ne ht]
    | _ => exact Nat.le_refl _

/-- A worker goes on in the pool. -/
theorem work_move {i : ℕ} {a b : Worker} (hi : s.pool.workers[i]? = some a)
    (hworkers : s'.pool.workers = s.pool.workers.set i b)
    (hsame : ∀ w ∈ s.pool.workers, s'.workerRank w = s.workerRank w)
    (hlt : s'.workerRank b + 13 * s'.pool.workerQueue.length <
      s.workerRank a + 13 * s.pool.workerQueue.length) : s'.work < s.work := by
  have hset := sum_map_set_add s'.workerRank b hi
  rw [hsame a (List.mem_of_getElem? hi), List.map_congr_left hsame] at hset
  unfold System.work
  rw [hworkers]
  omega

end

/-- Some step brings the workers nearer to their end, and keeps the shutdown where it is. -/
def Advances (pool : Config) (results : TaskPtr → ExecuteResult) (s : System) (k : ℕ) : Prop :=
  ∃ a s', step pool s a = some s' ∧ Follows results s a ∧ s'.work < s.work ∧
    s'.shutdowns k = s.shutdowns k ∧
    (∀ task, s.starts task = .accepted → s'.starts task = .accepted) ∧
    ∀ task, s.pending task = none → s'.pending task = none

section
variable {pool : Config} {results : TaskPtr → ExecuteResult} {s : System} {k : ℕ}

/-- A thread of the pool that is in a call comes out of it. -/
theorem advances_of_pending (h : Inv s) (hprogress : (s.shutdowns k).inProgress = true)
    (hfree : Free s k) {task : TaskPtr} (hmem : .running task ∈ s.pool.workers) {call : Call}
    (hpending : s.pending task = some call) : Advances pool results s k := by
  have hset := ShutdownPoint.hasTerminated_of_inProgress hprogress
  have hterminated := h.shutdown.terminated k hset
  have hsome : s.pending task ≠ none := by
    rw [hpending]
    exact Option.some_ne_none call
  -- a running task waits inside a call, so nothing is joining
  have hmutex : s.instanceMutex = none := by
    refine mutex_of_terminated h hset ?_
    rw [← Bool.not_eq_true]
    exact fun hjoining => hsome (hfree.nobodyWaits hjoining task)
  -- the other threads wait for nothing more than before
  have hkept (t : TaskPtr) (hnone : s.pending t = none) :
      Function.update s.pending task none t = none := by
    by_cases ht : t = task
    · rw [ht, Function.update_self]
    · rw [Function.update_of_ne ht]
      exact hnone
  have hstarts {t : TaskPtr} {point : StartPoint} (hbefore : s.starts t ≠ .accepted) (u : TaskPtr)
      (haccepted : s.starts u = .accepted) : Function.update s.starts t point u = .accepted := by
    rw [Function.update_of_ne]
    · exact haccepted
    · rintro rfl
      exact hbefore haccepted
  have hcaller := (h.caller.pending task call).mp hpending
  cases call with
  | start t =>
    have hcaller : (s.starts t).caller? = some (.task task) := hcaller
    -- a call of `start` by a task: the manager is terminated, so it is refused
    have hbefore : s.starts t ≠ .accepted := by
      intro haccepted
      rw [haccepted] at hcaller
      cases hcaller
    cases hpoint : s.starts t with
    | waiting caller =>
      rw [hpoint] at hcaller
      obtain rfl := Option.some.inj hcaller
      obtain ⟨s', hstep⟩ : ∃ s', step pool s (.startLock t) = some s' := by
        rw [step, hpoint, hmutex]
        exact ⟨_, if_pos hterminated⟩
      refine ⟨.startLock t, s', hstep, trivial, ?_⟩
      obtain ⟨caller, hcaller, -, ⟨e, -, rfl⟩ | ⟨hopen, -, -⟩⟩ := step_startLock hstep
      · rw [hpoint] at hcaller
        cases hcaller
        exact ⟨work_setPending rfl rfl rfl hmem hsome, rfl, hstarts hbefore, hkept⟩
      · rw [hterminated] at hopen
        cases hopen
    | caught caller =>
      rw [hpoint] at hcaller
      obtain rfl := Option.some.inj hcaller
      obtain ⟨s', hstep⟩ : ∃ s', step pool s (.startCaught t) = some s' := by
        rw [step, hpoint, hmutex]
        exact ⟨_, rfl⟩
      refine ⟨.startCaught t, s', hstep, trivial, ?_⟩
      obtain ⟨caller, e, hcaller, -, rfl⟩ := step_startCaught hstep
      rw [hpoint] at hcaller
      cases hcaller
      exact ⟨work_setPending rfl rfl rfl hmem hsome, rfl, hstarts hbefore, hkept⟩
    | inPool caller =>
      have hin := h.shutdown.noStart hterminated t
      rw [hpoint] at hin
      cases hin
    | _ => rw [hpoint] at hcaller; cases hcaller
  | shutdown j =>
    have hcaller : (s.shutdowns j).caller? = some (.task task) := hcaller
    -- the flag was set by the shutdown in question, not by a call of a task
    have hself (hsetj : (s.shutdowns j).hasTerminated = true) : False := by
      rw [h.shutdown.unique j k hsetj hset, hfree.application] at hcaller
      cases hcaller
    cases hpoint : s.shutdowns j with
    | waiting caller =>
      rw [hpoint] at hcaller
      obtain rfl := Option.some.inj hcaller
      have hj : k ≠ j := by
        rintro rfl
        rw [hpoint] at hprogress
        cases hprogress
      obtain ⟨s', hstep⟩ : ∃ s', step pool s (.shutdownLock j) = some s' := by
        rw [step, hpoint, hmutex]
        exact ⟨_, if_pos hterminated⟩
      refine ⟨.shutdownLock j, s', hstep, trivial, ?_⟩
      obtain ⟨caller, hcaller, -, ⟨-, rfl⟩ | ⟨hopen, -⟩⟩ := step_shutdownLock hstep
      · rw [hpoint] at hcaller
        cases hcaller
        exact ⟨work_setPending rfl rfl rfl hmem hsome, Function.update_of_ne hj .., fun _ => id,
          hkept⟩
      · rw [hterminated] at hopen
        cases hopen
    | cancelling caller copy rest => exact (hself (by rw [hpoint]; rfl)).elim
    | getting caller rest => exact (hself (by rw [hpoint]; rfl)).elim
    | joining caller => exact (hself (by rw [hpoint]; rfl)).elim
    | _ => rw [hpoint] at hcaller; cases hcaller

/-- The thread of a task that is in no call goes on. -/
theorem advances_of_running (h : Inv s) (hasync : AsyncTasks.Inv s.toAsync)
    (hprogress : (s.shutdowns k).inProgress = true) (hfree : Free s k) {i : ℕ} {task : TaskPtr}
    (hi : s.pool.workers[i]? = some (.running task)) : Advances pool results s k := by
  have hmem : .running task ∈ s.pool.workers := List.mem_of_getElem? hi
  have hset := ShutdownPoint.hasTerminated_of_inProgress hprogress
  -- the code of the user is inside a call of the manager, or it goes on by itself
  cases hpending : s.pending task with
  | some call => exact advances_of_pending h hprogress hfree hmem hpending
  | none =>
    cases hpoint : s.tasks task with
    | notRun =>
      -- what a worker runs has been executed
      have hexecuted := h.pool.pool.executed_eq task
      have hnone := (h.task.executed task).mp (by rw [hpoint]; rfl)
      have hruns : 0 < s.pool.workers.countP (Worker.runs task) :=
        List.countP_pos_iff.mpr ⟨_, hmem, decide_eq_true rfl⟩
      omega
    | execute =>
      -- the execution returns what it was to return
      have hlt : (afterExecute (results task)).rank < (s.tasks task).rank := by
        rw [hpoint]
        unfold afterExecute
        cases notification (results task) <;> simp [TaskPoint.rank]
      exact ⟨.executed task (results task), s.setTask task (afterExecute (results task)),
        by rw [step, hpoint, hpending], rfl, work_setTask rfl rfl rfl hmem hlt, rfl, fun _ => id,
        fun _ => id⟩
    | onComplete result what =>
      -- the task is listed, so the shutdown still waits for it, and does not have the mutex
      have hmutex : s.instanceMutex = none := by
        refine mutex_of_terminated h hset ?_
        rw [← Bool.not_eq_true]
        intro hjoining
        have hlisted : task ∈ s.executionTaskList := by
          have hcount := hasync.count_eq task
          have hasyncPoint : s.toAsync.points task = .onComplete result what := by
            show (s.tasks task).asyncPoint _ = _
            rw [hpoint]
            rfl
          rw [hasyncPoint] at hcount
          have hpos : 0 < s.toAsync.executionTaskList.count task := by
            rw [hcount]
            exact Nat.one_pos
          exact (List.mem_filter.mp (List.count_pos_iff.mp hpos)).1
        rcases h.shutdown.listed k hset task hlisted with hget | hfinished
        · cases hk : s.shutdowns k with
          | joining caller => rw [hk] at hget; cases hget
          | _ => rw [hk] at hjoining; cases hjoining
        · rw [hpoint] at hfinished
          cases hfinished
      exact ⟨.onComplete task, (s.removeTask task).setTask task (.callback result what),
        by rw [step, hpoint, hmutex], trivial,
        work_setTask rfl rfl rfl hmem (by simp [hpoint, TaskPoint.rank]), rfl, fun _ => id,
        fun _ => id⟩
    | callback result what =>
      exact ⟨.callback task, { s.setTask task (.called result what) with
          calls := s.calls ++ [(task, what)] }, by rw [step, hpoint], trivial,
        work_setTask rfl rfl rfl hmem (by simp [hpoint, TaskPoint.rank]), rfl, fun _ => id,
        fun _ => id⟩
    | called result what =>
      exact ⟨.returned task none, s.setTask task (.leaving result none),
        by rw [step, hpoint, hpending], trivial,
        work_setTask rfl rfl rfl hmem (by simp [hpoint, TaskPoint.rank]), rfl, fun _ => id,
        fun _ => id⟩
    | leaving result thrown =>
      exact ⟨.finish task, s.setTask task (.finished result (thrown.map caught)),
        by rw [step, hpoint], trivial,
        work_setTask rfl rfl rfl hmem (by simp [hpoint, TaskPoint.rank]), rfl, fun _ => id,
        fun _ => id⟩
    | finished result exception =>
      -- the task has finished, so its worker asks for the next one
      refine ⟨.pool (.returned i), { s with pool := { s.pool with
        workers := s.pool.workers.set i .asking, done := s.pool.done ++ [task] } },
        by simp [step, System.allows, hi, hpoint, TaskPoint.isFinished, QueuedThreadPool.step,
          System.afterPool], trivial, ?_, rfl, fun _ => id, fun _ => id⟩
      refine work_move hi rfl (fun w _ => by cases w <;> rfl) ?_
      simp [System.workerRank, hpoint, TaskPoint.rank, hpending]

/-- A worker that has not left its thread goes on. -/
theorem advances_of_worker (h : Inv s) (hasync : AsyncTasks.Inv s.toAsync)
    (hprogress : (s.shutdowns k).inProgress = true) (hfree : Free s k) {i : ℕ} {w : Worker}
    (hi : s.pool.workers[i]? = some w) (hw : w ≠ .left) : Advances pool results s k := by
  have hmem := List.mem_of_getElem? hi
  cases w with
  | left => exact absurd rfl hw
  | running task => exact advances_of_running h hasync hprogress hfree hi
  | given task =>
    have hnotRun := (h.task.executed task).mp (given_notRun pool h.pool.pool h.task hi)
    have hnone : s.pending task = none := h.caller.pending_eq_none task (by
      have hfirst := given_notRun pool h.pool.pool h.task hi
      cases hpoint : s.tasks task with
      | notRun => rfl
      | _ => rw [hpoint] at hfirst; cases hfirst)
    -- the worker begins the task that it was given
    refine ⟨.pool (.run i), { s.setTask task .execute with pool := { s.pool with
      workers := s.pool.workers.set i (.running task), executed := s.pool.executed ++ [task] } },
      by simp [step, System.allows, hi, QueuedThreadPool.step, System.afterPool], trivial, ?_, rfl,
      fun _ => id, fun _ => id⟩
    refine work_move hi rfl (fun v hv => ?_) ?_
    · cases v with
      | running t =>
        -- no other worker runs the task
        have ht : t ≠ task := by
          rintro rfl
          have hruns : 0 < s.pool.workers.countP (Worker.runs t) :=
            List.countP_pos_iff.mpr ⟨_, hv, decide_eq_true rfl⟩
          have hexecuted := h.pool.pool.executed_eq t
          omega
        show (Function.update s.tasks task .execute t).rank + _ = _
        rw [Function.update_of_ne ht]
        rfl
      | _ => rfl
    · simp [System.workerRank, System.setTask, TaskPoint.rank, hnone]
  | asking =>
    -- nobody is inside `QueuedThreadPool::start`, so its mutex is free
    have hmutex : s.pool.queueMutex = none := by
      cases hqueueMutex : s.pool.queueMutex with
      | none => rfl
      | some t =>
        have hholding := h.pool.holder t hqueueMutex
        have hagrees := h.pool.agrees t
        have hin := h.shutdown.noStart (h.shutdown.terminated k
          (ShutdownPoint.hasTerminated_of_inProgress hprogress)) t
        rw [hholding] at hagrees
        cases hpoint : s.starts t with
        | inPool caller => rw [hpoint] at hin; cases hin
        | caught caller => rw [hpoint] at hagrees; exact absurd rfl hagrees.2
        | threw e => rw [hpoint] at hagrees; exact absurd rfl hagrees.2
        | _ => rw [hpoint] at hagrees; cases hagrees
    have hstep : step pool s (.pool (.getNextTask i)) =
        some { s with pool := s.pool.getNextTask i } := by
      simp [step, System.allows, QueuedThreadPool.step, hi, hmutex, System.afterPool]
    refine ⟨_, _, hstep, trivial, ?_, rfl, fun _ => id, fun _ => id⟩
    -- the worker takes the next task, or leaves its thread
    cases hqueue : s.pool.workerQueue with
    | nil =>
      rw [QueuedThreadPool.System.getNextTask_nil hqueue]
      refine work_move (b := .leaving) hi rfl (fun v _ => by cases v <;> rfl) ?_
      simp [System.workerRank]
    | cons task rest =>
      rw [QueuedThreadPool.System.getNextTask_cons hqueue]
      refine work_move (b := .given task) hi rfl (fun v _ => by cases v <;> rfl) ?_
      rw [hqueue]
      simp only [System.workerRank, List.length_cons]
      omega
  | leaving =>
    refine ⟨.pool (.leave i), { s with pool := { s.pool with
      workers := s.pool.workers.set i .left } },
      by simp [step, System.allows, hi, QueuedThreadPool.step, System.afterPool], trivial, ?_, rfl,
      fun _ => id, fun _ => id⟩
    refine work_move hi rfl (fun v _ => by cases v <;> rfl) ?_
    simp [System.workerRank]

end

/-- Where all threads have left nothing changes. -/
theorem work_of_left {s s' : System} (hleft : ∀ w ∈ s.pool.workers, w = .left)
    (hworkers : s'.pool.workers = s.pool.workers)
    (hqueue : s'.pool.workerQueue = s.pool.workerQueue) : s'.work = s.work := by
  have hsame : s.pool.workers.map s'.workerRank = s.pool.workers.map s.workerRank := by
    refine List.map_congr_left fun w hw => ?_
    rw [hleft w hw]
    rfl
  unfold System.work
  rw [hworkers, hqueue, hsame]

/-- Where no worker has a thread, the shutdown goes on by itself. -/
theorem shutdown_advances {pool : Config} {results : TaskPtr → ExecuteResult} {s : System} {k : ℕ}
    (h : Inv s)
    (hprogress : (s.shutdowns k).inProgress = true) (hfree : Free s k)
    (hleft : ∀ w ∈ s.pool.workers, w = .left) :
    ∃ a s', step pool s a = some s' ∧ Follows results s a ∧
      s'.work = s.work ∧ (s'.shutdowns k).rank < (s.shutdowns k).rank ∧
      (s'.shutdowns k = .returned ∨ (s'.shutdowns k).inProgress = true ∧ Free s' k) := by
  -- the call goes on to its next point
  have hgoes {s' : System} {point : ShutdownPoint} (hself : s'.shutdowns k = point)
      (hpoint : point.inProgress = true) (hcaller : point.caller? = (s.shutdowns k).caller?)
      (hget : ∀ task ∈ point.toGet, task ∈ (s.shutdowns k).toGet) (hstarts : s'.starts = s.starts)
      (hpending : s'.pending = s.pending) : (s'.shutdowns k).inProgress = true ∧ Free s' k := by
    rw [hself]
    refine ⟨hpoint, ?_, ?_, fun _ => ?_⟩
    · rw [hself, hcaller]
      exact hfree.application
    · rw [hself, hstarts]
      exact fun task hmem => hfree.accepted task (hget task hmem)
    · rw [hpending]
      exact pending_eq_none_of_left h hleft
  -- each point is nearer to the end than the one before
  have hrank {s' : System} {point : ShutdownPoint} (hself : s'.shutdowns k = point)
      (hlt : point.rank < (s.shutdowns k).rank) : (s'.shutdowns k).rank < (s.shutdowns k).rank := by
    rw [hself]
    exact hlt
  cases hpoint : s.shutdowns k with
  | cancelling caller copy rest =>
    rw [← hpoint]
    cases rest with
    | cons task rest =>
      refine ⟨.cancel k, { s.setShutdown k (.cancelling caller copy rest) with
        cancelled := s.cancelled ++ [task] }, by rw [step, hpoint], trivial,
        work_of_left hleft rfl rfl,
        hrank (Function.update_self ..) (by simp [hpoint, ShutdownPoint.rank]), .inr ?_⟩
      exact hgoes (Function.update_self ..) rfl (by rw [hpoint]; rfl)
        (by rw [hpoint]; exact fun _ => id) rfl rfl
    | nil =>
      refine ⟨.cancel k, s.setShutdown k (.getting caller copy), by rw [step, hpoint], trivial,
        work_of_left hleft rfl rfl,
        hrank (Function.update_self ..) (by simp [hpoint, ShutdownPoint.rank]), .inr ?_⟩
      exact hgoes (Function.update_self ..) rfl (by rw [hpoint]; rfl)
        (by rw [hpoint]; exact fun _ => id) rfl rfl
  | getting caller rest =>
    rw [← hpoint]
    cases rest with
    | cons task rest =>
      -- all threads have left, so what is accepted has finished
      have hdone : (s.tasks task).isFinished = true :=
        finished_of_left h hleft (submitter_of_accepted h (hfree.accepted task (by
          rw [hpoint]
          exact List.mem_cons_self)))
      refine ⟨.get k, s.setShutdown k (.getting caller rest), ?_, trivial,
        work_of_left hleft rfl rfl,
        hrank (Function.update_self ..) (by simp [hpoint, ShutdownPoint.rank]), .inr ?_⟩
      · rw [step, hpoint]
        exact if_pos hdone
      · exact hgoes (Function.update_self ..) rfl (by rw [hpoint]; rfl)
          (by rw [hpoint]; exact fun _ => List.mem_cons_of_mem task) rfl rfl
    | nil =>
      have hmutex := mutex_of_terminated h
        (ShutdownPoint.hasTerminated_of_inProgress hprogress) (by rw [hpoint]; rfl)
      refine ⟨.joinLock k, { s.setShutdown k (.joining caller) with
        instanceMutex := some (.shutdown k) }, by rw [step, hpoint, hmutex], trivial,
        work_of_left hleft rfl rfl,
        hrank (Function.update_self ..) (by simp [hpoint, ShutdownPoint.rank]), .inr ?_⟩
      exact hgoes (Function.update_self ..) rfl (by rw [hpoint]; rfl)
        (fun _ hmem => absurd hmem List.not_mem_nil) rfl rfl
  | joining caller =>
    rw [← hpoint]
    refine ⟨.join k, { (s.setShutdown k .returned).setPending caller none with
      instanceMutex := none, released := true, pool := { s.pool with allocated := 0 } }, ?_,
      trivial, work_of_left hleft rfl rfl,
      hrank (Function.update_self ..) (by simp [hpoint, ShutdownPoint.rank]),
      .inl (Function.update_self ..)⟩
    rw [step, hpoint]
    exact if_pos hleft
  | _ => rw [hpoint] at hprogress; cases hprogress

/-- What does not block a `gracefulShutdown` does not block it later. -/
theorem Free.of_advances {s s' : System} {k : ℕ} (h : Free s k)
    (hk : s'.shutdowns k = s.shutdowns k)
    (haccepted : ∀ task, s.starts task = .accepted → s'.starts task = .accepted)
    (hpending : ∀ task, s.pending task = none → s'.pending task = none) : Free s' k := by
  refine ⟨?_, ?_, ?_⟩
  · rw [hk]
    exact h.application
  · rw [hk]
    exact fun task hmem => haccepted task (h.accepted task hmem)
  · rw [hk]
    exact fun hjoining task => hpending task (h.nobodyWaits hjoining task)

/-- A `gracefulShutdown` that nothing blocks can return. -/
theorem canReturn_of_free {pool : Config} {results : TaskPtr → ExecuteResult} {s : System} {k : ℕ}
    (h : Inv s) (hasync : AsyncTasks.Inv s.toAsync) (hprogress : (s.shutdowns k).inProgress = true)
    (hfree : Free s k) : CanReturn pool results s k := by
  have hasync_step {t t' : System} (a : Action) (hinv : Inv t) (hasync : AsyncTasks.Inv t.toAsync)
      (hstep : step pool t a = some t') : AsyncTasks.Inv t'.toAsync := by
    have hrun : Runs.run (step pool) t [a] = some t' := Runs.run_cons_some hstep rfl
    exact asyncInv_of_run hinv hasync hrun
  have hadvance (t : System) (hgood : Inv t ∧ AsyncTasks.Inv t.toAsync ∧
      (t.shutdowns k = .returned ∨ (t.shutdowns k).inProgress = true ∧ Free t k))
      (hnot : t.shutdowns k ≠ .returned) : ∃ a t', step pool t a = some t' ∧ Follows results t a ∧
        (Inv t' ∧ AsyncTasks.Inv t'.toAsync ∧
          (t'.shutdowns k = .returned ∨ (t'.shutdowns k).inProgress = true ∧ Free t' k)) ∧
        t'.work + (t'.shutdowns k).rank < t.work + (t.shutdowns k).rank := by
    obtain ⟨hinv, hasync, hstate⟩ := hgood
    obtain ⟨hprogress, hfree⟩ := hstate.resolve_left hnot
    by_cases hleft : ∀ w ∈ t.pool.workers, w = .left
    · obtain ⟨a, t', hstep, hfollows, hwork, hrank, hafter⟩ :=
        shutdown_advances hinv hprogress hfree hleft
      exact ⟨a, t', hstep, hfollows,
        ⟨inv_step a hinv hstep, hasync_step a hinv hasync hstep, hafter⟩, by omega⟩
    · obtain ⟨w, hmem, hw⟩ : ∃ w ∈ t.pool.workers, w ≠ .left := by simpa using hleft
      obtain ⟨i, hi⟩ := List.getElem?_of_mem hmem
      obtain ⟨a, t', hstep, hfollows, hwork, hk, haccepted, hpending⟩ :=
        advances_of_worker hinv hasync hprogress hfree hi hw
      refine ⟨a, t', hstep, hfollows, ⟨inv_step a hinv hstep, hasync_step a hinv hasync hstep,
        .inr ⟨?_, hfree.of_advances hk haccepted hpending⟩⟩, ?_⟩
      · rw [hk]
        exact hprogress
      · rw [hk]
        omega
  exact Runs.reaches_of_measure (fun t => t.work + (t.shutdowns k).rank) hadvance
    ⟨h, hasync, .inr ⟨hprogress, hfree⟩⟩

/-- **When a shutdown can return.** From a state in which a call of `gracefulShutdown` is past its
first section, it can return if and only if it is not made by a thread of its own pool, the pool
has taken each task that it is still to wait for, and nobody waits for the mutex while it joins. -/
theorem canReturn_iff {pool : Config} {actions : List Action} {s : System}
    (hrun : Runs.run (step pool) (initial pool) actions = some s) {k : ℕ}
    (hprogress : (s.shutdowns k).inProgress = true) (results : TaskPtr → ExecuteResult) :
    CanReturn pool results s k ↔ Free s k := by
  have hinv := inv_of_run (inv_initial pool) hrun
  constructor
  · intro hcan
    by_contra hnot
    have hstuck (t : System) (a : Action) (t' : System)
        (hgood : Inv t ∧ (t.shutdowns k).inProgress = true ∧ ¬Free t k)
        (hstep : step pool t a = some t') :
        Inv t' ∧ (t'.shutdowns k).inProgress = true ∧ ¬Free t' k :=
      ⟨inv_step a hgood.1 hstep, notFree_step a hgood.1 hgood.2.1 hgood.2.2 hstep⟩
    refine Runs.not_reaches_of_invariant hstuck (fun t hgood hreturned => ?_)
      ⟨hinv, hprogress, hnot⟩ hcan
    rw [hreturned] at hgood
    cases hgood.2.1
  · intro hfree
    exact canReturn_of_free hinv
      (asyncInv_of_run (inv_initial pool) AsyncTasks.inv_initial hrun) hprogress hfree

/-- A callback starts another task while its manager, which has nothing to wait for, joins. -/
def startInCallback : List Action := [
  .start 0 .application, .startLock 0, .pool (.enter 0 false), .pool (.lock 0),
  .pool (.attempt 0 .started), .startReturned 0, .pool (.run 0),
  .executed 0 (.ok none), .onComplete 0, .callback 0,
  .shutdown 0 .application, .shutdownLock 0, .cancel 0, .joinLock 0, .start 1 (.task 0)]

/-- The shutdown of a task in `execute` can return; one that a callback waits for cannot. -/
theorem canReturn_shutdownOne_not_startInCallback :
    (∃ s, Runs.run (step oneThread) (initial oneThread) (shutdownOne.take 9) = some s ∧
      CanReturn oneThread (fun _ => .ok none) s 0) ∧
    ∃ s, Runs.run (step oneThread) (initial oneThread) startInCallback = some s ∧
      ¬CanReturn oneThread (fun _ => .ok none) s 0 := by
  refine ⟨⟨_, rfl, ?_⟩, ⟨_, rfl, ?_⟩⟩
  · refine (canReturn_iff (show Runs.run (step oneThread) (initial oneThread)
      (shutdownOne.take 9) = some _ from rfl) rfl _).mpr ⟨rfl, fun task hmem => ?_, nofun⟩
    rw [show task = 0 from List.mem_singleton.mp hmem]
    rfl
  · rw [canReturn_iff (show Runs.run (step oneThread) (initial oneThread)
      startInCallback = some _ from rfl) rfl _]
    exact fun hfree => Option.some_ne_none _ (hfree.nobodyWaits rfl 0)

end EasyHttp.HttpExecutionTaskManager
