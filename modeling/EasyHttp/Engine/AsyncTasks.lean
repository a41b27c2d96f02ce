import EasyHttp.Message.Response
import EasyHttp.Library.Runs

/-!
# Asynchronous calls

`HttpAsyncExecutionTask` runs a request executor on a thread of the pool, and
`HttpExecutionTaskManager` lists the tasks that have been started. The threads of any number of
tasks run in any order; a section under the manager's mutex is one action, and so is what a
thread does between two such sections.

* `notification`, `caught`: the catch clauses of the task and of `FutureTask`;
* `step`: one action of a thread;
* `Inv`, `inv_of_run`: which tasks are listed and which callbacks have been called;
* `endsNotified_iff`: for which ends of an execution the callback is called and the task removed.
-/

namespace EasyHttp.AsyncTasks

/-- The address of an `HttpAsyncExecutionTask`. -/
abbrev TaskPtr := ℕ

/-- What a `throw` carries, as far as catch clauses tell it apart. -/
inductive Thrown where
  /-- An `HttpException`. -/
  | http (e : HttpException) (own : ∀ message, e ≠ .poco message)
  /-- Another exception that derives from `BaseException`. -/
  | base (message : String)
  /-- Another exception that derives from `std::exception`, those of Poco among them. -/
  | std (message : String)
  /-- Anything else. -/
  | object

/-- How `m_pRequestExecutor->execute()` ends; the response may be NULL. -/
abbrev ExecuteResult := Except Thrown (Option Response)

/-- A call of the response callback. -/
inductive Notification where
  | onResponse (response : Option Response)
  | onFailure (what : HttpException)

/-- The clauses of `runTask` around `execute`: what `notifyCompletion` is called with. What no
clause names leaves `runTask`. -/
def notification : ExecuteResult → Except Thrown Notification
  | .ok response => .ok (.onResponse response)
  | .error (.http e _) => .ok (.onFailure e)
  | .error (.base _) => .ok (.onFailure (.execution
      "Unexpected error while executing Http asynchronous request. Check getCause() for details."))
  | .error (.std _) => .ok (.onFailure (.execution
      "Unexpected error while executing Http asynchronous request. Check getCause() for details."))
  | .error .object => .error .object

/-- The clauses of `FutureTask::run` around `runTask`: the exception that is set. -/
def caught : Thrown → Thrown
  | .http e own => .http e own
  | .base message => .base message
  | .std _ => .base "Internal error occurred. Check getCause() for details."
  | .object => .base "Unexpected internal error occurred."

/-- Where the thread of a task is. -/
inductive Point where
  | new
  /-- The pool did not take the task; it is still to be removed from the list. -/
  | startFailed
  | refused
  /-- In the pool: queued, or in `execute`. -/
  | execute
  /-- In `notifyCompletion`, before `onComplete`. -/
  | onComplete (result : ExecuteResult) (what : Notification)
  /-- In `notifyCompletion`, after `onComplete`. -/
  | callback (result : ExecuteResult) (what : Notification)
  /-- In the callback. -/
  | called (result : ExecuteResult) (what : Notification)
  /-- `runTask` has returned, or has thrown. -/
  | leaving (result : ExecuteResult) (thrown : Option Thrown)
  /-- `FutureTask::run` has set `m_finished`, and `m_pException` if there was one. -/
  | finished (result : ExecuteResult) (exception : Option Thrown)

/-- The list of the manager, the points of the tasks and the calls of the callback. -/
structure System where
  /-- `m_executionTaskList` -/
  executionTaskList : List TaskPtr := []
  terminated : Bool := false
  points : TaskPtr → Point := fun _ => .new
  /-- The calls of response callbacks, in order. -/
  calls : List (TaskPtr × Notification) := []

/-- A task goes on. -/
def System.setPoint (s : System) (task : TaskPtr) (point : Point) : System :=
  { s with points := Function.update s.points task point }

/-- `HttpExecutionTaskManager::removeTask` -/
def System.removeTask (s : System) (task : TaskPtr) : System :=
  { s with executionTaskList := s.executionTaskList.erase task }

/-- A task is started, executed, taken off the list, notified, or all are shut down. -/
inductive Action where
  /-- `HttpExecutionTaskManager::start`, which a call makes once with a new task; `accepted` is
  what the pool answers. -/
  | start (task : TaskPtr) (accepted : Bool)
  /-- The catch clause of `start`. -/
  | startFailed (task : TaskPtr)
  /-- `execute` ends. -/
  | executed (task : TaskPtr) (result : ExecuteResult)
  | onComplete (task : TaskPtr)
  /-- The callback is called. -/
  | callback (task : TaskPtr)
  /-- The callback returns or throws. -/
  | returned (task : TaskPtr) (thrown : Option Thrown)
  /-- The end of `FutureTask::run`. -/
  | finish (task : TaskPtr)
  /-- The first section of `gracefulShutdown`. -/
  | gracefulShutdown

/-- One action; `none` when it cannot be taken. -/
def step (s : System) : Action → Option System
  | .start task accepted =>
    match s.points task with
    | .new =>
      if s.terminated then some (s.setPoint task .refused)
      else some {
        s.setPoint task (if accepted then .execute else .startFailed) with
        executionTaskList := s.executionTaskList ++ [task] }
    | _ => none
  | .startFailed task =>
    match s.points task with
    | .startFailed => some ((s.removeTask task).setPoint task .refused)
    | _ => none
  | .executed task result =>
    match s.points task with
    | .execute =>
      some (s.setPoint task (match notification result with
        | .ok what => .onComplete result what
        | .error thrown => .leaving result (some thrown)))
    | _ => none
  | .onComplete task =>
    match s.points task with
    | .onComplete result what => some ((s.removeTask task).setPoint task (.callback result what))
    | _ => none
  | .callback task =>
    match s.points task with
    | .callback result what =>
      some { s.setPoint task (.called result what) with calls := s.calls ++ [(task, what)] }
    | _ => none
  | .returned task thrown =>
    match s.points task with
    | .called result _ => some (s.setPoint task (.leaving result thrown))
    | _ => none
  | .finish task =>
    match s.points task with
    | .leaving result thrown => some (s.setPoint task (.finished result (thrown.map caught)))
    | _ => none
  | .gracefulShutdown => some { s with terminated := true }

/-- The calls of the callback of a task. -/
def System.callsOf (s : System) (task : TaskPtr) : List Notification :=
  (s.calls.filter fun call => call.1 = task).map Prod.snd

/-! ## What stands behind each point -/

namespace Point

/-- Whether the task is in the manager's list. -/
def listed : Point → Bool
  | new | refused | callback _ _ | called _ _ => false
  | startFailed | execute | onComplete _ _ => true
  | leaving result _ | finished result _ => !(notification result).isOk

/-- The calls that the task has made. -/
def calls : Point → List Notification
  | called _ what => [what]
  | leaving result _ | finished result _ => (notification result).toOption.toList
  | _ => []

/-- What the thread carries with it comes from the end of its execution. -/
def Consistent : Point → Prop
  | onComplete result what | callback result what | called result what =>
    notification result = .ok what
  | _ => True

/-- How the execution has ended. -/
def result : Point → Option ExecuteResult
  | onComplete result _ | callback result _ | called result _ | leaving result _
  | finished result _ => some result
  | _ => none

/-- The task has ended. -/
def isFinished : Point → Bool
  | finished _ _ => true
  | _ => false

end Point

/-- A task is on the list while it runs, and its callback is called when it has left the list. -/
structure Inv (s : System) : Prop where
  consistent : ∀ task, (s.points task).Consistent
  count_eq : ∀ task, s.executionTaskList.count task = if (s.points task).listed then 1 else 0
  calls_eq : ∀ task, s.callsOf task = (s.points task).calls

theorem inv_initial : Inv {} where
  consistent _ := trivial
  count_eq _ := rfl
  calls_eq _ := rfl

/-- Only one task moves. -/
theorem Inv.update {s s' : System} {task : TaskPtr} {point : Point} (h : Inv s)
    (hpoints : s'.points = Function.update s.points task point) (hconsistent : point.Consistent)
    (hcount : s'.executionTaskList.count task = if point.listed then 1 else 0)
    (hcounts : ∀ t ≠ task, s'.executionTaskList.count t = s.executionTaskList.count t)
    (hcalls : s'.callsOf task = point.calls)
    (hothers : ∀ t ≠ task, s'.callsOf t = s.callsOf t) : Inv s' := by
  have hself : s'.points task = point := by rw [hpoints, Function.update_self]
  have hother (t : TaskPtr) (ht : t ≠ task) : s'.points t = s.points t := by
    rw [hpoints, Function.update_of_ne ht]
  refine ⟨fun t => ?_, fun t => ?_, fun t => ?_⟩
  · by_cases ht : t = task
    · rw [ht, hself]
      exact hconsistent
    · rw [hother t ht]
      exact h.consistent t
  · by_cases ht : t = task
    · rw [ht, hself]
      exact hcount
    · rw [hother t ht, hcounts t ht]
      exact h.count_eq t
  · by_cases ht : t = task
    · rw [ht, hself]
      exact hcalls
    · rw [hother t ht, hothers t ht]
      exact h.calls_eq t

/-- A thread goes on, with the list and the calls as they are. -/
theorem Inv.setPoint {s : System} {task : TaskPtr} {point : Point} (h : Inv s)
    (hconsistent : point.Consistent) (hlisted : point.listed = (s.points task).listed)
    (hcalls : point.calls = (s.points task).calls) : Inv (s.setPoint task point) := by
  refine h.update rfl hconsistent ?_ (fun _ _ => rfl) ?_ (fun _ _ => rfl)
  · rw [hlisted]
    exact h.count_eq task
  · rw [hcalls]
    exact h.calls_eq task

/-- A listed task is removed from the list. -/
theorem Inv.removeTask {s : System} {task : TaskPtr} {point : Point} (h : Inv s)
    (hconsistent : point.Consistent) (hbefore : (s.points task).listed = true)
    (hlisted : point.listed = false) (hcalls : point.calls = (s.points task).calls) :
    Inv ((s.removeTask task).setPoint task point) := by
  refine h.update rfl hconsistent ?_ (fun t ht => ?_) ?_ (fun _ _ => rfl)
  · show (s.executionTaskList.erase task).count task = _
    have hcount := h.count_eq task
    rw [hbefore] at hcount
    rw [List.count_erase_self, hcount, hlisted]
    rfl
  · exact List.count_erase_of_ne ht
  · rw [hcalls]
    exact h.calls_eq task

/-- A task comes to the end of the list. -/
theorem Inv.push {s : System} {task : TaskPtr} {point : Point} (h : Inv s)
    (hconsistent : point.Consistent) (hbefore : (s.points task).listed = false)
    (hlisted : point.listed = true) (hcalls : point.calls = (s.points task).calls) :
    Inv { s.setPoint task point with executionTaskList := s.executionTaskList ++ [task] } := by
  refine h.update rfl hconsistent ?_ (fun t ht => ?_) ?_ (fun _ _ => rfl)
  · show (s.executionTaskList ++ [task]).count task = _
    have hcount := h.count_eq task
    rw [hbefore] at hcount
    rw [List.count_append, hcount, hlisted, List.count_singleton_self]
    rfl
  · show (s.executionTaskList ++ [task]).count t = s.executionTaskList.count t
    rw [List.count_append, List.count_singleton, if_neg (by simpa using ht.symm)]
    rfl
  · rw [hcalls]
    exact h.calls_eq task

/-- The callback of a task is called. -/
theorem Inv.call {s : System} {task : TaskPtr} {point : Point} {what : Notification} (h : Inv s)
    (hconsistent : point.Consistent) (hlisted : point.listed = (s.points task).listed)
    (hbefore : (s.points task).calls = []) (hcalls : point.calls = [what]) :
    Inv { s.setPoint task point with calls := s.calls ++ [(task, what)] } := by
  have hself : ((s.calls ++ [(task, what)]).filter fun call => call.1 = task).map Prod.snd =
      s.callsOf task ++ [what] := by
    simp [System.callsOf]
  refine h.update rfl hconsistent ?_ (fun _ _ => rfl) ?_ (fun t ht => ?_)
  · rw [hlisted]
    exact h.count_eq task
  · show ((s.calls ++ [(task, what)]).filter fun call => call.1 = task).map Prod.snd = _
    rw [hself, h.calls_eq task, hbefore, hcalls]
    rfl
  · show ((s.calls ++ [(task, what)]).filter fun call => call.1 = t).map Prod.snd = _
    simp [System.callsOf, ht.symm]

theorem inv_step {s s' : System} (a : Action) (h : Inv s) (hstep : step s a = some s') :
    Inv s' := by
  cases a with
  | start task accepted =>
    cases hpoint : s.points task with
    -- a task is put on the list, unless the manager is terminated
    | new =>
      simp only [step, hpoint] at hstep
      by_cases hterminated : s.terminated = true
      · rw [if_pos hterminated] at hstep
        cases hstep
        exact h.setPoint trivial (by rw [hpoint]; rfl) (by rw [hpoint]; rfl)
      · rw [if_neg hterminated] at hstep
        cases hstep
        have hlisted : (s.points task).listed = false := by rw [hpoint]; rfl
        have hcalls : (s.points task).calls = [] := by rw [hpoint]; rfl
        cases accepted with
        | true => exact h.push trivial hlisted rfl hcalls.symm
        | false => exact h.push trivial hlisted rfl hcalls.symm
    | _ => simp [step, hpoint] at hstep
  | startFailed task =>
    cases hpoint : s.points task with
    | startFailed =>
      simp only [step, hpoint] at hstep
      cases hstep
      exact h.removeTask trivial (by rw [hpoint]; rfl) rfl (by rw [hpoint]; rfl)
    | _ => simp [step, hpoint] at hstep
  | executed task result =>
    cases hpoint : s.points task with
    | execute =>
      simp only [step, hpoint] at hstep
      cases hstep
      have hlisted : (s.points task).listed = true := by rw [hpoint]; rfl
      have hcalls : (s.points task).calls = [] := by rw [hpoint]; rfl
      -- the result has a callback, or the thread ends with the exception
      cases hnotification : notification result with
      | ok what => exact h.setPoint hnotification hlisted.symm hcalls.symm
      | error thrown =>
        refine h.setPoint trivial ?_ ?_
        · rw [hlisted, Point.listed, hnotification]
          rfl
        · rw [hcalls, Point.calls, hnotification]
          rfl
    | _ => simp [step, hpoint] at hstep
  | onComplete task =>
    cases hpoint : s.points task with
    -- `onComplete` takes the task off the list before the callback
    | onComplete result what =>
      simp only [step, hpoint] at hstep
      cases hstep
      have hconsistent := h.consistent task
      rw [hpoint] at hconsistent
      exact h.removeTask hconsistent (by rw [hpoint]; rfl) rfl (by rw [hpoint]; rfl)
    | _ => simp [step, hpoint] at hstep
  | callback task =>
    cases hpoint : s.points task with
    -- here the callback is called, once
    | callback result what =>
      simp only [step, hpoint] at hstep
      cases hstep
      have hconsistent := h.consistent task
      rw [hpoint] at hconsistent
      exact h.call hconsistent (by rw [hpoint]; rfl) (by rw [hpoint]; rfl) rfl
    | _ => simp [step, hpoint] at hstep
  | returned task thrown =>
    cases hpoint : s.points task with
    | called result what =>
      simp only [step, hpoint] at hstep
      cases hstep
      -- the result of the task has a clause, or its callback would not have been called
      have hconsistent : notification result = .ok what := by
        have hkept := h.consistent task
        rw [hpoint] at hkept
        exact hkept
      refine h.setPoint trivial ?_ ?_
      · show (!(notification result).isOk) = (s.points task).listed
        rw [hpoint, hconsistent]
        rfl
      · show (notification result).toOption.toList = (s.points task).calls
        rw [hpoint, hconsistent]
        rfl
    | _ => simp [step, hpoint] at hstep
  | finish task =>
    cases hpoint : s.points task with
    | leaving result thrown =>
      simp only [step, hpoint] at hstep
      cases hstep
      exact h.setPoint trivial (by rw [hpoint]; rfl) (by rw [hpoint]; rfl)
    | _ => simp [step, hpoint] at hstep
  | gracefulShutdown =>
    cases hstep
    exact ⟨h.consistent, h.count_eq, h.calls_eq⟩

theorem inv_of_run {s s' : System} {actions : List Action} (h : Inv s)
    (hrun : Runs.run step s actions = some s') : Inv s' :=
  Runs.run_invariant (fun _ a _ hinv _ => inv_step a hinv) h hrun (Runs.everyStep_true _ _)

/-- Once an execution has ended, its end does not change. -/
theorem result_step {s s' : System} (a : Action) {task : TaskPtr} {result : ExecuteResult}
    (h : (s.points task).result = some result) (hstep : step s a = some s') :
    (s'.points task).result = some result := by
  -- a step of another task does not touch this one
  have hkept (t : TaskPtr) (point : Point)
      (hpoint : ∀ r, (s.points t).result = some r → point.result = some r) :
      (Function.update s.points t point task).result = some result := by
    by_cases ht : task = t
    · rw [ht, Function.update_self]
      exact hpoint result (ht ▸ h)
    · rw [Function.update_of_ne ht]
      exact h
  cases a with
  | gracefulShutdown =>
    cases hstep
    exact h
  | start t accepted =>
    cases hpoint : s.points t <;> simp only [step, hpoint] at hstep <;> try cases hstep
    by_cases hterminated : s.terminated = true
    · rw [if_pos hterminated] at hstep
      cases hstep
      exact hkept t _ (by rw [hpoint]; intro r hr; cases hr)
    · rw [if_neg hterminated] at hstep
      cases hstep
      exact hkept t _ (by rw [hpoint]; intro r hr; cases hr)
  | executed t result' =>
    cases hpoint : s.points t <;> simp only [step, hpoint] at hstep <;> cases hstep
    exact hkept t _ (by rw [hpoint]; intro r hr; cases hr)
  | startFailed t =>
    cases hpoint : s.points t <;> simp only [step, hpoint] at hstep <;> cases hstep
    exact hkept t _ (by rw [hpoint]; exact fun r hr => hr)
  | onComplete t =>
    cases hpoint : s.points t <;> simp only [step, hpoint] at hstep <;> cases hstep
    exact hkept t _ (by rw [hpoint]; exact fun r hr => hr)
  | callback t =>
    cases hpoint : s.points t <;> simp only [step, hpoint] at hstep <;> cases hstep
    exact hkept t _ (by rw [hpoint]; exact fun r hr => hr)
  | returned t thrown =>
    cases hpoint : s.points t <;> simp only [step, hpoint] at hstep <;> cases hstep
    exact hkept t _ (by rw [hpoint]; exact fun r hr => hr)
  | finish t =>
    cases hpoint : s.points t <;> simp only [step, hpoint] at hstep <;> cases hstep
    exact hkept t _ (by rw [hpoint]; exact fun r hr => hr)

/-- What a task was executed to stays what it was executed to. -/
theorem result_of_run {s s' : System} {actions : List Action} {task : TaskPtr}
    {result : ExecuteResult} (h : (s.points task).result = some result)
    (hrun : Runs.run step s actions = some s') : (s'.points task).result = some result :=
  Runs.run_invariant (fun _ a _ hresult _ => result_step a hresult) h hrun
    (Runs.everyStep_true _ _)

/-! ## A thread comes to its end -/

/-- Nothing holds a thread back whose execution has ended. -/
theorem exists_finished {s : System} {task : TaskPtr} {result : ExecuteResult}
    (h : (s.points task).result = some result) :
    ∃ actions s', Runs.run step s actions = some s' ∧ (s'.points task).isFinished = true := by
  -- from the end backwards: each point leads to the next one
  have hfinished {s : System} (h : (s.points task).isFinished = true) :
      ∃ actions s', Runs.run step s actions = some s' ∧ (s'.points task).isFinished = true :=
    ⟨[], s, rfl, h⟩
  have hleaving {s : System} {r thrown} (h : s.points task = .leaving r thrown) :
      ∃ actions s', Runs.run step s actions = some s' ∧ (s'.points task).isFinished = true := by
    refine ⟨[.finish task], _, Runs.run_cons_some (by rw [step, h]) rfl, ?_⟩
    show (Function.update s.points task _ task).isFinished = true
    rw [Function.update_self]
    rfl
  have hcalled {s : System} {r what} (h : s.points task = .called r what) :
      ∃ actions s', Runs.run step s actions = some s' ∧ (s'.points task).isFinished = true := by
    have hpoint : (s.setPoint task (.leaving r none)).points task = .leaving r none :=
      Function.update_self ..
    obtain ⟨actions, s', hrun, hdone⟩ := hleaving hpoint
    exact ⟨.returned task none :: actions, s', Runs.run_cons_some (by rw [step, h]) hrun, hdone⟩
  have hcallback {s : System} {r what} (h : s.points task = .callback r what) :
      ∃ actions s', Runs.run step s actions = some s' ∧ (s'.points task).isFinished = true := by
    have hstep : step s (.callback task) = some { s.setPoint task (.called r what) with
        calls := s.calls ++ [(task, what)] } := by rw [step, h]
    obtain ⟨actions, s', hrun, hdone⟩ := hcalled (s := { s.setPoint task (.called r what) with
      calls := s.calls ++ [(task, what)] }) (Function.update_self ..)
    exact ⟨.callback task :: actions, s', Runs.run_cons_some hstep hrun, hdone⟩
  cases hpoint : s.points task with
  | finished r exception => exact hfinished (by rw [hpoint]; rfl)
  | leaving r thrown => exact hleaving hpoint
  | called r what => exact hcalled hpoint
  | callback r what => exact hcallback hpoint
  | onComplete r what =>
    have hstep : step s (.onComplete task) =
        some ((s.removeTask task).setPoint task (.callback r what)) := by rw [step, hpoint]
    obtain ⟨actions, s', hrun, hdone⟩ := hcallback
      (s := (s.removeTask task).setPoint task (.callback r what)) (Function.update_self ..)
    exact ⟨.onComplete task :: actions, s', Runs.run_cons_some hstep hrun, hdone⟩
  -- these points have no result
  | new =>
    rw [hpoint] at h
    cases h
  | startFailed =>
    rw [hpoint] at h
    cases h
  | refused =>
    rw [hpoint] at h
    cases h
  | execute =>
    rw [hpoint] at h
    cases h

/-! ## One callback -/

/-- The callback of the task was called once, and the task is not listed any more. -/
def NotifiedOnce (s : System) (task : TaskPtr) : Prop :=
  (∃ what, s.callsOf task = [what]) ∧ task ∉ s.executionTaskList

/-- Whatever the other threads do after an execution has ended with `result`, the thread can come
to its end, and there the callback has been called once and the task has been removed. -/
def EndsNotified (s : System) (task : TaskPtr) (result : ExecuteResult) : Prop :=
  ∀ actions s', Runs.run step s (.executed task result :: actions) = some s' →
    (∃ more s'', Runs.run step s' more = some s'' ∧ (s''.points task).isFinished = true) ∧
    ((s'.points task).isFinished = true → NotifiedOnce s' task)

/-- A finished task was notified once, unless it threw what is no exception class. -/
theorem notifiedOnce_iff {s : System} {task : TaskPtr} {result : ExecuteResult} (h : Inv s)
    (hresult : (s.points task).result = some result)
    (hfinished : (s.points task).isFinished = true) :
    NotifiedOnce s task ↔ (notification result).isOk = true := by
  have hcount := h.count_eq task
  have hcalls := h.calls_eq task
  unfold NotifiedOnce
  rw [← List.count_eq_zero, hcount, hcalls]
  cases hpoint : s.points task with
  | finished r exception =>
    rw [hpoint] at hresult
    cases hresult
    cases hnotification : notification result with
    | ok what => simp [Point.calls, Point.listed, hnotification, Except.isOk, Except.toBool,
        Except.toOption]
    | error thrown => simp [Point.calls, Point.listed, hnotification, Except.isOk, Except.toBool,
        Except.toOption]
  | _ =>
    rw [hpoint] at hfinished
    cases hfinished

/-- Only a thrown object of no exception class is not passed to the callback. -/
theorem notification_isOk_iff (result : ExecuteResult) :
    (notification result).isOk = true ↔ result ≠ .error .object := by
  rcases result with (_ | _ | _ | _) | response <;> simp [notification, Except.isOk, Except.toBool]

/-- The result of a task is what its execution answered. -/
theorem executed_result {s s' : System} {task : TaskPtr} {result : ExecuteResult}
    (hstep : step s (.executed task result) = some s') : (s'.points task).result = some result := by
  cases hpoint : s.points task with
  | execute =>
    simp only [step, hpoint] at hstep
    cases hstep
    show (Function.update s.points task _ task).result = some result
    rw [Function.update_self]
    cases notification result with
    | ok what => rfl
    | error thrown => rfl
  | _ => simp [step, hpoint] at hstep

/-- **One callback.** In every state of every run, a task whose execution ends gets one call of
its callback and is removed from the list, unless what was thrown is no exception. -/
theorem endsNotified_iff {actions : List Action} {s : System}
    (hrun : Runs.run step {} actions = some s) {task : TaskPtr}
    (hexecute : s.points task = .execute) (result : ExecuteResult) :
    EndsNotified s task result ↔ result ≠ .error .object := by
  have hinv := inv_of_run inv_initial hrun
  rw [← notification_isOk_iff]
  constructor
  · intro hends
    obtain ⟨t, hstep⟩ : ∃ t, step s (.executed task result) = some t := by
      rw [step, hexecute]
      exact ⟨_, rfl⟩
    have hresult := executed_result hstep
    obtain ⟨more, s', hmore, hfinished⟩ := exists_finished hresult
    have hnotified := (hends more s' (Runs.run_cons_some hstep hmore)).2 hfinished
    have hinv' := inv_of_run (inv_step _ hinv hstep) hmore
    exact (notifiedOnce_iff hinv' (result_of_run hresult hmore) hfinished).mp hnotified
  · intro hok actions' s' hrun'
    obtain ⟨t, hstep, hrest⟩ := Runs.run_cons hrun'
    have hresult := result_of_run (executed_result hstep) hrest
    have hinv' := inv_of_run (inv_step _ hinv hstep) hrest
    exact ⟨exists_finished hresult, fun hfinished =>
      (notifiedOnce_iff hinv' hresult hfinished).mpr hok⟩

/-- The first task, taken by the pool. -/
def startedTask : System :=
  { System.setPoint {} 0 .execute with executionTaskList := [0] }

theorem run_startedTask : Runs.run step {} [.start 0 true] = some startedTask := rfl

theorem endsNotified_std : EndsNotified startedTask 0 (.error (.std "bad allocation")) :=
  (endsNotified_iff run_startedTask rfl (.error (.std "bad allocation"))).mpr nofun

/-- An interceptor throws an object that is no exception: no callback, and the task stays listed. -/
theorem not_endsNotified_object :
    Runs.run step {} [.start 0 true] = some startedTask ∧
      startedTask.points 0 = .execute ∧ ¬EndsNotified startedTask 0 (.error .object) := by
  refine ⟨run_startedTask, rfl, fun hends => ?_⟩
  have hfinished := (hends [.finish 0] _ rfl).2 rfl
  obtain ⟨what, hcalls⟩ := hfinished.1
  cases hcalls

end EasyHttp.AsyncTasks
