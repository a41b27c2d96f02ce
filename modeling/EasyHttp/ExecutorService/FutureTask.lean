import EasyHttp.Engine.AsyncTasks

/-!
# `FutureTask`

Any number of threads call `run`, `cancel` and the two variants of `get`; a section under one of
the mutexes of the task is one action.

* `step`: one action of a thread;
* `Stable`: a `get` that is called after some `get` has returned a result returns that result;
* `StableUnlessCancelled`: it does, or the task has been cancelled and it says so;
* `EventWaits`: what is assumed of `Poco::Event`;
* `Kept`: the outcome of the task is not changed once a `get` has found it neither cancelled nor
  failed, as it never is while the task is run once (`kept_of_runsOnce`);
* `stable_of_run`: results are stable unless the task is cancelled, which it may be at any time;
* `not_stable_cancel`: a call of `cancel` after completion withdraws the result.
-/

namespace EasyHttp

open AsyncTasks (Thrown caught)

/-- The members of a task. -/
structure FutureTask (Result : Type) where
  result : Result
  exception : Option Thrown := none
  /-- `m_finishedEvent`, which is not reset by a wait. -/
  finishedEvent : Bool := false
  cancelled : Bool := false
  finished : Bool := false

namespace FutureTask

variable {Result : Type}

/-- `cancel`, with the value returned. -/
def cancel (task : FutureTask Result) (_mayInterruptIfRunning : Bool) : FutureTask Result × Bool :=
  ({ task with cancelled := true }, true)

/-- The answer of `isCancelled`. -/
def isCancelled (task : FutureTask Result) : Bool := task.cancelled

/-- The answer of `isDone`. -/
def isDone (task : FutureTask Result) : Bool := task.finished

/-- The result is kept. -/
def setResult (task : FutureTask Result) (result : Result) : FutureTask Result :=
  { task with result := result }

/-- The exception is kept. -/
def setException (task : FutureTask Result) (exception : Thrown) : FutureTask Result :=
  { task with exception := some exception }

/-- The task is finished. -/
def setFinished (task : FutureTask Result) : FutureTask Result := { task with finished := true }

/-- The event is set for those who wait in `get`. -/
def notify (task : FutureTask Result) : FutureTask Result := { task with finishedEvent := true }

/-- What `get` throws. -/
inductive GetError where
  | timeout (message : String)
  | cancellation (message : String)
  /-- A `FutureExecutionException` whose cause is an exception of Poco. -/
  | internal (message : String)
  | execution (message : String) (cause : Thrown)

/-- What `Poco::Event::wait` answers: it returns, or throws a `TimeoutException` or another
exception. -/
inductive WaitAnswer where
  | signalled
  | timeout
  | systemError

/-- The catch clauses around the wait; only `get(unsigned long)` has one for timeouts. -/
def waitError (timeoutMillis : Option ℕ) : WaitAnswer → Option GetError
  | .signalled => none
  | .timeout =>
    match timeoutMillis with
    | some _ => some (.timeout
        "Unable to get result since wait timed out. Check getCause() for details.")
    | none => some (.internal
        "Internal error occurred while waiting for result. Check getCause() for details.")
  | .systemError => some (.internal
      "Internal error occurred while waiting for result. Check getCause() for details.")

/-- Where a thread is in `run`. -/
inductive RunPoint where
  | outside
  | runTask
  /-- In a catch clause. -/
  | thrown (exception : Thrown)
  | setFinished
  | notify
  | returned

/-- Where a thread is in `get`. -/
inductive GetPoint (Result : Type) where
  | outside
  /-- In the wait. -/
  | waiting (timeoutMillis : Option ℕ)
  /-- The event was set. -/
  | signalled
  /-- `isCancelled` was false. -/
  | notCancelled
  /-- `isFailed` was false. -/
  | notFailed
  | ended (outcome : Except GetError Result)

/-- A task with the threads that run it, cancel it and wait for it. -/
structure System (Result : Type) where
  task : FutureTask Result
  runs : ℕ → RunPoint := fun _ => .outside
  gets : ℕ → GetPoint Result := fun _ => .outside
  /-- What calls of `get` have returned. -/
  returned : List Result := []
  /-- What had been returned when a `get` was called. -/
  before : ℕ → List Result := fun _ => []

namespace System

/-- A thread that runs the task goes on. -/
def setRun (s : System Result) (run : ℕ) (point : RunPoint) : System Result :=
  { s with runs := Function.update s.runs run point }

/-- A thread inside `get` goes on. -/
def setGet (s : System Result) (get : ℕ) (point : GetPoint Result) : System Result :=
  { s with gets := Function.update s.gets get point }

end System

/-- What the threads do. -/
inductive Action (Result : Type) where
  | run (run : ℕ)
  /-- `runTask` calls `setResult`. -/
  | setResult (run : ℕ) (result : Result)
  /-- `runTask` returns or throws. -/
  | runTaskEnds (run : ℕ) (thrown : Option Thrown)
  | setException (run : ℕ)
  | setFinished (run : ℕ)
  | notify (run : ℕ)
  | cancel (mayInterruptIfRunning : Bool)
  /-- A call of `get()`, or of `get(unsigned long)` with its argument. -/
  | get (get : ℕ) (timeoutMillis : Option ℕ)
  | wait (get : ℕ) (answer : WaitAnswer)
  | checkCancelled (get : ℕ)
  | checkFailed (get : ℕ)
  | returnResult (get : ℕ)

/-- One action; `none` when it cannot be taken. -/
def step (s : System Result) : Action Result → Option (System Result)
  | .run run =>
    match s.runs run with
    | .outside => some (s.setRun run .runTask)
    | _ => none
  | .setResult run result =>
    match s.runs run with
    | .runTask => some { s with task := s.task.setResult result }
    | _ => none
  | .runTaskEnds run thrown =>
    match s.runs run with
    | .runTask =>
      match thrown with
      | some exception => some (s.setRun run (.thrown exception))
      | none => some (s.setRun run .setFinished)
    | _ => none
  | .setException run =>
    match s.runs run with
    | .thrown exception =>
      some { s.setRun run .setFinished with task := s.task.setException (caught exception) }
    | _ => none
  | .setFinished run =>
    match s.runs run with
    | .setFinished => some { s.setRun run .notify with task := s.task.setFinished }
    | _ => none
  | .notify run =>
    match s.runs run with
    | .notify => some { s.setRun run .returned with task := s.task.notify }
    | _ => none
  | .cancel mayInterruptIfRunning =>
    some { s with task := (s.task.cancel mayInterruptIfRunning).1 }
  | .get get timeoutMillis =>
    match s.gets get with
    | .outside =>
      some { s.setGet get (.waiting timeoutMillis) with
        before := Function.update s.before get s.returned }
    | _ => none
  | .wait get answer =>
    match s.gets get with
    | .waiting timeoutMillis =>
      match waitError timeoutMillis answer with
      | some error => some (s.setGet get (.ended (.error error)))
      | none => if s.task.finishedEvent then some (s.setGet get .signalled) else none
    | _ => none
  | .checkCancelled get =>
    match s.gets get with
    | .signalled =>
      if s.task.isCancelled then
        some (s.setGet get (.ended (.error (.cancellation
          "Unable to get result since already cancelled."))))
      else some (s.setGet get .notCancelled)
    | _ => none
  | .checkFailed get =>
    match s.gets get with
    | .notCancelled =>
      match s.task.exception with
      | some cause => some (s.setGet get (.ended (.error (.execution
          "Failed to get result. Check getCause() for actual error." cause))))
      | none => some (s.setGet get .notFailed)
    | _ => none
  | .returnResult get =>
    match s.gets get with
    | .notFailed =>
      some { s.setGet get (.ended (.ok s.task.result)) with
        returned := s.returned ++ [s.task.result] }
    | _ => none

/-- What an action does, with what it finds where it can be taken. -/
inductive Takes (s : System Result) : Action Result → System Result → Prop
  | run {run : ℕ} (hrun : s.runs run = .outside) : Takes s (.run run) (s.setRun run .runTask)
  | setResult {run : ℕ} (result : Result) (hrun : s.runs run = .runTask) :
    Takes s (.setResult run result) { s with task := s.task.setResult result }
  | runTaskReturns {run : ℕ} (hrun : s.runs run = .runTask) :
    Takes s (.runTaskEnds run none) (s.setRun run .setFinished)
  | runTaskThrows {run : ℕ} (exception : Thrown) (hrun : s.runs run = .runTask) :
    Takes s (.runTaskEnds run (some exception)) (s.setRun run (.thrown exception))
  | setException {run : ℕ} {exception : Thrown} (hrun : s.runs run = .thrown exception) :
    Takes s (.setException run)
      { s.setRun run .setFinished with task := s.task.setException (caught exception) }
  | setFinished {run : ℕ} (hrun : s.runs run = .setFinished) :
    Takes s (.setFinished run) { s.setRun run .notify with task := s.task.setFinished }
  | notify {run : ℕ} (hrun : s.runs run = .notify) :
    Takes s (.notify run) { s.setRun run .returned with task := s.task.notify }
  | cancel (mayInterruptIfRunning : Bool) : Takes s (.cancel mayInterruptIfRunning)
      { s with task := (s.task.cancel mayInterruptIfRunning).1 }
  | get {get : ℕ} (timeoutMillis : Option ℕ) (hget : s.gets get = .outside) :
    Takes s (.get get timeoutMillis) { s.setGet get (.waiting timeoutMillis) with
      before := Function.update s.before get s.returned }
  | waitThrows {get : ℕ} {timeoutMillis : Option ℕ} {answer : WaitAnswer} {error : GetError}
    (hget : s.gets get = .waiting timeoutMillis)
    (herror : waitError timeoutMillis answer = some error) :
    Takes s (.wait get answer) (s.setGet get (.ended (.error error)))
  | waitReturns {get : ℕ} {timeoutMillis : Option ℕ} {answer : WaitAnswer}
    (hget : s.gets get = .waiting timeoutMillis) (hevent : s.task.finishedEvent = true) :
    Takes s (.wait get answer) (s.setGet get .signalled)
  | cancelled {get : ℕ} (hget : s.gets get = .signalled) (hcancelled : s.task.cancelled = true) :
    Takes s (.checkCancelled get) (s.setGet get (.ended (.error (.cancellation
      "Unable to get result since already cancelled."))))
  | notCancelled {get : ℕ} (hget : s.gets get = .signalled)
    (hcancelled : s.task.cancelled = false) :
    Takes s (.checkCancelled get) (s.setGet get .notCancelled)
  | failed {get : ℕ} {cause : Thrown} (hget : s.gets get = .notCancelled)
    (hexception : s.task.exception = some cause) :
    Takes s (.checkFailed get) (s.setGet get (.ended (.error (.execution
      "Failed to get result. Check getCause() for actual error." cause))))
  | notFailed {get : ℕ} (hget : s.gets get = .notCancelled)
    (hexception : s.task.exception = none) :
    Takes s (.checkFailed get) (s.setGet get .notFailed)
  | returnResult {get : ℕ} (hget : s.gets get = .notFailed) :
    Takes s (.returnResult get) { s.setGet get (.ended (.ok s.task.result)) with
      returned := s.returned ++ [s.task.result] }

/-- An action that is taken is one of these. -/
theorem takes_of_step {s s' : System Result} {a : Action Result} (hstep : step s a = some s') :
    Takes s a s' := by
  cases a with
  -- in each case the guard of the action holds, or there is no step
  | run run =>
    cases hrun : s.runs run <;> simp only [step, hrun, reduceCtorEq] at hstep
    cases hstep
    exact .run hrun
  | setResult run result =>
    cases hrun : s.runs run <;> simp only [step, hrun, reduceCtorEq] at hstep
    cases hstep
    exact .setResult result hrun
  | runTaskEnds run thrown =>
    cases hrun : s.runs run <;> simp only [step, hrun, reduceCtorEq] at hstep
    cases thrown with
    | none =>
      cases hstep
      exact .runTaskReturns hrun
    | some exception =>
      cases hstep
      exact .runTaskThrows exception hrun
  | setException run =>
    cases hrun : s.runs run <;> simp only [step, hrun, reduceCtorEq] at hstep
    cases hstep
    exact .setException hrun
  | setFinished run =>
    cases hrun : s.runs run <;> simp only [step, hrun, reduceCtorEq] at hstep
    cases hstep
    exact .setFinished hrun
  | notify run =>
    cases hrun : s.runs run <;> simp only [step, hrun, reduceCtorEq] at hstep
    cases hstep
    exact .notify hrun
  | cancel mayInterruptIfRunning =>
    cases hstep
    exact .cancel mayInterruptIfRunning
  | get get timeoutMillis =>
    cases hget : s.gets get <;> simp only [step, hget, reduceCtorEq] at hstep
    cases hstep
    exact .get timeoutMillis hget
  | wait get answer =>
    cases hget : s.gets get <;> simp only [step, hget, reduceCtorEq] at hstep
    rename_i timeoutMillis
    -- the wait throws, or returns when the event is set
    cases herror : waitError timeoutMillis answer with
    | some error =>
      simp only [herror] at hstep
      cases hstep
      exact .waitThrows hget herror
    | none =>
      simp only [herror] at hstep
      by_cases hevent : s.task.finishedEvent = true
      · rw [if_pos hevent] at hstep
        cases hstep
        exact .waitReturns hget hevent
      · rw [if_neg hevent] at hstep
        cases hstep
  | checkCancelled get =>
    cases hget : s.gets get <;> simp only [step, hget, reduceCtorEq] at hstep
    -- `get` looks at the flag first, and at the exception then
    by_cases hcancelled : s.task.isCancelled = true
    · rw [if_pos hcancelled] at hstep
      cases hstep
      exact .cancelled hget hcancelled
    · rw [if_neg hcancelled] at hstep
      cases hstep
      exact .notCancelled hget (Bool.eq_false_iff.mpr hcancelled)
  | checkFailed get =>
    cases hget : s.gets get <;> simp only [step, hget, reduceCtorEq] at hstep
    cases hexception : s.task.exception with
    | some cause =>
      simp only [hexception] at hstep
      cases hstep
      exact .failed hget hexception
    | none =>
      simp only [hexception] at hstep
      cases hstep
      exact .notFailed hget hexception
  | returnResult get =>
    cases hget : s.gets get <;> simp only [step, hget, reduceCtorEq] at hstep
    cases hstep
    exact .returnResult hget

/-! ## Stable results -/

/-- A `get` that has ended has returned each result that had been returned when it was called. -/
def Stable (s : System Result) : Prop :=
  ∀ get outcome, s.gets get = .ended outcome → ∀ result ∈ s.before get, outcome = .ok result

/-- What `get` throws for a cancelled task. -/
def cancellation : GetError := .cancellation "Unable to get result since already cancelled."

/-- A `get` that has ended has returned each result that had been returned when it was called, or
has thrown that the task is cancelled, and it is. -/
def StableUnlessCancelled (s : System Result) : Prop :=
  ∀ get outcome, s.gets get = .ended outcome → ∀ result ∈ s.before get,
    outcome = .ok result ∨ outcome = .error cancellation ∧ s.task.cancelled = true

/-- A wait on an event that is set returns. -/
def EventWaits (s : System Result) : Action Result → Prop
  | .wait _ answer => s.task.finishedEvent = true → answer = .signalled
  | _ => True

/-- Some `get` has found the task neither cancelled nor failed. -/
def System.HasRead (s : System Result) : Prop :=
  s.task.exception = none ∧
    ((∃ get, s.gets get = .notCancelled ∨ s.gets get = .notFailed) ∨ s.returned ≠ [])

/-- After that the task does not fail and is given no other result. -/
def Kept (s : System Result) : Action Result → Prop
  | .setException _ => ¬s.HasRead
  | .setResult _ result => s.HasRead → result = s.task.result
  | _ => True

/-- After that the task is not cancelled. -/
def NotWithdrawn (s : System Result) : Action Result → Prop
  | .cancel _ => ¬s.HasRead
  | _ => True

/-- The task has completed without an exception. -/
structure Completed (task : FutureTask Result) : Prop where
  event : task.finishedEvent = true
  notFailed : task.exception = none

/-- Each thread in `get` is where the task has let it go, and every result returned is that of the
task. -/
structure Inv (s : System Result) : Prop where
  signalled : ∀ get, s.gets get = .signalled → s.task.finishedEvent = true
  notCancelled : ∀ get, s.gets get = .notCancelled → s.task.finishedEvent = true
  notFailed : ∀ get, s.gets get = .notFailed → Completed s.task
  returned : ∀ result ∈ s.returned, Completed s.task ∧ s.task.result = result
  before : ∀ get, s.before get ⊆ s.returned
  stable : StableUnlessCancelled s

/-- Before the first call. -/
theorem inv_initial (task : FutureTask Result) : Inv { task := task } where
  signalled _ := nofun
  notCancelled _ := nofun
  notFailed _ := nofun
  returned := nofun
  before _ := nofun
  stable _ _ := nofun

namespace Inv

variable {s s' : System Result}

/-- Only the thread of a `run` moves. -/
theorem setRun (h : Inv s) (run : ℕ) (point : RunPoint) : Inv (s.setRun run point) :=
  ⟨h.signalled, h.notCancelled, h.notFailed, h.returned, h.before, h.stable⟩

/-- The task changes, and each thread in `get` can go on as before. -/
theorem setTask {t : FutureTask Result} (h : Inv s)
    (hevent : s.task.finishedEvent = true → t.finishedEvent = true)
    (hcancelled : s.task.cancelled = true → t.cancelled = true)
    (hexception : s.HasRead → t.exception = none)
    (hresult : s.HasRead → t.result = s.task.result) : Inv { s with task := t } := by
  have hcompleted (hread : s.HasRead) (hbefore : Completed s.task) : Completed t :=
    ⟨hevent hbefore.event, hexception hread⟩
  refine ⟨fun get hget => hevent (h.signalled get hget),
    fun get hget => hevent (h.notCancelled get hget), fun get hget => ?_,
    fun result hmem => ?_, h.before, fun get outcome hend result hmem => ?_⟩
  · have hbefore := h.notFailed get hget
    exact hcompleted ⟨hbefore.notFailed, .inl ⟨get, .inr hget⟩⟩ hbefore
  · obtain ⟨hbefore, heq⟩ := h.returned result hmem
    have hread : s.HasRead := ⟨hbefore.notFailed, .inr (List.ne_nil_of_mem hmem)⟩
    exact ⟨hcompleted hread hbefore, (hresult hread).trans heq⟩
  · -- a cancellation is not taken back
    exact (h.stable get outcome hend result hmem).imp id (And.imp id hcancelled)

/-- A thread in `get` goes on. -/
theorem setGet {get : ℕ} {point : GetPoint Result} (h : Inv s)
    (hsignalled : point = .signalled → s.task.finishedEvent = true)
    (hnotCancelled : point = .notCancelled → s.task.finishedEvent = true)
    (hnotFailed : point = .notFailed → Completed s.task)
    (hended : ∀ outcome, point = .ended outcome → ∀ result ∈ s.before get,
      outcome = .ok result ∨ outcome = .error cancellation ∧ s.task.cancelled = true) :
    Inv (s.setGet get point) := by
  have hpoint (P : GetPoint Result → Prop) (hself : P point) (hother : ∀ g, P (s.gets g))
      (g : ℕ) : P (Function.update s.gets get point g) := by
    by_cases hg : g = get
    · rw [hg, Function.update_self]
      exact hself
    · rw [Function.update_of_ne hg]
      exact hother g
  refine ⟨hpoint (· = .signalled → _) hsignalled h.signalled,
    hpoint (· = .notCancelled → _) hnotCancelled h.notCancelled,
    hpoint (· = .notFailed → _) hnotFailed h.notFailed, h.returned, h.before, fun g => ?_⟩
  by_cases hg : g = get
  · intro outcome houtcome
    change Function.update s.gets get point g = _ at houtcome
    rw [hg, Function.update_self] at houtcome
    rw [hg]
    exact hended outcome houtcome
  · intro outcome houtcome
    change Function.update s.gets get point g = _ at houtcome
    rw [Function.update_of_ne hg] at houtcome
    exact h.stable g outcome houtcome

/-- A `get` ends with an exception that a completed task does not cause. -/
theorem setGet_error {get : ℕ} {error : GetError} (h : Inv s) (hnot : ¬Completed s.task) :
    Inv (s.setGet get (.ended (.error error))) := by
  refine h.setGet nofun nofun nofun fun _ _ result hmem => ?_
  exact absurd (h.returned result (h.before get hmem)).1 hnot

/-- A `get` finds the task cancelled. -/
theorem setGet_cancelled {get : ℕ} (h : Inv s) (hcancelled : s.task.cancelled = true) :
    Inv (s.setGet get (.ended (.error cancellation))) := by
  refine h.setGet nofun nofun nofun fun outcome heq _ _ => ?_
  cases heq
  exact .inr ⟨rfl, hcancelled⟩

/-- A call of `get` begins. -/
theorem call {get : ℕ} {timeoutMillis : Option ℕ} (h : Inv s) :
    Inv { s.setGet get (.waiting timeoutMillis) with
      before := Function.update s.before get s.returned } := by
  have hset : Inv (s.setGet get (.waiting timeoutMillis)) := h.setGet nofun nofun nofun nofun
  refine ⟨hset.signalled, hset.notCancelled, hset.notFailed, h.returned, fun g => ?_, fun g => ?_⟩
  · show Function.update s.before get s.returned g ⊆ s.returned
    by_cases hg : g = get
    · rw [hg, Function.update_self]
      exact fun _ => id
    · rw [Function.update_of_ne hg]
      exact h.before g
  · intro outcome houtcome
    by_cases hg : g = get
    · rw [hg] at houtcome
      change Function.update s.gets get _ get = _ at houtcome
      rw [Function.update_self] at houtcome
      cases houtcome
    · show ∀ result ∈ Function.update s.before get s.returned g, _
      rw [Function.update_of_ne hg]
      exact hset.stable g outcome houtcome

/-- A `get` returns what every other one has returned. -/
theorem returnResult {get : ℕ} (h : Inv s) (hget : s.gets get = .notFailed) :
    Inv { s.setGet get (.ended (.ok s.task.result)) with
      returned := s.returned ++ [s.task.result] } := by
  have hset : Inv (s.setGet get (.ended (.ok s.task.result))) := by
    refine h.setGet nofun nofun nofun fun outcome heq result hmem => .inl ?_
    cases heq
    rw [(h.returned result (h.before get hmem)).2]
  refine ⟨hset.signalled, hset.notCancelled, hset.notFailed, fun result hmem => ?_, fun g => ?_,
    hset.stable⟩
  · rcases List.mem_append.mp hmem with hold | hnew
    · exact h.returned result hold
    · rw [List.mem_singleton] at hnew
      exact ⟨h.notFailed get hget, hnew.symm⟩
  · exact fun result hmem => List.mem_append_left _ (h.before g hmem)

end Inv

/-- A wait that is signalled is not left by an exception. -/
theorem waitError_eq_none {timeoutMillis : Option ℕ} {answer : WaitAnswer}
    (h : answer = .signalled) : waitError timeoutMillis answer = none := by
  rw [h]
  rfl

/-- One action, whatever cancellations there are. -/
theorem inv_step {s s' : System Result} (a : Action Result) (h : Inv s) (hwaits : EventWaits s a)
    (hkept : Kept s a) (hstep : step s a = some s') : Inv s' := by
  cases takes_of_step hstep with
  | run hrun => exact h.setRun _ _
  | setResult result hrun => exact h.setTask id id (fun hread => hread.1) hkept
  | runTaskReturns hrun => exact h.setRun _ _
  | runTaskThrows exception hrun => exact h.setRun _ _
  | setException hrun =>
    exact (h.setTask (t := s.task.setException _) id id (fun hread => absurd hread hkept)
      (fun _ => rfl)).setRun _ .setFinished
  | setFinished hrun =>
    exact (h.setTask (t := s.task.setFinished) id id (fun hread => hread.1)
      (fun _ => rfl)).setRun _ .notify
  | notify hrun =>
    exact (h.setTask (t := s.task.notify) (fun _ => rfl) id (fun hread => hread.1)
      (fun _ => rfl)).setRun _ .returned
  | cancel mayInterruptIfRunning =>
    exact h.setTask id (fun _ => rfl) (fun hread => hread.1) (fun _ => rfl)
  | get timeoutMillis hget => exact h.call
  | waitThrows hget herror =>
    -- the event was not set, so no result has been returned
    refine h.setGet_error fun hcompleted => ?_
    rw [waitError_eq_none (hwaits hcompleted.event)] at herror
    cases herror
  | waitReturns hget hevent => exact h.setGet (fun _ => hevent) nofun nofun nofun
  | cancelled hget hcancelled => exact h.setGet_cancelled hcancelled
  | notCancelled hget hcancelled => exact h.setGet nofun (fun _ => h.signalled _ hget) nofun nofun
  | failed hget hexception =>
    -- an exception is returned only when `get` has found one
    refine h.setGet_error fun hcompleted => ?_
    exact absurd (hexception.symm.trans hcompleted.notFailed) nofun
  | notFailed hget hexception =>
    exact h.setGet nofun nofun (fun _ => ⟨h.notCancelled _ hget, hexception⟩) nofun
  | returnResult hget => exact h.returnResult hget

/-- A `get` that moves elsewhere has read nothing by that. -/
theorem System.HasRead.of_setGet {s : System Result} {get : ℕ} {point : GetPoint Result}
    (hread : (s.setGet get point).HasRead) (hnotCancelled : point ≠ .notCancelled)
    (hnotFailed : point ≠ .notFailed) : s.HasRead := by
  obtain ⟨hexception, ⟨g, hg⟩ | hreturned⟩ := hread
  · refine ⟨hexception, .inl ⟨g, ?_⟩⟩
    change Function.update s.gets get point g = _ ∨ Function.update s.gets get point g = _ at hg
    by_cases hself : g = get
    · rw [hself, Function.update_self] at hg
      exact (hg.elim hnotCancelled hnotFailed).elim
    · rwa [Function.update_of_ne hself] at hg
  · exact ⟨hexception, .inr hreturned⟩

/-- Where nobody cancels too late, what a `get` has read is not cancelled. -/
theorem uncancelled_step {s s' : System Result} (a : Action Result)
    (h : s.HasRead → s.task.cancelled = false) (hcalm : NotWithdrawn s a)
    (hstep : step s a = some s') : s'.HasRead → s'.task.cancelled = false := by
  cases takes_of_step hstep with
  | run hrun => exact h
  | setResult result hrun => exact h
  | runTaskReturns hrun => exact h
  | runTaskThrows exception hrun => exact h
  | setException hrun =>
    rintro ⟨hexception, -⟩
    cases hexception
  | setFinished hrun => exact h
  | notify hrun => exact h
  | cancel mayInterruptIfRunning => exact fun hread => absurd hread hcalm
  | get timeoutMillis hget =>
    intro hread
    have hset : (s.setGet _ (.waiting timeoutMillis)).HasRead := hread
    exact h (hset.of_setGet nofun nofun)
  | waitThrows hget herror => exact fun hread => h (hread.of_setGet nofun nofun)
  | waitReturns hget hevent => exact fun hread => h (hread.of_setGet nofun nofun)
  | cancelled hget hcancelled => exact fun hread => h (hread.of_setGet nofun nofun)
  -- the one place where a `get` sees that the task is not cancelled
  | notCancelled hget hcancelled => exact fun _ => hcancelled
  | failed hget hexception => exact fun hread => h (hread.of_setGet nofun nofun)
  | notFailed hget hexception => exact fun _ => h ⟨hexception, .inl ⟨_, .inl hget⟩⟩
  | returnResult hget => exact fun hread => h ⟨hread.1, .inl ⟨_, .inr hget⟩⟩

/-- **Results are stable unless the task is cancelled**: in every run in which nothing but a
cancellation changes the outcome of the task once it has been read, a `get` that is called after
some `get` has returned a result returns that result or throws that the task is cancelled; and it
returns it where nobody cancels after it has been read. -/
theorem stable_of_run {task : FutureTask Result} {actions : List (Action Result)}
    {s : System Result} (hrun : Runs.run step { task := task } actions = some s)
    (hwaits : Runs.EveryStep step EventWaits { task := task } actions)
    (hkept : Runs.EveryStep step Kept { task := task } actions) :
    StableUnlessCancelled s ∧
      (Runs.EveryStep step NotWithdrawn { task := task } actions → Stable s) := by
  have hinv : Inv s := Runs.run_invariant
    (fun _ a _ h hstep => inv_step a h hstep.1 hstep.2) (inv_initial task) hrun (hwaits.and hkept)
  refine ⟨hinv.stable, fun hcalm get outcome hend result hmem => ?_⟩
  rcases hinv.stable get outcome hend result hmem with hok | ⟨-, hcancelled⟩
  · exact hok
  -- the result was returned, so the task has been read
  have hreturned := hinv.before get hmem
  have hread : s.HasRead :=
    ⟨(hinv.returned result hreturned).1.notFailed, .inr (List.ne_nil_of_mem hreturned)⟩
  have hfirst : ¬System.HasRead { task := task } := by
    rintro ⟨-, ⟨get, hget | hget⟩ | hnil⟩
    · cases hget
    · cases hget
    · exact hnil rfl
  have huncancelled : s.HasRead → s.task.cancelled = false :=
    Runs.run_invariant (fun _ a _ h hstep => uncancelled_step a h hstep)
      (fun hread => absurd hread hfirst) hrun hcalm
  exact absurd (hcancelled.symm.trans (huncancelled hread)) (by decide)

/-! ### A task that is run once -/

/-- `run` is not called again. -/
def RunsOnce (s : System Result) : Action Result → Prop
  | .run _ => ∀ run, s.runs run = .outside
  | _ => True

/-- The thread is in a `get` and past its wait. -/
def GetPoint.Waited (point : GetPoint Result) : Prop :=
  point = .signalled ∨ point = .notCancelled ∨ point = .notFailed

/-- One thread at most is in `run`, and it leaves it when the event is set. -/
structure Once (s : System Result) : Prop where
  one : ∀ run run', s.runs run ≠ .outside → s.runs run' ≠ .outside → run = run'
  event : s.task.finishedEvent = true → ∃ run, s.runs run = .returned
  waited : ∀ get, (s.gets get).Waited → s.task.finishedEvent = true
  returned : s.returned ≠ [] → s.task.finishedEvent = true

namespace Once

variable {s : System Result}

/-- While the one `run` is under way, the event is not set. -/
theorem finishedEvent_eq (h : Once s) {run : ℕ} (hrun : s.runs run ≠ .outside)
    (hreturned : s.runs run ≠ .returned) : s.task.finishedEvent = false := by
  refine Bool.eq_false_iff.mpr fun hevent => ?_
  obtain ⟨run', hrun'⟩ := h.event hevent
  have heq : run' = run := h.one run' run (by rw [hrun']; nofun) hrun
  exact hreturned (heq ▸ hrun')

/-- So nothing has been read before. -/
theorem not_hasRead (h : Once s) (hevent : s.task.finishedEvent = false) : ¬s.HasRead := by
  rintro ⟨-, ⟨get, hget⟩ | hreturned⟩
  · exact absurd ((h.waited get (.inr hget)).symm.trans hevent) (by decide)
  · exact absurd ((h.returned hreturned).symm.trans hevent) (by decide)

/-- The one `run` goes on, and what it does to the task sets the event only at its end. -/
theorem moveRun (h : Once s) {run : ℕ} {point : RunPoint} {t : FutureTask Result}
    (hfalse : s.task.finishedEvent = false) (honly : ∀ run', s.runs run' ≠ .outside → run' = run)
    (hevent : t.finishedEvent = true → point = .returned) :
    Once { s.setRun run point with task := t } := by
  have hrun (run' : ℕ) (hne : Function.update s.runs run point run' ≠ .outside) : run' = run := by
    by_cases heq : run' = run
    · exact heq
    · rw [Function.update_of_ne heq] at hne
      exact honly run' hne
  refine ⟨fun r r' hr hr' => (hrun r hr).trans (hrun r' hr').symm, fun hset => ⟨run, ?_⟩,
    fun get hget => ?_, fun hreturned => ?_⟩
  · show Function.update s.runs run point run = .returned
    rw [Function.update_self, hevent hset]
  · exact absurd ((h.waited get hget).symm.trans hfalse) (by decide)
  · exact absurd ((h.returned hreturned).symm.trans hfalse) (by decide)

/-- The one `run`, from somewhere inside. -/
theorem moveOn (h : Once s) {run : ℕ} {point : RunPoint} {t : FutureTask Result}
    (hrun : s.runs run ≠ .outside) (hreturned : s.runs run ≠ .returned)
    (hevent : t.finishedEvent = s.task.finishedEvent ∨ point = .returned) :
    Once { s.setRun run point with task := t } := by
  have hfalse := h.finishedEvent_eq hrun hreturned
  refine h.moveRun hfalse (fun run' hrun' => h.one run' run hrun' hrun) fun hset => ?_
  rcases hevent with hsame | hpoint
  · exact absurd (hset.symm.trans (hsame.trans hfalse)) (by decide)
  · exact hpoint

/-- A `get` goes on; past its wait only if the event is set. -/
theorem moveGet (h : Once s) {get : ℕ} {point : GetPoint Result}
    (hpoint : point.Waited → s.task.finishedEvent = true) : Once (s.setGet get point) := by
  refine ⟨h.one, h.event, fun g hg => ?_, h.returned⟩
  change (Function.update s.gets get point g).Waited at hg
  by_cases heq : g = get
  · rw [heq, Function.update_self] at hg
    exact hpoint hg
  · rw [Function.update_of_ne heq] at hg
    exact h.waited g hg

end Once

/-- One action of a run in which `run` is called once. -/
theorem once_step {s s' : System Result} (a : Action Result) (h : Once s) (honce : RunsOnce s a)
    (hstep : step s a = some s') : Once s' := by
  -- what is not on its way to a result says nothing about the event
  have hnot {point : GetPoint Result} (hsignalled : point ≠ .signalled)
      (hnotCancelled : point ≠ .notCancelled) (hnotFailed : point ≠ .notFailed) :
      point.Waited → s.task.finishedEvent = true := by
    rintro (heq | heq | heq)
    · exact absurd heq hsignalled
    · exact absurd heq hnotCancelled
    · exact absurd heq hnotFailed
  cases takes_of_step hstep with
  | run hrun =>
    refine h.moveRun (t := s.task) ?_ (fun run' hrun' => absurd (honce run') hrun') ?_
    -- no other run has set the event, for there is none
    · refine Bool.eq_false_iff.mpr fun hevent => ?_
      obtain ⟨run', hrun'⟩ := h.event hevent
      cases (honce run').symm.trans hrun'
    · intro hevent
      obtain ⟨run', hrun'⟩ := h.event hevent
      cases (honce run').symm.trans hrun'
  | setResult result hrun => exact ⟨h.one, h.event, h.waited, h.returned⟩
  | runTaskReturns hrun =>
    exact h.moveOn (t := s.task) (by rw [hrun]; nofun) (by rw [hrun]; nofun) (.inl rfl)
  | runTaskThrows exception hrun =>
    exact h.moveOn (t := s.task) (by rw [hrun]; nofun) (by rw [hrun]; nofun) (.inl rfl)
  | setException hrun =>
    exact h.moveOn (by rw [hrun]; nofun) (by rw [hrun]; nofun) (.inl rfl)
  | setFinished hrun =>
    exact h.moveOn (by rw [hrun]; nofun) (by rw [hrun]; nofun) (.inl rfl)
  | notify hrun =>
    exact h.moveOn (by rw [hrun]; nofun) (by rw [hrun]; nofun) (.inr rfl)
  | cancel mayInterruptIfRunning => exact ⟨h.one, h.event, h.waited, h.returned⟩
  | @get get timeoutMillis hget =>
    have hset : Once (s.setGet get (.waiting timeoutMillis)) :=
      h.moveGet (hnot nofun nofun nofun)
    exact ⟨hset.one, hset.event, hset.waited, hset.returned⟩
  | waitThrows hget herror => exact h.moveGet (hnot nofun nofun nofun)
  | waitReturns hget hevent => exact h.moveGet fun _ => hevent
  | cancelled hget hcancelled => exact h.moveGet (hnot nofun nofun nofun)
  | notCancelled hget hcancelled => exact h.moveGet fun _ => h.waited _ (.inl hget)
  | failed hget hexception => exact h.moveGet (hnot nofun nofun nofun)
  | notFailed hget hexception => exact h.moveGet fun _ => h.waited _ (.inr (.inl hget))
  | @returnResult get hget =>
    have hevent := h.waited get (.inr (.inr hget))
    have hset : Once (s.setGet get (.ended (.ok s.task.result))) :=
      h.moveGet (hnot nofun nofun nofun)
    exact ⟨hset.one, hset.event, hset.waited, fun _ => hevent⟩

/-- A task that is run once keeps the outcome that has been read. -/
theorem kept_of_runsOnce {result : Result} {actions : List (Action Result)} {s : System Result}
    (hrun : Runs.run step { task := { result := result } } actions = some s)
    (honce : Runs.EveryStep step RunsOnce { task := { result := result } } actions) :
    Runs.EveryStep step Kept { task := { result := result } } actions := by
  have hfirst : Once { task := { result := result } } := by
    refine ⟨fun _ _ hrun => absurd rfl hrun, nofun, fun get hget => ?_, fun hnil => absurd rfl hnil⟩
    rcases hget with hget | hget | hget <;> cases hget
  refine Runs.everyStep_of_invariant (fun s a s' h hC hstep => once_step a h hC.1 hstep)
    (fun s a h hC => ?_) hfirst (honce.and (Runs.everyStep_taken hrun))
  obtain ⟨s', hstep⟩ := hC.2
  cases takes_of_step hstep with
  | setException hrun =>
    exact h.not_hasRead (h.finishedEvent_eq (by rw [hrun]; nofun) (by rw [hrun]; nofun))
  | setResult result hrun =>
    have hfalse := h.finishedEvent_eq (by rw [hrun]; nofun) (by rw [hrun]; nofun)
    exact fun hread => absurd hread (h.not_hasRead hfalse)
  | _ => trivial

/-- The task is run to its end, and a `get` returns its result. -/
def completeAndGet : List (Action ℕ) := [
  .run 0, .setResult 0 7, .runTaskEnds 0 none, .setFinished 0, .notify 0,
  .get 0 none, .wait 0 .signalled, .checkCancelled 0, .checkFailed 0, .returnResult 0]

/-- Another `get` is called with a timeout. -/
def getAgain : List (Action ℕ) :=
  [.get 1 (some 10), .wait 1 .signalled, .checkCancelled 1, .checkFailed 1, .returnResult 1]

instance (s : System Result) : DecidablePred (EventWaits s)
  | .wait _ .signalled => isTrue fun _ => rfl
  | .wait _ .timeout | .wait _ .systemError =>
    decidable_of_iff (s.task.finishedEvent = false) (by simp [EventWaits])
  | .run _ | .setResult _ _ | .runTaskEnds _ _ | .setException _ | .setFinished _ | .notify _
  | .cancel _ | .get _ _ | .checkCancelled _ | .checkFailed _ | .returnResult _ => isTrue trivial

/-- Both get the result: the task is run once, and nobody cancels it. -/
theorem stable_of_run_getAgain : ∃ s,
    Runs.run step { task := { result := 0 } } (completeAndGet ++ getAgain) = some s ∧
      s.gets 1 = .ended (.ok 7) ∧ s.before 1 = [7] ∧ Stable s := by
  have hwaits : Runs.EveryStep step EventWaits { task := { result := 0 } }
      (completeAndGet ++ getAgain) := by decide +kernel
  have honce : Runs.EveryStep step RunsOnce { task := { result := 0 } }
      (completeAndGet ++ getAgain) :=
    ⟨fun _ => rfl, trivial, trivial, trivial, trivial, trivial, trivial, trivial, trivial, trivial,
      trivial, trivial, trivial, trivial, trivial, trivial⟩
  have hcalm : Runs.EveryStep step NotWithdrawn { task := { result := 0 } }
      (completeAndGet ++ getAgain) :=
    ⟨trivial, trivial, trivial, trivial, trivial, trivial, trivial, trivial, trivial, trivial,
      trivial, trivial, trivial, trivial, trivial, trivial⟩
  exact ⟨_, rfl, rfl, rfl, (stable_of_run rfl hwaits (kept_of_runsOnce rfl honce)).2 hcalm⟩

/-- The task is cancelled after its completion, between the two calls. -/
def cancelAfterGet : List (Action ℕ) :=
  completeAndGet ++ [.cancel false, .get 1 none, .wait 1 .signalled, .checkCancelled 1]

/-- The task is run once more between the two calls, with another result. -/
def runAgain : List (Action ℕ) :=
  completeAndGet ++ [.run 1, .setResult 1 8] ++ getAgain

/-- Either takes the result back that the first call has returned. -/
theorem not_stable_cancel : (∃ s,
    Runs.run step { task := { result := 0 } } cancelAfterGet = some s ∧
      Runs.EveryStep step EventWaits { task := { result := 0 } } cancelAfterGet ∧ ¬Stable s) ∧
    ∃ s, Runs.run step { task := { result := 0 } } runAgain = some s ∧
      Runs.EveryStep step EventWaits { task := { result := 0 } } runAgain ∧ ¬Stable s := by
  refine ⟨⟨_, rfl, by decide +kernel, fun hstable => ?_⟩,
    ⟨_, rfl, by decide +kernel, fun hstable => ?_⟩⟩
  · have hended := hstable 1 _ rfl 7 (List.mem_singleton_self 7)
    cases hended
  · have hended := hstable 1 _ rfl 7 (List.mem_singleton_self 7)
    cases hended

end FutureTask

end EasyHttp
