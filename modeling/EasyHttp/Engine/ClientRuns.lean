import EasyHttp.Engine.EasyHttpInternalTheorems

/-!
# The calls of a client over a whole run

* `execution_of_run`: a call is executed once at most;
* `told_of_run`: a callback is called once at most, and told what the execution alone would say;
* `quiet_of_invalidated`: after `invalidateAndCancel` all is over;
* `neverBegun_of_run`: a call that is cancelled first makes no engine.
-/

namespace EasyHttp.EasyHttpInternal

open AsyncTasks (ExecuteResult Notification notification)
open HttpExecutionTaskManager (Caller TaskPoint)
open ExecutionCancel (cancelledException)
open Exec

section
variable {config : Config} {s s' : System} {actions : List Action} {call call' : CallInternal}
  {executor executor' : ExecutionCancel.System} {p : CallPtr} {result : ExecuteResult}

theorem inv_of_run (h : Inv config s) (hrun : Runs.run (step config) s actions = some s') :
    Inv config s' :=
  Runs.run_invariant (fun _ _ _ h _ hstep => inv_step h hstep) h hrun (Runs.everyStep_true _ _)

/-- **A run of the client is a run of its manager.** -/
theorem manager_run (h : Inv config s) (hrun : Runs.run (step config) s actions = some s') :
    ∃ bs, Runs.run (managerStep config) s.httpExecutionTaskManager bs =
      some s'.httpExecutionTaskManager := by
  refine Runs.simulates_run System.httpExecutionTaskManager
    (fun _ _ _ h hstep => inv_step h hstep) (fun s a s' _ hstep => ?_) h hrun
  rcases manager_of_step hstep with hsame | ⟨b, hmanaged⟩
  · exact ⟨[], congrArg some hsame.symm⟩
  · exact ⟨[b], Runs.run_cons_some hmanaged.step rfl⟩

/-! ## One execution -/

/-- How often `execute` or `executeAsync` of a call has got beyond its first section. -/
def System.entered (s : System) (p : CallPtr) : ℕ :=
  s.entries.countP fun entry => entry.1 = p && entry.2.isOk

/-- The executions of a call that have begun. -/
def System.executions (s : System) (p : CallPtr) : ℕ :=
  match s.calls p with
  | some call => if call.executed then 1 else 0
  | none => 0

/-- One call more has got into an execution, unless it threw. -/
theorem entered_enter (s : System) (p q : CallPtr) (result : Except HttpException Unit) :
    (s.enter q result).entered p = s.entered p + if q = p ∧ result.isOk = true then 1 else 0 := by
  unfold System.entered System.enter
  rw [List.countP_append, List.countP_singleton]
  simp

/-- A change of one call leaves the others' executions. -/
theorem executions_setCall (s : System) (p q : CallPtr) (call : CallInternal) :
    (s.setCall q call).executions p =
      if p = q then (if call.executed then 1 else 0) else s.executions p := by
  unfold System.executions System.setCall
  by_cases hp : p = q
  · subst hp
    simp
  · simp [hp]

/-- A call has been executed once at most. -/
theorem executions_of_call (hcall : s.calls p = some call) :
    s.executions p = if call.executed then 1 else 0 := by
  unfold System.executions
  rw [hcall]

/-- To cancel a call does not execute it. -/
theorem cancel_executed (call : CallInternal) (connectionCancelled : Bool) :
    (call.cancel connectionCancelled).2.executed = call.executed := by
  unfold CallInternal.cancel
  split <;> rfl

/-- A call that enters has not been executed, and is from now on. -/
structure Enters (call call' : CallInternal) : Prop where
  before : call.executed = false
  after : call'.executed = true

/-- A call that `execute` lets in was not executed before. -/
theorem enters_of_execute {pool : ConnectionPoolInternal} {headers : HeaderStore}
    (h : call.execute pool headers = .ok call') : Enters call call' := by
  unfold CallInternal.execute at h
  split at h <;> cases h
  exact ⟨Bool.not_eq_true _ ▸ ‹_›, rfl⟩

/-- A call that `executeAsync` lets in was not executed before. -/
theorem enters_of_executeAsync {hasCallback : Bool} {pool : ConnectionPoolInternal}
    {headers : HeaderStore} (h : call.executeAsync hasCallback pool headers = .ok call') :
    Enters call call' := by
  unfold CallInternal.executeAsync at h
  split at h
  · cases h
  · split at h <;> cases h
    exact ⟨Bool.not_eq_true _ ▸ ‹_›, rfl⟩

/-- The counts stay equal when a call is let in. -/
theorem entered_of_enters (h : ∀ p, s.entered p = s.executions p) {q : CallPtr}
    (hcall : s.calls q = some call) (henters : Enters call call') (p : CallPtr) :
    ((s.setCall q call').enter q (.ok ())).entered p =
      ((s.setCall q call').enter q (.ok ())).executions p := by
  rw [entered_enter]
  show s.entered p + _ = (s.setCall q call').executions p
  rw [executions_setCall, h p, henters.after]
  by_cases hp : p = q
  · subst hp
    rw [executions_of_call hcall, henters.before]
    simp [Except.isOk, Except.toBool]
  · simp [hp, Ne.symm hp]

/-- The counts stay equal when a call is refused. -/
theorem entered_of_throws (h : ∀ p, s.entered p = s.executions p) (q p : CallPtr)
    (e : HttpException) :
    (s.enter q (.error e)).entered p = (s.enter q (.error e)).executions p := by
  rw [entered_enter]
  show s.entered p + _ = s.executions p
  rw [h p]
  simp [Except.isOk, Except.toBool]

/-- Each entry begins an execution, and nothing else does. -/
theorem entered_step (h : ∀ p, s.entered p = s.executions p) {action : Action}
    (hstep : step config s action = some s') (p : CallPtr) : s'.entered p = s'.executions p := by
  -- a call that goes on with the same `executed` counts as before
  have hsame {call call' : CallInternal} {q : CallPtr} (hcall : s.calls q = some call)
      (hexecuted : call'.executed = call.executed) :
      s.entered p = (s.setCall q call').executions p := by
    rw [executions_setCall, h p, hexecuted]
    split
    · rename_i hp
      rw [hp, executions_of_call hcall]
    · rfl
  cases effect_of_step hstep with
  | @newCall q request call hnew hcall =>
    -- a new call has not been executed, and the pointer had no call
    have hnot : call.executed = false := by
      unfold System.newCall at hcall
      split at hcall
      · cases hcall
      · split at hcall <;> cases hcall
        rfl
    show s.entered p = (s.setCall q call).executions p
    rw [executions_setCall, h p, hnot]
    split
    · rename_i hp
      unfold System.executions
      rw [hp, hnew]
      rfl
    · rfl
  -- these two let a call in, and both counts grow by one
  | execute hcall hentered => exact entered_of_enters h hcall (enters_of_execute hentered) p
  | executeAsync hcall hentered _ =>
    exact entered_of_enters h hcall (enters_of_executeAsync hentered) p
  | executeThrows e _ _ => exact entered_of_throws h _ p e
  | executeAsyncThrows e _ _ => exact entered_of_throws h _ p e
  | cancel hcall => exact hsame hcall (cancel_executed _ _)
  | execution hcall _ _ _ => exact hsame hcall rfl
  | cancelTask hcall _ _ => exact hsame hcall rfl
  | _ => exact h p

/-- **A call is executed once at most.** Of all calls of `execute` and `executeAsync`, by any
threads, one at most gets beyond its first section; there is an executor exactly if one has; and
what that has done is one run of `execute` with the request of the call. -/
theorem execution_of_run (hrun : Runs.run (step config) (initial config) actions = some s)
    (p : CallPtr) : s.entered p ≤ 1 ∧ ∀ call, s.calls p = some call →
      s.entered p = call.requestExecutor.toList.length ∧
        ∀ executor, call.requestExecutor = some executor → ∃ pool headers as,
          Runs.run (executionStep config)
            (ExecutionCancel.System.init call.userRequest pool headers) as = some executor := by
  have hinv := inv_of_run (inv_initial config) hrun
  have hentered : ∀ p, s.entered p = s.executions p :=
    Runs.run_invariant (fun _ _ _ h _ hstep => entered_step h hstep) (fun _ => rfl) hrun
      (Runs.everyStep_true _ _)
  refine ⟨?_, fun call hcall => ⟨?_, (hinv.calls p call hcall).run⟩⟩
  · rw [hentered p, System.executions]
    split
    · split <;> omega
    · omega
  · rw [hentered p, executions_of_call hcall, (hinv.calls p call hcall).executed]
    cases call.requestExecutor <;> rfl

/-! ## What a callback is told -/

/-- The exception that a callback gets for one of `execute`. -/
def failureOf : HttpException → HttpException
  | .poco _ => .execution
    "Unexpected error while executing Http asynchronous request. Check getCause() for details."
  | e => e

/-- An exception of the library comes to the callback as its failure. -/
theorem notification_thrownOf (e : HttpException) :
    notification (.error (thrownOf e)) = .ok (.onFailure (failureOf e)) := by
  cases e <;> rfl

/-- What `executeWithRetry` says alone, or that the call was cancelled. -/
inductive Told (config : Config) (call : CallInternal) : Notification → Prop
  | onResponse (env : ℕ → Surroundings) (headers headers' : HeaderStore) (userResponse : Response)
    (h : exec (HttpRequestExecutor.executeWithRetry config.poco config.context.hasCache env
      call.userRequest) headers = (.ok userResponse, headers')) :
    Told config call (.onResponse (some userResponse))
  | onFailure (env : ℕ → Surroundings) (headers headers' : HeaderStore) (e : HttpException)
    (h : exec (HttpRequestExecutor.executeWithRetry config.poco config.context.hasCache env
      call.userRequest) headers = (.error e, headers')) :
    Told config call (.onFailure (failureOf e))
  | cancelled (h : call.isCancelled = true) : Told config call (.onFailure cancelledException)

/-- The result of an executor, as the callback is told it. -/
theorem told_of_result (h : CallInv config call) (hexecutor : call.requestExecutor = some executor)
    (hresult : resultOf executor.stage = some result) {what : Notification}
    (hwhat : notification result = .ok what) : Told config call what := by
  obtain ⟨pool, headers, as, hrun⟩ := h.run executor hexecutor
  obtain ⟨hreturns, hthrows⟩ := ExecutionCancel.refines_executeWithRetry config.poco config.context
    call.userRequest pool headers as executor hrun
  cases hstage : executor.stage with
  | returned response =>
    rw [hstage] at hresult
    cases hresult
    cases hwhat
    obtain ⟨env, userResponse, rfl, hexec⟩ := hreturns response hstage
    exact .onResponse env headers executor.headers userResponse hexec
  | thrown e =>
    rw [hstage] at hresult
    cases hresult
    rw [notification_thrownOf] at hwhat
    cases hwhat
    rcases hthrows e hstage with ⟨rfl, hcancelled⟩ | ⟨env, hexec⟩
    · refine .cancelled ?_
      unfold CallInternal.isCancelled
      rw [hexecutor]
      exact hcancelled
    · exact .onFailure env headers executor.headers e hexec
  | _ => rw [hstage] at hresult; cases hresult

/-- The manager of a client keeps its invariant. -/
theorem asyncInv_of_run (hrun : Runs.run (step config) (initial config) actions = some s) :
    AsyncTasks.Inv s.httpExecutionTaskManager.toAsync := by
  obtain ⟨bs, hbs⟩ := manager_run (inv_initial config) hrun
  exact HttpExecutionTaskManager.asyncInv_of_run
    (HttpExecutionTaskManager.inv_initial config.asyncThreadPool) AsyncTasks.inv_initial hbs

/-- The calls of the callback of a task, from where the task is. -/
theorem callsOf_eq {m : HttpExecutionTaskManager.System} (hasync : AsyncTasks.Inv m.toAsync)
    (p : CallPtr) : m.callsOf p = [] ∨ ∃ result what, endOf (m.tasks p) = some result ∧
      notification result = .ok what ∧ m.callsOf p = [what] := by
  have hcalls : m.callsOf p = (m.asyncPoint p).calls := hasync.calls_eq p
  have hconsistent : (m.asyncPoint p).Consistent := hasync.consistent p
  rw [hcalls]
  unfold HttpExecutionTaskManager.System.asyncPoint at hconsistent ⊢
  cases hpoint : m.tasks p with
  | notRun =>
    left
    cases m.starts p with
    | inPool caller => cases m.pool.submitters p <;> rfl
    | _ => rfl
  | execute | onComplete result what | callback result what => exact .inl rfl
  | called result what =>
    rw [hpoint] at hconsistent
    exact .inr ⟨result, what, rfl, hconsistent, rfl⟩
  | leaving result thrown | finished result thrown =>
    cases hnotification : notification result with
    | error thrown =>
      left
      show (notification result).toOption.toList = []
      rw [hnotification]
      rfl
    | ok what =>
      refine .inr ⟨result, what, rfl, hnotification, ?_⟩
      show (notification result).toOption.toList = [what]
      rw [hnotification]
      rfl

/-- Only the task of an asynchronous call is run. -/
theorem isAsync_of_isNotRun (h : Inv config s)
    (hrun : (s.httpExecutionTaskManager.tasks p).isNotRun = false) :
    ∃ call, s.calls p = some call ∧ call.isAsync = true := by
  by_contra hnone
  push Not at hnone
  have hstarts := h.outside p fun call hcall => Bool.not_eq_true _ ▸ hnone call hcall
  have hagrees := h.manager.pool.agrees p
  rw [hstarts] at hagrees
  have hsubmitter : s.httpExecutionTaskManager.pool.submitters p = .outside := hagrees
  rw [HttpExecutionTaskManager.notRun_of_not_accepted h.manager p (by simp [hsubmitter])] at hrun
  cases hrun

/-- A task that has ended was begun. -/
theorem isNotRun_of_endOf {point : TaskPoint} (h : endOf point = some result) :
    point.isNotRun = false := by
  cases point with
  | notRun => cases h
  | _ => rfl

/-- **A callback is called once at most, and told what the execution alone would say**: in each
state of a run it has been called once or not at all, and what it was told `executeWithRetry` says
in some surroundings, or the call is cancelled and it was told so. -/
theorem told_of_run (hrun : Runs.run (step config) (initial config) actions = some s)
    (p : CallPtr) : (s.httpExecutionTaskManager.callsOf p).length ≤ 1 ∧
      ∀ what ∈ s.httpExecutionTaskManager.callsOf p, ∃ call, s.calls p = some call ∧
        call.isAsync = true ∧ Told config call what := by
  have hinv := inv_of_run (inv_initial config) hrun
  rcases callsOf_eq (asyncInv_of_run hrun) p with hnone | ⟨result, what, hended, hwhat, hone⟩
  · rw [hnone]
    exact ⟨Nat.zero_le 1, fun what hmem => absurd hmem List.not_mem_nil⟩
  · rw [hone]
    refine ⟨le_rfl, fun w hmem => ?_⟩
    rw [List.mem_singleton.mp hmem]
    obtain ⟨call, executor, hcall, hexecutor, hresult⟩ := hinv.ended p result hended
    obtain ⟨call', hcall', hasync⟩ := isAsync_of_isNotRun hinv (isNotRun_of_endOf hended)
    rw [hcall] at hcall'
    cases hcall'
    exact ⟨call, hcall, hasync, told_of_result (hinv.calls p call hcall) hexecutor hresult hwhat⟩

/-! ## After `invalidateAndCancel` -/

/-- Each asynchronous execution has ended and its callback was called once, unless what was thrown
is no exception, or it has never begun and will not. -/
structure AllEnded (s : System) : Prop where
  accepted : ∀ p, s.httpExecutionTaskManager.starts p = .accepted → ∃ call executor result,
    s.calls p = some call ∧ call.requestExecutor = some executor ∧
      resultOf executor.stage = some result ∧
        s.httpExecutionTaskManager.callsOf p = (notification result).toOption.toList
  others : ∀ p, s.httpExecutionTaskManager.starts p ≠ .accepted →
    s.httpExecutionTaskManager.callsOf p = [] ∧ ∀ call executor, s.calls p = some call →
      call.isAsync = true → call.requestExecutor = some executor →
        executor.place = ⟨0, .creating call.userRequest⟩

/-- When the tasks are done the executions of the calls have ended. -/
theorem allEnded_of_allDone (h : Inv config s)
    (hdone : HttpExecutionTaskManager.AllDone s.httpExecutionTaskManager) : AllEnded s := by
  refine ⟨fun p haccepted => ?_, fun p hnot => ?_⟩
  · obtain ⟨result, exception, hfinished, hcalls⟩ := hdone.accepted p haccepted
    obtain ⟨call, executor, hcall, hexecutor, hresult⟩ := h.ended p result (by rw [hfinished]; rfl)
    exact ⟨call, executor, result, hcall, hexecutor, hresult, hcalls⟩
  · obtain ⟨hnotRun, hcalls⟩ := hdone.others p hnot
    refine ⟨hcalls, fun call executor hcall hasync hexecutor => ?_⟩
    exact h.waits p call executor hcall hasync (by rw [hnotRun]; rfl) hexecutor

/-- The manager has released its pool. -/
structure Released (m : HttpExecutionTaskManager.System) : Prop where
  inv : HttpExecutionTaskManager.Inv m
  async : AsyncTasks.Inv m.toAsync
  released : m.released = true

/-- A pool that was released stays so. -/
theorem released_of_run {bs : List HttpExecutionTaskManager.Action}
    {m m' : HttpExecutionTaskManager.System} (h : Released m)
    (hrun : Runs.run (managerStep config) m bs = some m') : Released m' := by
  refine Runs.run_invariant (fun t a t' h _ hstep => ?_) h hrun (Runs.everyStep_true _ _)
  have hone : Runs.run (managerStep config) t [a] = some t' := Runs.run_cons_some hstep rfl
  exact ⟨HttpExecutionTaskManager.inv_step a h.inv hstep,
    HttpExecutionTaskManager.asyncInv_of_run h.inv h.async hone,
    (HttpExecutionTaskManager.nothingNew_step a h.inv h.released hstep).1⟩

/-- An invalidated client makes no call. -/
theorem noCall_step {action : Action} (h : s.invalidated = true ∧ s.calls p = none)
    (hstep : step config s action = some s') : s'.invalidated = true ∧ s'.calls p = none := by
  obtain ⟨hinvalidated, hnone⟩ := h
  have hother {q : CallPtr} {call call' : CallInternal} (hcall : s.calls q = some call) :
      Function.update s.calls q (some call') p = none := by
    rw [Function.update_of_ne, hnone]
    rintro rfl
    rw [hnone] at hcall
    cases hcall
  cases effect_of_step hstep with
  | newCall hnew hcall =>
    unfold System.newCall at hcall
    rw [if_pos hinvalidated] at hcall
    cases hcall
  | execute hcall _ | executeAsync hcall _ _ | cancel hcall | execution hcall _ _ _
  | cancelTask hcall _ _ => exact ⟨hinvalidated, hother hcall⟩
  | invalidateAndCancel _ => exact ⟨rfl, hnone⟩
  | _ => exact ⟨hinvalidated, hnone⟩

/-- **After `invalidateAndCancel` all is over.** When its `gracefulShutdown` has returned from its
last section, each asynchronous execution has ended, or never begins, no callback is called any more
and no call is made, whatever is still done with the client and its calls. -/
theorem quiet_of_invalidated (hrun : Runs.run (step config) (initial config) actions = some s)
    {k : ℕ} (hreturned : s.httpExecutionTaskManager.shutdowns k = .returned) :
    AllEnded s ∧ ∀ more s', Runs.run (step config) s more = some s' → AllEnded s' ∧
      s'.httpExecutionTaskManager.calls = s.httpExecutionTaskManager.calls ∧
        (s.invalidated = true → ∀ p, s.calls p = none → s'.calls p = none) := by
  have hinv := inv_of_run (inv_initial config) hrun
  have hreleased : Released s.httpExecutionTaskManager :=
    ⟨hinv.manager, asyncInv_of_run hrun, hinv.manager.shutdown.returned k hreturned⟩
  have hdone {t : System} (h : Inv config t) (ht : Released t.httpExecutionTaskManager) :
      AllEnded t := allEnded_of_allDone h
    (HttpExecutionTaskManager.allDone_of_released ht.inv ht.async ht.released)
  refine ⟨hdone hinv hreleased, fun more s' hmore => ?_⟩
  obtain ⟨bs, hbs⟩ := manager_run hinv hmore
  refine ⟨hdone (inv_of_run hinv hmore) (released_of_run hreleased hbs),
    (HttpExecutionTaskManager.nothingNew_of_run hinv.manager hreleased.released hbs).calls, ?_⟩
  intro hinvalidated p hnone
  have hkept := Runs.run_invariant (fun _ _ _ h _ hstep => noCall_step h hstep)
    ⟨hinvalidated, hnone⟩ hmore (Runs.everyStep_true _ _)
  exact hkept.2

/-! ## A call that is cancelled first -/

/-- The call was cancelled before it was executed. -/
structure NeverBegun (call : CallInternal) : Prop where
  cancelled : call.cancelled = true
  executor : ∀ executor, call.requestExecutor = some executor →
    executor.executor.cancelled = true ∧ executor.executor.httpEngine = none ∧
      (executor.stage = .creating call.userRequest ∨
        executor.stage = .thrown (.execution "http request is cancelled."))

/-- A `cancel` finds no engine, and moves no thread. -/
theorem cancelExecutor_of_none (h : executor.executor.httpEngine = none)
    (connectionCancelled : Bool) :
    (cancelExecutor executor connectionCancelled).2.executor.httpEngine = none ∧
      (cancelExecutor executor connectionCancelled).2.stage = executor.stage := by
  have hrecord : (ExecutionCancel.record executor).executor = executor.executor ∧
      (ExecutionCancel.record executor).stage = executor.stage := by
    unfold ExecutionCancel.record
    split <;> exact ⟨rfl, rfl⟩
  unfold cancelExecutor ExecutionCancel.cancel
  dsimp only
  rw [ExecutionCancel.closeUserResponse_eq]
  unfold ExecutionCancel.cancelEngine
  rw [hrecord.1, h]
  exact ⟨rfl, hrecord.2⟩

/-- A cancelled executor without an engine makes none. -/
theorem noEngine_step {action : ExecutionCancel.Action} {request : Request}
    (hcancelled : executor.executor.cancelled = true)
    (hengine : executor.executor.httpEngine = none)
    (hstage : executor.stage = .creating request ∨
      executor.stage = .thrown (.execution "http request is cancelled."))
    (hstep : executionStep config executor action = some executor') :
    executor'.executor.cancelled = true ∧ executor'.executor.httpEngine = none ∧
      (executor'.stage = .creating request ∨
        executor'.stage = .thrown (.execution "http request is cancelled.")) := by
  refine ⟨(ExecutionCancel.keeps_step hstep).cancelled hcancelled, ?_⟩
  cases action with
  | cancel connectionCancelled =>
    cases hstep
    obtain ⟨hnone, hsame⟩ := cancelExecutor_of_none hengine connectionCancelled
    exact ⟨hnone, hsame ▸ hstage⟩
  | onIdle p => simp [executionStep, ExecutionCancel.step, hengine] at hstep
  | others pool =>
    cases hstep
    exact ⟨hengine, hstage⟩
  | createEngine address =>
    rcases hstage with hstage | hstage
    · simp only [executionStep, ExecutionCancel.step, hstage] at hstep
      cases hstep
      unfold ExecutionCancel.createEngine
      rw [if_pos hcancelled]
      exact ⟨hengine, .inr rfl⟩
    · simp [executionStep, ExecutionCancel.step, hstage] at hstep
  | _ =>
    rcases hstage with hstage | hstage <;>
      simp [executionStep, ExecutionCancel.step, hstage] at hstep

/-- A call that is refused stays refused. -/
theorem neverBegun_moves {runs : Bool} (h : NeverBegun call)
    (hmoves : Moves config runs call call') : NeverBegun call' := by
  cases hmoves with
  | enter pool headers isAsync hnot =>
    refine ⟨h.cancelled, ?_⟩
    rintro executor ⟨⟩
    unfold CallInternal.newRequestExecutor
    dsimp only
    rw [if_pos h.cancelled]
    have hinit : (ExecutionCancel.System.init call.userRequest pool headers).executor.httpEngine =
        none := rfl
    obtain ⟨hnone, hsame⟩ := cancelExecutor_of_none hinit true
    exact ⟨cancelExecutor_cancelled _ _, hnone, .inl hsame⟩
  | cancel connectionCancelled =>
    unfold CallInternal.cancel
    cases hexecutor : call.requestExecutor with
    | none =>
      refine ⟨rfl, fun executor hsome => ?_⟩
      cases hsome
    | some executor =>
      refine ⟨rfl, ?_⟩
      rintro e ⟨⟩
      obtain ⟨hcancelled, hengine, hstage⟩ := h.executor executor hexecutor
      have hcancel : executionStep config executor (.cancel connectionCancelled) =
          some (cancelExecutor executor connectionCancelled).2 := rfl
      exact noEngine_step hcancelled hengine hstage hcancel
  | execution hexecutor _ hstep =>
    refine ⟨h.cancelled, ?_⟩
    rintro e ⟨⟩
    obtain ⟨hcancelled, hengine, hstage⟩ := h.executor _ hexecutor
    exact noEngine_step hcancelled hengine hstage hstep

/-- A call that satisfies this does so after an action, if the moves of a call keep it. -/
theorem call_kept {P : CallInternal → Prop} (hP : ∀ {runs call call'}, P call →
    Moves config runs call call' → P call') {action : Action}
    (h : ∃ call, s.calls p = some call ∧ P call) (hstep : step config s action = some s') :
    ∃ call, s'.calls p = some call ∧ P call := by
  obtain ⟨call, hcall, hcallP⟩ := h
  rcases call_of_step hstep p with (hsame | ⟨before, after, hbefore, hafter, hmoves⟩) | ⟨hnone, -⟩
  · exact ⟨call, hsame.trans hcall, hcallP⟩
  · rw [hcall] at hbefore
    cases hbefore
    exact ⟨after, hafter, hP hcallP hmoves⟩
  · rw [hcall] at hnone
    cases hnone

/-- What each move of a call keeps is kept in a run of the client. -/
theorem call_kept_of_run {P : CallInternal → Prop} (hP : ∀ {runs call call'}, P call →
    Moves config runs call call' → P call') (h : ∃ call, s.calls p = some call ∧ P call)
    (hrun : Runs.run (step config) s actions = some s') :
    ∃ call, s'.calls p = some call ∧ P call :=
  Runs.run_invariant (fun _ _ _ h _ hstep => call_kept hP h hstep) h hrun (Runs.everyStep_true _ _)

/-- A cancelled call stays cancelled. -/
theorem isCancelled_moves {runs : Bool} (h : CallInv config call ∧ call.isCancelled = true)
    (hmoves : Moves config runs call call') :
    CallInv config call' ∧ call'.isCancelled = true := by
  obtain ⟨hinv, hcancelled⟩ := h
  refine ⟨callInv_moves hinv hmoves, ?_⟩
  unfold CallInternal.isCancelled at hcancelled
  cases hmoves with
  | enter pool headers isAsync hnot =>
    have hnone : call.requestExecutor = none := by
      rw [hinv.executed] at hnot
      exact Option.not_isSome_iff_eq_none.mp (by rw [hnot]; exact Bool.false_ne_true)
    rw [hnone] at hcancelled
    have hcancelled : call.cancelled = true := hcancelled
    show (call.newRequestExecutor pool headers).executor.cancelled = true
    unfold CallInternal.newRequestExecutor
    dsimp only
    rw [if_pos hcancelled]
    exact cancelExecutor_cancelled _ _
  | cancel connectionCancelled =>
    unfold CallInternal.cancel
    cases call.requestExecutor with
    | none => rfl
    | some executor => exact cancelExecutor_cancelled _ _
  | execution hexecutor _ hstep =>
    rw [hexecutor] at hcancelled
    exact (ExecutionCancel.keeps_step hstep).cancelled hcancelled

/-- **A call that is cancelled first makes no engine.** Whenever and however it is executed later,
it stays cancelled, makes no engine, and so no lookup and no connection, and ends, if it does, with
the exception of a cancelled call; that is what its callback is told. -/
theorem neverBegun_of_run {more : List Action}
    (hrun : Runs.run (step config) (initial config) actions = some s)
    (hcall : s.calls p = some call) (hcancelled : call.cancelled = true)
    (hnot : call.executed = false)
    (hmore : Runs.run (step config) s more = some s') :
    ∃ call', s'.calls p = some call' ∧ call'.isCancelled = true ∧ NeverBegun call' ∧
      ∀ what ∈ s'.httpExecutionTaskManager.callsOf p,
        what = .onFailure (.execution "http request is cancelled.") := by
  have hinv := inv_of_run (inv_initial config) hrun
  have hcallInv := hinv.calls p call hcall
  have hnone : call.requestExecutor = none := by
    rw [hcallInv.executed] at hnot
    exact Option.not_isSome_iff_eq_none.mp (by rw [hnot]; exact Bool.false_ne_true)
  -- a call that was cancelled before its execution has no executor
  have hbefore : NeverBegun call := by
    refine ⟨hcancelled, fun executor hexecutor => ?_⟩
    rw [hnone] at hexecutor
    cases hexecutor
  have hisCancelled : call.isCancelled = true := by
    unfold CallInternal.isCancelled
    rw [hnone]
    exact hcancelled
  -- what each move keeps is kept to the end of the run
  obtain ⟨call', hcall', hnever⟩ :=
    call_kept_of_run neverBegun_moves ⟨call, hcall, hbefore⟩ hmore
  obtain ⟨call'', hcall'', -, hstill⟩ :=
    call_kept_of_run isCancelled_moves ⟨call, hcall, hcallInv, hisCancelled⟩ hmore
  rw [hcall'] at hcall''
  cases hcall''
  refine ⟨call', hcall', hstill, hnever, fun what hmem => ?_⟩
  have hinv' := inv_of_run hinv hmore
  have hall : Runs.run (step config) (initial config) (actions ++ more) = some s' := by
    rw [Runs.run_append, hrun]
    exact hmore
  -- a callback has been given the result of the executor, which was cancelled before it began
  rcases callsOf_eq (asyncInv_of_run hall) p with hnothing | ⟨result, w, hended, hw, hone⟩
  · rw [hnothing] at hmem
    cases hmem
  · rw [hone] at hmem
    rw [List.mem_singleton.mp hmem]
    obtain ⟨c, executor, hc, hexecutor, hresult⟩ := hinv'.ended p result hended
    rw [hcall'] at hc
    cases hc
    obtain ⟨-, -, hstage | hstage⟩ := hnever.executor executor hexecutor
    · rw [hstage] at hresult
      cases hresult
    · rw [hstage] at hresult
      cases hresult
      cases hw
      rfl

end

/-! ## A client with one call -/

/-- One thread, and a cache. -/
def storedConfig : Config :=
  ⟨Poco.plain, ExecutionCancel.cachingContext, HttpExecutionTaskManager.oneThread⟩

/-- A call is made and executed asynchronously, and its response is in the cache. -/
def storedCall : List Action := [
  .newCall 0 (some ExecutionCancel.storedRequest),
  .executeAsync 0 .application true (ConnectionPoolInternal.create 10 60) ⟨[Headers.empty]⟩,
  .manager (.startLock 0), .manager (.pool (.enter 0 false)), .manager (.pool (.lock 0)),
  .manager (.pool (.attempt 0 .started)), .manager (.startReturned 0), .manager (.pool (.run 0)),
  .execution 0 (.createEngine 1), .execution 0 (.checkCache ExecutionCancel.findsFresh),
  .execution 0 .checkRetry, .execution 0 .publish, .execution 0 .finish, .executed 0,
  .manager (.onComplete 0), .manager (.callback 0)]

/-- Then the client is invalidated. -/
def invalidation : List Action := [
  .manager (.returned 0 none), .manager (.finish 0), .invalidateAndCancel 0 .application,
  .manager (.shutdownLock 0), .cancelTask 0 true, .manager (.joinLock 0),
  .manager (.pool (.returned 0)), .manager (.pool (.getNextTask 0)), .manager (.pool (.leave 0)),
  .manager (.join 0)]

/-- A call that is cancelled before it is executed. -/
def cancelledCall : List Action := [
  .newCall 0 (some ExecutionCancel.storedRequest), .cancel 0 true]

/-- The execution finds it out at once. -/
def cancelledExecution : List Action := [
  .execute 0 (ConnectionPoolInternal.create 10 60) ⟨[Headers.empty]⟩,
  .execution 0 (.createEngine 1)]

theorem execution_of_run_storedCall : ∃ s,
    Runs.run (step storedConfig) (initial storedConfig) storedCall = some s ∧ s.entered 0 ≤ 1 := by
  have hsome : (Runs.run (step storedConfig) (initial storedConfig) storedCall).isSome = true := by
    decide +kernel
  obtain ⟨s, hrun⟩ := Option.isSome_iff_exists.mp hsome
  exact ⟨s, hrun, (execution_of_run hrun 0).1⟩

theorem told_of_run_storedCall : ∃ s call what,
    Runs.run (step storedConfig) (initial storedConfig) storedCall = some s ∧
      s.calls 0 = some call ∧ s.httpExecutionTaskManager.callsOf 0 = [what] ∧
        Told storedConfig call what := by
  have hlength : (Runs.run (step storedConfig) (initial storedConfig) storedCall).map
      (fun s => (s.httpExecutionTaskManager.callsOf 0).length) = some 1 := by decide +kernel
  obtain ⟨s, hrun, hone⟩ := Option.map_eq_some_iff.mp hlength
  obtain ⟨what, hwhat⟩ := List.length_eq_one_iff.mp hone
  obtain ⟨call, hcall, -, htold⟩ :=
    (told_of_run hrun 0).2 what (by rw [hwhat]; exact List.mem_singleton_self what)
  exact ⟨s, call, what, hrun, hcall, hwhat, htold⟩

theorem quiet_of_invalidated_storedCall : ∃ s,
    Runs.run (step storedConfig) (initial storedConfig) (storedCall ++ invalidation) = some s ∧
      (AllEnded s ∧ ∀ more s', Runs.run (step storedConfig) s more = some s' → AllEnded s' ∧
        s'.httpExecutionTaskManager.calls = s.httpExecutionTaskManager.calls ∧
          (s.invalidated = true → ∀ p, s.calls p = none → s'.calls p = none)) := by
  have hreturned : (Runs.run (step storedConfig) (initial storedConfig)
      (storedCall ++ invalidation)).map
        (fun s => decide (s.httpExecutionTaskManager.shutdowns 0 = .returned)) = some true := by
    decide +kernel
  obtain ⟨s, hrun, hdecide⟩ := Option.map_eq_some_iff.mp hreturned
  exact ⟨s, hrun, quiet_of_invalidated hrun (of_decide_eq_true hdecide)⟩

theorem neverBegun_of_run_cancelledCall : ∃ s s' call',
    Runs.run (step storedConfig) (initial storedConfig) cancelledCall = some s ∧
      Runs.run (step storedConfig) s cancelledExecution = some s' ∧
        s'.calls 0 = some call' ∧ NeverBegun call' := by
  obtain ⟨s, hrun, hready⟩ : ∃ s,
      Runs.run (step storedConfig) (initial storedConfig) cancelledCall = some s ∧
        ((s.calls 0).any (fun call => call.cancelled && !call.executed) &&
          (Runs.run (step storedConfig) s cancelledExecution).isSome) = true :=
    Option.map_eq_some_iff.mp (by decide +kernel)
  rw [Bool.and_eq_true] at hready
  obtain ⟨s', hmore⟩ := Option.isSome_iff_exists.mp hready.2
  obtain ⟨call, hcall, hcancelled⟩ := (Option.any_eq_true _ _).mp hready.1
  simp only [Bool.and_eq_true, Bool.not_eq_true'] at hcancelled
  obtain ⟨call', hcall', -, hnever, -⟩ :=
    neverBegun_of_run hrun hcall hcancelled.1 hcancelled.2 hmore
  exact ⟨s, s', call', hrun, hmore, hcall', hnever⟩

end EasyHttp.EasyHttpInternal
