import EasyHttp.Engine.EasyHttpInternal

/-!
# What a client does with its calls

Seen from its manager, a run of the client is a run of the task manager; seen from one call, it is
at most one execution, and that is a run of `ExecutionCancel`. The two meet where a task runs the
executor of its call: the task ends as the executor has ended.

* `Effect`, `effect_of_step`: what an action does;
* `manager_of_step`, `call_of_step`: to the manager, and to a call;
* `CallInv`, `Inv`: what holds of a call, and of the client with its tasks.
-/

namespace EasyHttp.EasyHttpInternal

open AsyncTasks (ExecuteResult Notification notification)
open HttpExecutionTaskManager (Caller StartPoint TaskPoint)

/-! ## What an action does -/

/-- What the manager of the client does. -/
abbrev managerStep (config : Config) := HttpExecutionTaskManager.step config.asyncThreadPool

/-- What the executors of the calls do. -/
abbrev executionStep (config : Config) := ExecutionCancel.step config.poco config.context

/-- The client after an action, and what the manager or an executor has done in it. -/
inductive Effect (config : Config) (s : System) : Action → System → Prop
  | newCall {p : CallPtr} {request : Option Request} {call : CallInternal}
    (hnew : s.calls p = none) (hcall : s.newCall request = .ok call) :
    Effect config s (.newCall p request)
      { s.setCall p call with newCalls := s.newCalls ++ [.ok p] }
  | newCallThrows {p : CallPtr} {request : Option Request} (e : HttpException)
    (hcall : s.newCall request = .error e) :
    Effect config s (.newCall p request) { s with newCalls := s.newCalls ++ [.error e] }
  | execute {p : CallPtr} {pool : ConnectionPoolInternal} {headers : HeaderStore}
    {call call' : CallInternal} (hcall : s.calls p = some call)
    (hentered : call.execute pool headers = .ok call') :
    Effect config s (.execute p pool headers) ((s.setCall p call').enter p (.ok ()))
  | executeAsync {p : CallPtr} {caller : Caller} {hasCallback : Bool}
    {pool : ConnectionPoolInternal} {headers : HeaderStore} {call call' : CallInternal}
    {manager : HttpExecutionTaskManager.System} (hcall : s.calls p = some call)
    (hentered : call.executeAsync hasCallback pool headers = .ok call')
    (hmanager : managerStep config s.httpExecutionTaskManager (.start p caller) = some manager) :
    Effect config s (.executeAsync p caller hasCallback pool headers)
      (((s.setCall p call').enter p (.ok ())).setManager manager)
  | executeThrows {p : CallPtr} {pool : ConnectionPoolInternal} {headers : HeaderStore}
    {call : CallInternal} (e : HttpException) (hcall : s.calls p = some call)
    (hthrown : call.execute pool headers = .error e) :
    Effect config s (.execute p pool headers) (s.enter p (.error e))
  | executeAsyncThrows {p : CallPtr} {caller : Caller} {hasCallback : Bool}
    {pool : ConnectionPoolInternal} {headers : HeaderStore} {call : CallInternal}
    (e : HttpException) (hcall : s.calls p = some call)
    (hthrown : call.executeAsync hasCallback pool headers = .error e) :
    Effect config s (.executeAsync p caller hasCallback pool headers) (s.enter p (.error e))
  | cancel {p : CallPtr} {connectionCancelled : Bool} {call : CallInternal}
    (hcall : s.calls p = some call) :
    Effect config s (.cancel p connectionCancelled)
      (s.setCall p (call.cancel connectionCancelled).2)
  | invalidated {k : ℕ} {caller : Caller} (hinvalidated : s.invalidated = true) :
    Effect config s (.invalidateAndCancel k caller) s
  | invalidateAndCancel {k : ℕ} {caller : Caller} {manager : HttpExecutionTaskManager.System}
    (hmanager : managerStep config s.httpExecutionTaskManager (.shutdown k caller) =
      some manager) :
    Effect config s (.invalidateAndCancel k caller)
      { s.setManager manager with invalidated := true }
  | destroy {k : ℕ} {manager : HttpExecutionTaskManager.System}
    (hmanager : managerStep config s.httpExecutionTaskManager (.shutdown k .application) =
      some manager) :
    Effect config s (.destroy k) (s.setManager manager)
  | execution {p : CallPtr} {action : ExecutionCancel.Action} {call : CallInternal}
    {executor executor' : ExecutionCancel.System} (hcall : s.calls p = some call)
    (hexecutor : call.requestExecutor = some executor)
    (hruns : s.runs p call = true ∨ action.isSection = false)
    (hexecution : executionStep config executor action = some executor') :
    Effect config s (.execution p action)
      (s.setCall p { call with requestExecutor := some executor' })
  | executed {p : CallPtr} {call : CallInternal} {executor : ExecutionCancel.System}
    {result : ExecuteResult} {manager : HttpExecutionTaskManager.System}
    (hcall : s.calls p = some call) (hexecutor : call.requestExecutor = some executor)
    (hresult : resultOf executor.stage = some result)
    (hmanager : managerStep config s.httpExecutionTaskManager (.executed p result) =
      some manager) :
    Effect config s (.executed p) (s.setManager manager)
  | cancelTask {k : ℕ} {connectionCancelled : Bool} {p : CallPtr} {call : CallInternal}
    {executor : ExecutionCancel.System} {manager : HttpExecutionTaskManager.System}
    (hcall : s.calls p = some call) (hexecutor : call.requestExecutor = some executor)
    (hmanager : managerStep config s.httpExecutionTaskManager (.cancel k) = some manager) :
    Effect config s (.cancelTask k connectionCancelled)
      ((s.setCall p { call with
        requestExecutor := some (cancelExecutor executor connectionCancelled).2 }).setManager
          manager)
  | noTask {k : ℕ} {connectionCancelled : Bool} {manager : HttpExecutionTaskManager.System}
    (hmanager : managerStep config s.httpExecutionTaskManager (.cancel k) = some manager) :
    Effect config s (.cancelTask k connectionCancelled) (s.setManager manager)
  | manager {action : HttpExecutionTaskManager.Action} {manager : HttpExecutionTaskManager.System}
    (hinternal : isInternal action = true)
    (hmanager : managerStep config s.httpExecutionTaskManager action = some manager) :
    Effect config s (.manager action) (s.setManager manager)

section
variable {config : Config} {s s' : System} {action : Action} {call call' : CallInternal}
  {executor executor' : ExecutionCancel.System}

/-- What a step does to the calls and the manager. -/
theorem effect_of_step (hstep : step config s action = some s') : Effect config s action s' := by
  -- each action of the source is one constructor, or two where it may throw
  cases action with
  | newCall p request =>
    rw [step] at hstep
    split at hstep <;> cases hstep
    · exact .newCall ‹_› ‹_›
    · exact .newCallThrows _ ‹_›
  | execute p pool headers =>
    cases hcall : s.calls p with
    | none => simp [step, hcall] at hstep
    | some call =>
      simp only [step, hcall] at hstep
      split at hstep <;> cases hstep
      · exact .execute hcall ‹_›
      · exact .executeThrows _ hcall ‹_›
  | executeAsync p caller hasCallback pool headers =>
    cases hcall : s.calls p with
    | none => simp [step, hcall] at hstep
    | some call =>
      simp only [step, hcall] at hstep
      -- the manager is told of the call, unless `executeAsync` throws before that
      split at hstep
      · obtain ⟨manager, hmanager, rfl⟩ := Option.map_eq_some_iff.mp hstep
        exact .executeAsync hcall ‹_› hmanager
      · cases hstep
        exact .executeAsyncThrows _ hcall ‹_›
  | cancel p connectionCancelled =>
    rw [step] at hstep
    obtain ⟨call, hcall, rfl⟩ := Option.map_eq_some_iff.mp hstep
    exact .cancel hcall
  | invalidateAndCancel k caller =>
    rw [step] at hstep
    split at hstep
    · cases hstep
      exact .invalidated ‹_›
    · obtain ⟨manager, hmanager, rfl⟩ := Option.map_eq_some_iff.mp hstep
      exact .invalidateAndCancel hmanager
  | destroy k =>
    rw [step] at hstep
    obtain ⟨manager, hmanager, rfl⟩ := Option.map_eq_some_iff.mp hstep
    exact .destroy hmanager
  | execution p action =>
    rw [step] at hstep
    split at hstep
    · rename_i call hcall _
      split at hstep
      -- a section that no other thread runs
      · rename_i executor hexecutor hruns
        obtain ⟨executor', hexecution, rfl⟩ := Option.map_eq_some_iff.mp hstep
        refine .execution hcall hexecutor ?_ hexecution
        simpa using hruns
      · cases hstep
    · cases hstep
  | executed p =>
    rw [step] at hstep
    split at hstep
    · rename_i executor hexecutor
      obtain ⟨call, hcall, hexecutor⟩ := Option.bind_eq_some_iff.mp hexecutor
      split at hstep
      · obtain ⟨manager, hmanager, rfl⟩ := Option.map_eq_some_iff.mp hstep
        exact .executed hcall hexecutor ‹_› hmanager
      · cases hstep
    · cases hstep
  | cancelTask k connectionCancelled =>
    rw [step] at hstep
    obtain ⟨manager, hmanager, rfl⟩ := Option.map_eq_some_iff.mp hstep
    -- `Call::cancel` of the next task, where there is one
    split
    · unfold System.cancelTask
      split
      · split
        · exact .cancelTask ‹_› ‹_› hmanager
        · exact .noTask hmanager
      · exact .noTask hmanager
    · exact .noTask hmanager
  | manager action =>
    rw [step] at hstep
    split at hstep
    · obtain ⟨manager, hmanager, rfl⟩ := Option.map_eq_some_iff.mp hstep
      exact .manager ‹_› hmanager
    · cases hstep

/-- What the client has to do with an action of its manager. -/
structure Managed (config : Config) (s s' : System) (a : HttpExecutionTaskManager.Action) :
    Prop where
  step : managerStep config s.httpExecutionTaskManager a = some s'.httpExecutionTaskManager
  start : ∀ p caller, a = .start p caller → ∃ call, s'.calls p = some call ∧ call.isAsync = true
  executed : ∀ p result, a = .executed p result → ∃ call executor, s.calls p = some call ∧
    call.requestExecutor = some executor ∧ resultOf executor.stage = some result

/-- The manager takes an action of its own, or none. -/
theorem manager_of_step (hstep : step config s action = some s') :
    s'.httpExecutionTaskManager = s.httpExecutionTaskManager ∨ ∃ a, Managed config s s' a := by
  -- neither `start` nor `executed`: nothing is asked of the calls
  have hother {a : HttpExecutionTaskManager.Action}
      (hmanager : managerStep config s.httpExecutionTaskManager a =
        some s'.httpExecutionTaskManager) (hstart : ∀ p caller, a ≠ .start p caller)
      (hexecuted : ∀ p result, a ≠ .executed p result) : Managed config s s' a :=
    ⟨hmanager, fun p caller h => absurd h (hstart p caller),
      fun p result h => absurd h (hexecuted p result)⟩
  cases effect_of_step hstep with
  | @executeAsync p caller hasCallback pool headers call call' manager hcall hentered hmanager =>
    refine .inr ⟨.start p caller, hmanager, fun q _ heq => ?_, (fun _ _ h => by cases h)⟩
    -- the call is asynchronous from now on
    cases heq
    refine ⟨call', Function.update_self .., ?_⟩
    unfold CallInternal.executeAsync at hentered
    split at hentered
    · cases hentered
    · split at hentered <;> cases hentered
      rfl
  | invalidateAndCancel hmanager =>
    exact .inr ⟨_, hother hmanager (fun _ _ h => by cases h) fun _ _ h => by cases h⟩
  | destroy hmanager =>
    exact .inr ⟨_, hother hmanager (fun _ _ h => by cases h) fun _ _ h => by cases h⟩
  | @executed p call executor result manager hcall hexecutor hresult hmanager =>
    refine .inr ⟨.executed p result, hmanager, (fun _ _ h => by cases h), fun q _ heq => ?_⟩
    cases heq
    exact ⟨call, executor, hcall, hexecutor, hresult⟩
  | cancelTask _ _ hmanager =>
    exact .inr ⟨_, hother hmanager (fun _ _ h => by cases h) fun _ _ h => by cases h⟩
  | noTask hmanager =>
    exact .inr ⟨_, hother hmanager (fun _ _ h => by cases h) fun _ _ h => by cases h⟩
  | @manager a manager hinternal hmanager =>
    -- the manager's own steps start nothing and execute nothing
    refine .inr ⟨a, hother hmanager (fun p caller h => ?_) fun p result h => ?_⟩
    · subst h
      cases hinternal
    · subst h
      cases hinternal
  | _ => exact .inl rfl

/-- What an action does to a call, whose thread can take a section or not. -/
inductive Moves (config : Config) (runs : Bool) (call : CallInternal) : CallInternal → Prop
  /-- `execute` or `executeAsync` makes the executor. -/
  | enter (pool : ConnectionPoolInternal) (headers : HeaderStore) (isAsync : Bool)
    (h : call.executed = false) :
    Moves config runs call { call with
      executed := true, requestExecutor := some (call.newRequestExecutor pool headers),
      isAsync := isAsync }
  | cancel (connectionCancelled : Bool) :
    Moves config runs call (call.cancel connectionCancelled).2
  /-- The executor takes an action. -/
  | execution {executor executor' : ExecutionCancel.System} {action : ExecutionCancel.Action}
    (h : call.requestExecutor = some executor) (hruns : runs = true ∨ action.isSection = false)
    (hstep : executionStep config executor action = some executor') :
    Moves config runs call { call with requestExecutor := some executor' }

/-- `execute` moves the call into an execution. -/
theorem moves_of_execute {runs : Bool} {pool : ConnectionPoolInternal} {headers : HeaderStore}
    (h : call.execute pool headers = .ok call') : Moves config runs call call' := by
  unfold CallInternal.execute at h
  split at h <;> cases h
  exact .enter pool headers call.isAsync (Bool.not_eq_true _ ▸ ‹_›)

/-- `executeAsync` moves the call to the manager. -/
theorem moves_of_executeAsync {runs hasCallback : Bool} {pool : ConnectionPoolInternal}
    {headers : HeaderStore} (h : call.executeAsync hasCallback pool headers = .ok call') :
    Moves config runs call call' := by
  unfold CallInternal.executeAsync at h
  split at h
  · cases h
  · split at h <;> cases h
    exact .enter pool headers true (Bool.not_eq_true _ ▸ ‹_›)

/-- One call moves, and the others are left as they were. -/
theorem call_of_update {p : CallPtr} (hcall : s.calls p = some call)
    (hmoves : Moves config (s.runs p call) call call')
    (hcalls : s'.calls = Function.update s.calls p (some call')) (q : CallPtr) :
    s'.calls q = s.calls q ∨ ∃ before after, s.calls q = some before ∧ s'.calls q = some after ∧
      Moves config (s.runs q before) before after := by
  rw [hcalls]
  by_cases hq : q = p
  · subst hq
    exact .inr ⟨call, call', hcall, Function.update_self .., hmoves⟩
  · exact .inl (Function.update_of_ne hq ..)

/-- A call is made, or moves, or is left as it was. -/
theorem call_of_step (hstep : step config s action = some s') (p : CallPtr) :
    (s'.calls p = s.calls p ∨ ∃ before after, s.calls p = some before ∧
      s'.calls p = some after ∧ Moves config (s.runs p before) before after) ∨
        s.calls p = none ∧ ∃ request, s'.calls p = some { userRequest := request } := by
  cases effect_of_step hstep with
  | @newCall q request call hnew hcall =>
    by_cases hp : p = q
    · subst hp
      right
      unfold System.newCall at hcall
      split at hcall
      · cases hcall
      · split at hcall <;> cases hcall
        exact ⟨hnew, _, Function.update_self ..⟩
    · exact .inl (.inl (Function.update_of_ne hp ..))
  | execute hcall hentered =>
    exact .inl (call_of_update hcall (moves_of_execute hentered) rfl p)
  | executeAsync hcall hentered _ =>
    exact .inl (call_of_update hcall (moves_of_executeAsync hentered) rfl p)
  | cancel hcall => exact .inl (call_of_update hcall (.cancel _) rfl p)
  | execution hcall hexecutor hruns hexecution =>
    exact .inl (call_of_update hcall (.execution hexecutor hruns hexecution) rfl p)
  | @cancelTask _ connectionCancelled _ _ executor _ hcall hexecutor _ =>
    have hcancel : executionStep config executor (.cancel connectionCancelled) =
        some (cancelExecutor executor connectionCancelled).2 := rfl
    exact .inl (call_of_update hcall (.execution hexecutor (.inr rfl) hcancel) rfl p)
  | _ => exact .inl (.inl rfl)

/-! ## One call -/

/-- A new executor has run nothing, or one cancel. -/
theorem newRequestExecutor_run (config : Config) (call : CallInternal)
    (pool : ConnectionPoolInternal) (headers : HeaderStore) :
    ∃ actions, Runs.run (executionStep config)
      (ExecutionCancel.System.init call.userRequest pool headers) actions =
        some (call.newRequestExecutor pool headers) := by
  unfold CallInternal.newRequestExecutor
  dsimp only
  split
  · exact ⟨[.cancel true], rfl⟩
  · exact ⟨[], rfl⟩

/-- An executor that is cancelled is so. -/
theorem cancelExecutor_cancelled (executor : ExecutionCancel.System) (connectionCancelled : Bool) :
    (cancelExecutor executor connectionCancelled).2.executor.cancelled = true := by
  obtain ⟨httpEngine, pool, heq, -⟩ :=
    ExecutionCancel.cancel_eq (ExecutionCancel.record executor) connectionCancelled
  unfold cancelExecutor
  rw [heq]

/-- The executor of a call, as `execute` or `executeAsync` made it and as it has gone on since. -/
structure CallInv (config : Config) (call : CallInternal) : Prop where
  executed : call.executed = call.requestExecutor.isSome
  isAsync : call.isAsync = true → call.executed = true
  cancelled : call.cancelled = true → ∀ executor, call.requestExecutor = some executor →
    executor.executor.cancelled = true
  run : ∀ executor, call.requestExecutor = some executor → ∃ pool headers actions,
    Runs.run (executionStep config) (ExecutionCancel.System.init call.userRequest pool headers)
      actions = some executor

/-- A new call has no executor. -/
theorem callInv_new (config : Config) (request : Request) :
    CallInv config { userRequest := request } where
  executed := rfl
  isAsync h := by cases h
  cancelled h := by cases h
  run executor h := by cases h

namespace CallInv

/-- A call with an executor has been executed. -/
theorem executed_of_some (h : CallInv config call)
    (hexecutor : call.requestExecutor = some executor) : call.executed = true := by
  rw [h.executed, hexecutor]
  rfl

/-- The executor takes an action. -/
theorem execution (h : CallInv config call) (hexecutor : call.requestExecutor = some executor)
    {action : ExecutionCancel.Action}
    (hstep : executionStep config executor action = some executor') :
    CallInv config { call with requestExecutor := some executor' } where
  executed := by
    rw [h.executed, hexecutor]
    rfl
  isAsync := h.isAsync
  cancelled hcancelled := by
    rintro e ⟨⟩
    exact (ExecutionCancel.keeps_step hstep).cancelled (h.cancelled hcancelled executor hexecutor)
  run := by
    rintro e ⟨⟩
    obtain ⟨pool, headers, actions, hrun⟩ := h.run executor hexecutor
    refine ⟨pool, headers, actions ++ [action], ?_⟩
    rw [Runs.run_append, hrun]
    exact Runs.run_cons_some hstep rfl

end CallInv

/-- A call keeps its invariant in each move. -/
theorem callInv_moves {runs : Bool} (h : CallInv config call)
    (hmoves : Moves config runs call call') :
    CallInv config call' := by
  cases hmoves with
  | enter pool headers isAsync hnot =>
    refine ⟨rfl, fun _ => rfl, ?_, ?_⟩
    · rintro hcancelled executor ⟨⟩
      have hcancelled : call.cancelled = true := hcancelled
      unfold CallInternal.newRequestExecutor
      dsimp only
      rw [if_pos hcancelled]
      exact cancelExecutor_cancelled _ _
    · rintro executor ⟨⟩
      obtain ⟨actions, hrun⟩ := newRequestExecutor_run config call pool headers
      exact ⟨pool, headers, actions, hrun⟩
  | cancel connectionCancelled =>
    unfold CallInternal.cancel
    cases hexecutor : call.requestExecutor with
    | none =>
      refine ⟨?_, h.isAsync, fun _ executor hsome => ?_, fun executor hsome => ?_⟩
      · rw [h.executed, hexecutor]
      · cases hsome
      · cases hsome
    | some executor =>
      have hcancel : executionStep config executor (.cancel connectionCancelled) =
          some (cancelExecutor executor connectionCancelled).2 := rfl
      have hmoved := h.execution hexecutor hcancel
      refine ⟨hmoved.executed, hmoved.isAsync, ?_, hmoved.run⟩
      rintro - e ⟨⟩
      exact cancelExecutor_cancelled _ _
  | execution hexecutor _ hstep => exact h.execution hexecutor hstep

/-- A call is for the request it was made for. -/
theorem Moves.userRequest {runs : Bool} (h : Moves config runs call call') :
    call'.userRequest = call.userRequest := by
  cases h with
  | enter | execution => rfl
  | cancel connectionCancelled =>
    unfold CallInternal.cancel
    split <;> rfl

/-- An executed call stays executed, in the way it was. -/
theorem Moves.isAsync {runs : Bool} (h : Moves config runs call call')
    (hexecuted : call.executed = true) :
    call'.isAsync = call.isAsync ∧ call'.executed = true := by
  cases h with
  | enter pool headers isAsync hnot =>
    rw [hexecuted] at hnot
    cases hnot
  | execution => exact ⟨rfl, hexecuted⟩
  | cancel connectionCancelled =>
    unfold CallInternal.cancel
    split <;> exact ⟨rfl, hexecuted⟩

/-- At its end an executor takes no section. -/
theorem isSection_of_isEnd {action : ExecutionCancel.Action}
    (hstep : executionStep config executor action = some executor')
    (hend : executor.stage.isEnd = true) : action.isSection = false := by
  have hover : (∃ response, executor.stage = .returned response) ∨
      ∃ e, executor.stage = .thrown e := by
    cases hstage : executor.stage with
    | returned response => exact .inl ⟨response, rfl⟩
    | thrown e => exact .inr ⟨e, rfl⟩
    | _ => rw [hstage] at hend; cases hend
  rcases hover with ⟨response, hstage⟩ | ⟨e, hstage⟩
  · cases action with
    | cancel _ | onIdle _ | others _ => rfl
    | _ => simp [executionStep, ExecutionCancel.step, hstage] at hstep
  · cases action with
    | cancel _ | onIdle _ | others _ => rfl
    | _ => simp [executionStep, ExecutionCancel.step, hstage] at hstep

/-- What an executor ends with is final. -/
theorem resultOf_step {action : ExecutionCancel.Action} {result : ExecuteResult}
    (hstep : executionStep config executor action = some executor')
    (h : resultOf executor.stage = some result) : resultOf executor'.stage = some result := by
  have hend : executor.stage.isEnd = true := by
    cases hstage : executor.stage with
    | returned _ | thrown _ => rfl
    | _ => rw [hstage] at h; cases h
  have hplace := ExecutionCancel.place_of_step (isSection_of_isEnd hstep hend) hstep
  have hstage : executor'.stage = executor.stage := congrArg ExecutionCancel.Place.stage hplace
  rw [hstage, h]

/-! ## The tasks of the manager -/

/-- How `execute` of the task has ended. -/
def endOf : TaskPoint → Option ExecuteResult
  | .notRun | .execute => none
  | .onComplete result _ | .callback result _ | .called result _ | .leaving result _
  | .finished result _ => some result

/-- After `execute` the end of the task is its result. -/
theorem endOf_afterExecute (result : ExecuteResult) :
    endOf (HttpExecutionTaskManager.afterExecute result) = some result := by
  unfold HttpExecutionTaskManager.afterExecute
  split <;> rfl

end

section
variable {pool : QueuedThreadPool.Config} {m m' : HttpExecutionTaskManager.System}
  {a : HttpExecutionTaskManager.Action}

/-- A task that moves has been run; how it has ended, once it has, comes from `executed`. -/
structure TaskMoves (a : HttpExecutionTaskManager.Action) (p : CallPtr) (point point' : TaskPoint) :
    Prop where
  isNotRun : point'.isNotRun = false
  endOf_eq : endOf point' = endOf point ∨ ∃ result, a = .executed p result ∧
    endOf point' = some result

/-- One task moves at most. -/
theorem tasks_of_step (hm : HttpExecutionTaskManager.Inv m)
    (hstep : HttpExecutionTaskManager.step pool m a = some m') :
    m'.tasks = m.tasks ∨ ∃ p point, m'.tasks = Function.update m.tasks p point ∧
      TaskMoves a p (m.tasks p) point := by
  open HttpExecutionTaskManager in
  cases a with
  | pool action =>
    obtain ⟨-, q, -, rfl⟩ := step_pool hstep
    cases action with
    | run i =>
      unfold System.afterPool
      dsimp only
      split
      -- the pool begins a task that was not run
      · rename_i task hgiven
        have hnotRun := given_notRun pool hm.pool.pool hm.task hgiven
        refine .inr ⟨task, .execute, rfl, rfl, .inl ?_⟩
        cases hpoint : m.tasks task with
        | notRun => rfl
        | _ => simp [hpoint, TaskPoint.isNotRun] at hnotRun
      · exact .inl rfl
    | _ => exact .inl rfl
  | executed task result =>
    obtain ⟨-, -, rfl⟩ := step_executed hstep
    exact .inr ⟨task, _, rfl, afterExecute_isNotRun result, .inr ⟨result, rfl,
      endOf_afterExecute result⟩⟩
  | onComplete task =>
    obtain ⟨result, what, hpoint, -, rfl⟩ := step_onComplete hstep
    exact .inr ⟨task, _, rfl, rfl, .inl (by rw [hpoint]; rfl)⟩
  | callback task =>
    obtain ⟨result, what, hpoint, rfl⟩ := step_callback hstep
    exact .inr ⟨task, _, rfl, rfl, .inl (by rw [hpoint]; rfl)⟩
  | returned task thrown =>
    obtain ⟨result, what, hpoint, -, rfl⟩ := step_returned hstep
    exact .inr ⟨task, _, rfl, rfl, .inl (by rw [hpoint]; rfl)⟩
  | finish task =>
    obtain ⟨result, thrown, hpoint, rfl⟩ := step_finish hstep
    exact .inr ⟨task, _, rfl, rfl, .inl (by rw [hpoint]; rfl)⟩
  -- calls of `start` and of `gracefulShutdown` leave the tasks alone
  | start task caller =>
    obtain ⟨-, -, rfl⟩ := step_start hstep
    exact .inl rfl
  | startLock task =>
    obtain ⟨caller, -, -, ⟨e, -, rfl⟩ | ⟨-, -, rfl⟩⟩ := step_startLock hstep
    · exact .inl rfl
    · exact .inl rfl
  | startReturned task =>
    obtain ⟨caller, -, ⟨-, rfl⟩ | ⟨e, -, rfl⟩⟩ := step_startReturned hstep
    · exact .inl rfl
    · exact .inl rfl
  | startCaught task =>
    obtain ⟨caller, e, -, -, rfl⟩ := step_startCaught hstep
    exact .inl rfl
  | shutdown k caller =>
    obtain ⟨-, -, rfl⟩ := step_shutdown hstep
    exact .inl rfl
  | shutdownLock k =>
    obtain ⟨caller, -, -, ⟨-, rfl⟩ | ⟨-, rfl⟩⟩ := step_shutdownLock hstep
    · exact .inl rfl
    · exact .inl rfl
  | cancel k =>
    obtain ⟨caller, copy, rest, -, ⟨task, tasks, -, rfl⟩ | ⟨-, rfl⟩⟩ := step_cancel hstep
    · exact .inl rfl
    · exact .inl rfl
  | get k =>
    obtain ⟨caller, task, rest, -, -, rfl⟩ := step_get hstep
    exact .inl rfl
  | joinLock k =>
    obtain ⟨caller, -, -, rfl⟩ := step_joinLock hstep
    exact .inl rfl
  | join k =>
    obtain ⟨caller, -, -, rfl⟩ := step_join hstep
    exact .inl rfl

/-- A task gets into the manager by `start`. -/
theorem outside_of_step (hstep : HttpExecutionTaskManager.step pool m a = some m') (p : CallPtr)
    (h : m.starts p = .outside) : m'.starts p = .outside ∨ ∃ caller, a = .start p caller := by
  open HttpExecutionTaskManager in
  -- a `start` that goes on was not outside
  have hmoved {task : TaskPtr} {point : StartPoint} (hin : m.starts task ≠ .outside) :
      Function.update m.starts task point p = .outside := by
    rw [Function.update_of_ne, h]
    rintro rfl
    exact hin h
  cases a with
  | start task caller =>
    obtain ⟨-, -, rfl⟩ := step_start hstep
    -- only `start` brings a task in
    by_cases hp : p = task
    · exact .inr ⟨caller, by rw [hp]⟩
    · exact .inl ((Function.update_of_ne hp ..).trans h)
  | startLock task =>
    obtain ⟨caller, hpoint, -, ⟨e, -, rfl⟩ | ⟨-, -, rfl⟩⟩ := step_startLock hstep
    · exact .inl (hmoved (by simp [hpoint]))
    · exact .inl (hmoved (by simp [hpoint]))
  | startReturned task =>
    obtain ⟨caller, hpoint, ⟨-, rfl⟩ | ⟨e, -, rfl⟩⟩ := step_startReturned hstep
    · exact .inl (hmoved (by simp [hpoint]))
    · exact .inl (hmoved (by simp [hpoint]))
  | startCaught task =>
    obtain ⟨caller, e, hpoint, -, rfl⟩ := step_startCaught hstep
    exact .inl (hmoved (by simp [hpoint]))
  | pool action =>
    obtain ⟨-, q, -, rfl⟩ := step_pool hstep
    obtain ⟨tasks, heq⟩ := m.afterPool_eq q action
    rw [heq]
    exact .inl h
  | executed task result =>
    obtain ⟨-, -, rfl⟩ := step_executed hstep
    exact .inl h
  | onComplete task =>
    obtain ⟨result, what, -, -, rfl⟩ := step_onComplete hstep
    exact .inl h
  | callback task =>
    obtain ⟨result, what, -, rfl⟩ := step_callback hstep
    exact .inl h
  | returned task thrown =>
    obtain ⟨result, what, -, -, rfl⟩ := step_returned hstep
    exact .inl h
  | finish task =>
    obtain ⟨result, thrown, -, rfl⟩ := step_finish hstep
    exact .inl h
  | shutdown k caller =>
    obtain ⟨-, -, rfl⟩ := step_shutdown hstep
    exact .inl h
  | shutdownLock k =>
    obtain ⟨caller, -, -, ⟨-, rfl⟩ | ⟨-, rfl⟩⟩ := step_shutdownLock hstep
    · exact .inl h
    · exact .inl h
  | cancel k =>
    obtain ⟨caller, copy, rest, -, ⟨task, tasks, -, rfl⟩ | ⟨-, rfl⟩⟩ := step_cancel hstep
    · exact .inl h
    · exact .inl h
  | get k =>
    obtain ⟨caller, task, rest, -, -, rfl⟩ := step_get hstep
    exact .inl h
  | joinLock k =>
    obtain ⟨caller, -, -, rfl⟩ := step_joinLock hstep
    exact .inl h
  | join k =>
    obtain ⟨caller, -, -, rfl⟩ := step_join hstep
    exact .inl h

end

/-! ## The client with its tasks -/

/-- What holds in each state of a run. -/
structure Inv (config : Config) (s : System) : Prop where
  manager : HttpExecutionTaskManager.Inv s.httpExecutionTaskManager
  calls : ∀ p call, s.calls p = some call → CallInv config call
  /-- Only an asynchronous call has a task. -/
  outside : ∀ p, (∀ call, s.calls p = some call → call.isAsync = false) →
    s.httpExecutionTaskManager.starts p = .outside
  /-- A task ends as the executor of its call has ended. -/
  ended : ∀ p result, endOf (s.httpExecutionTaskManager.tasks p) = some result →
    ∃ call executor, s.calls p = some call ∧ call.requestExecutor = some executor ∧
      resultOf executor.stage = some result
  /-- The executor of a task that is not run has not begun. -/
  waits : ∀ p call executor, s.calls p = some call → call.isAsync = true →
    (s.httpExecutionTaskManager.tasks p).isNotRun = true →
    call.requestExecutor = some executor → executor.place = ⟨0, .creating call.userRequest⟩

theorem inv_initial (config : Config) : Inv config (initial config) where
  manager := HttpExecutionTaskManager.inv_initial _
  calls p call h := by cases h
  outside _ _ := rfl
  ended p result h := by cases h
  waits p call executor h := by cases h

section
variable {config : Config} {s s' : System} {action : Action} {call call' : CallInternal}
  {executor executor' : ExecutionCancel.System} {p : CallPtr} {result : ExecuteResult}

/-- Where a new executor stands. -/
theorem newRequestExecutor_place (call : CallInternal) (pool : ConnectionPoolInternal)
    (headers : HeaderStore) :
    (call.newRequestExecutor pool headers).place = ⟨0, .creating call.userRequest⟩ := by
  unfold CallInternal.newRequestExecutor
  dsimp only
  split
  · have hcancel : ExecutionCancel.step Poco.plain ExecutionCancel.cachingContext
        (ExecutionCancel.System.init call.userRequest pool headers) (.cancel true) =
          some (cancelExecutor (ExecutionCancel.System.init call.userRequest pool headers)
            true).2 := rfl
    rw [ExecutionCancel.place_of_step rfl hcancel]
    rfl
  · rfl

/-- What the executor of a call has ended with stays. -/
theorem resultOf_moves {runs : Bool} (h : CallInv config call)
    (hexecutor : call.requestExecutor = some executor)
    (hresult : resultOf executor.stage = some result)
    (hmoves : Moves config runs call call') : ∃ executor', call'.requestExecutor = some executor' ∧
      resultOf executor'.stage = some result := by
  cases hmoves with
  | enter pool headers isAsync hnot =>
    rw [h.executed, hexecutor] at hnot
    cases hnot
  | cancel connectionCancelled =>
    have hcancel : executionStep config executor (.cancel connectionCancelled) =
        some (cancelExecutor executor connectionCancelled).2 := rfl
    unfold CallInternal.cancel
    rw [hexecutor]
    exact ⟨_, rfl, resultOf_step hcancel hresult⟩
  | execution hexecutor' _ hstep =>
    rw [hexecutor] at hexecutor'
    cases hexecutor'
    exact ⟨_, rfl, resultOf_step hstep hresult⟩

/-- What has ended has ended after each step. -/
theorem ended_of_step (h : Inv config s) (hstep : step config s action = some s')
    (hcall : s.calls p = some call) (hexecutor : call.requestExecutor = some executor)
    (hresult : resultOf executor.stage = some result) :
    ∃ call executor, s'.calls p = some call ∧ call.requestExecutor = some executor ∧
      resultOf executor.stage = some result := by
  rcases call_of_step hstep p with (hsame | ⟨before, after, hbefore, hafter, hmoves⟩) | ⟨hnone, -⟩
  · exact ⟨call, executor, hsame.trans hcall, hexecutor, hresult⟩
  · rw [hcall] at hbefore
    cases hbefore
    obtain ⟨executor', hexecutor', hresult'⟩ :=
      resultOf_moves (h.calls p call hcall) hexecutor hresult hmoves
    exact ⟨after, executor', hafter, hexecutor', hresult'⟩
  · rw [hcall] at hnone
    cases hnone

/-- The executor of a task that is not run moves only as other threads let it. -/
theorem place_of_moves {runs : Bool} (h : CallInv config call)
    (hruns : call.executed = true → runs = false)
    (hplace : ∀ executor, call.requestExecutor = some executor →
      executor.place = ⟨0, .creating call.userRequest⟩)
    (hmoves : Moves config runs call call')
    (hexecutor : call'.requestExecutor = some executor) :
    executor.place = ⟨0, .creating call'.userRequest⟩ := by
  rw [hmoves.userRequest]
  cases hmoves with
  | enter pool headers isAsync hnot =>
    cases hexecutor
    exact newRequestExecutor_place call pool headers
  | cancel connectionCancelled =>
    unfold CallInternal.cancel at hexecutor
    cases hbefore : call.requestExecutor with
    | none =>
      rw [hbefore] at hexecutor
      cases hexecutor
    | some executor =>
      rw [hbefore] at hexecutor
      have hcancel : executionStep config executor (.cancel connectionCancelled) =
          some (cancelExecutor executor connectionCancelled).2 := rfl
      have heq : (cancelExecutor executor connectionCancelled).2 = _ := Option.some.inj hexecutor
      rw [← heq, ExecutionCancel.place_of_step rfl hcancel, hplace executor hbefore]
  | execution hbefore hmay hstep =>
    cases hexecutor
    rcases hmay with hmay | hsection
    · rw [hruns (h.executed_of_some hbefore)] at hmay
      cases hmay
    · rw [ExecutionCancel.place_of_step hsection hstep, hplace _ hbefore]

/-- A call that is asynchronous stays so. -/
theorem isAsync_of_step (h : Inv config s) (hstep : step config s action = some s')
    (hcall : s.calls p = some call) (hasync : call.isAsync = true) :
    ∃ call, s'.calls p = some call ∧ call.isAsync = true := by
  rcases call_of_step hstep p with (hsame | ⟨before, after, hbefore, hafter, hmoves⟩) | ⟨hnone, -⟩
  · exact ⟨call, hsame.trans hcall, hasync⟩
  · rw [hcall] at hbefore
    cases hbefore
    have hexecuted := (h.calls p call hcall).isAsync hasync
    exact ⟨after, hafter, (hmoves.isAsync hexecuted).1.trans hasync⟩
  · rw [hcall] at hnone
    cases hnone

/-- What an action leaves of the tasks of the manager. -/
theorem tasks_of_managed {a : HttpExecutionTaskManager.Action} (h : Inv config s)
    (hmanaged : Managed config s s' a) (p : CallPtr) :
    s'.httpExecutionTaskManager.tasks p = s.httpExecutionTaskManager.tasks p ∨
      TaskMoves a p (s.httpExecutionTaskManager.tasks p)
        (s'.httpExecutionTaskManager.tasks p) := by
  rcases tasks_of_step h.manager hmanaged.step with hsame | ⟨q, point, htasks, hmoves⟩
  · exact .inl (congrFun hsame p)
  · rw [htasks]
    by_cases hp : p = q
    · subst hp
      right
      rw [Function.update_self]
      exact hmoves
    · exact .inl (Function.update_of_ne hp ..)

/-- A call that the manager has not begun does not run. -/
theorem runs_eq_false (hasync : call.isAsync = true)
    (hnotRun : (s.httpExecutionTaskManager.tasks p).isNotRun = true) : s.runs p call = false := by
  unfold System.runs
  rw [hasync]
  cases hpoint : s.httpExecutionTaskManager.tasks p with
  | notRun => rfl
  | _ => simp [hpoint, TaskPoint.isNotRun] at hnotRun

theorem inv_step (h : Inv config s) (hstep : step config s action = some s') : Inv config s' := by
  have hmanager := manager_of_step hstep
  refine ⟨?_, fun p call hcall => ?_, fun p hnot => ?_, fun p result hended => ?_,
    fun p call executor hcall hasync hnotRun hexecutor => ?_⟩
  · rcases hmanager with hsame | ⟨a, hmanaged⟩
    · rw [hsame]
      exact h.manager
    · exact HttpExecutionTaskManager.inv_step a h.manager hmanaged.step
  -- each call has taken a move or none
  · rcases call_of_step hstep p with
      (hsame | ⟨before, after, hbefore, hafter, hmoves⟩) | ⟨-, request, hnew⟩
    · exact h.calls p call (hsame.symm.trans hcall)
    · rw [hcall] at hafter
      cases hafter
      exact callInv_moves (h.calls p before hbefore) hmoves
    · rw [hcall] at hnew
      cases hnew
      exact callInv_new config request
  · -- a call that is not asynchronous now was not before
    have hbefore : s.httpExecutionTaskManager.starts p = .outside := by
      refine h.outside p fun call hcall => ?_
      by_contra hasync
      rw [Bool.not_eq_false] at hasync
      obtain ⟨call', hcall', hasync'⟩ := isAsync_of_step h hstep hcall hasync
      rw [hnot call' hcall'] at hasync'
      cases hasync'
    rcases hmanager with hsame | ⟨a, hmanaged⟩
    · rw [hsame, hbefore]
    · refine (outside_of_step hmanaged.step p hbefore).resolve_right ?_
      rintro ⟨caller, rfl⟩
      obtain ⟨call, hcall, hasync⟩ := hmanaged.start p caller rfl
      rw [hnot call hcall] at hasync
      cases hasync
  -- a task that has ended has the result of its executor
  · have hthere : ∃ call executor, s.calls p = some call ∧ call.requestExecutor = some executor ∧
        resultOf executor.stage = some result := by
      rcases hmanager with hsame | ⟨a, hmanaged⟩
      · rw [hsame] at hended
        exact h.ended p result hended
      -- the task has ended now, or it had ended before
      · rcases tasks_of_managed h hmanaged p with hsame | hmoves
        · rw [hsame] at hended
          exact h.ended p result hended
        · rcases hmoves.endOf_eq with hkept | ⟨result', rfl, hresult⟩
          · rw [hkept] at hended
            exact h.ended p result hended
          · rw [hresult] at hended
            cases hended
            exact hmanaged.executed p result rfl
    obtain ⟨call, executor, hcall, hexecutor, hresult⟩ := hthere
    exact ended_of_step h hstep hcall hexecutor hresult
  -- a task that is not run now was not run before
  · have hbefore : (s.httpExecutionTaskManager.tasks p).isNotRun = true := by
      rcases hmanager with hsame | ⟨a, hmanaged⟩
      · rwa [hsame] at hnotRun
      · rcases tasks_of_managed h hmanaged p with hsame | hmoves
        · rwa [hsame] at hnotRun
        · rw [hmoves.isNotRun] at hnotRun
          cases hnotRun
    rcases call_of_step hstep p with
      (hsame | ⟨before, after, hthere, hafter, hmoves⟩) | ⟨-, request, hnew⟩
    · exact h.waits p call executor (hsame.symm.trans hcall) hasync hbefore hexecutor
    · rw [hcall] at hafter
      cases hafter
      -- what `executeAsync` has let in waits for the manager
      have hwas (hexecuted : before.executed = true) : before.isAsync = true :=
        (hmoves.isAsync hexecuted).1.symm.trans hasync
      have hinv := h.calls p before hthere
      exact place_of_moves hinv (fun hexecuted => runs_eq_false (hwas hexecuted) hbefore)
        (fun e he => h.waits p before e hthere (hwas (hinv.executed_of_some he)) hbefore he) hmoves
        hexecutor
    · rw [hcall] at hnew
      cases hnew
      cases hexecutor

end

end EasyHttp.EasyHttpInternal
