import EasyHttp.Engine.ClientRuns

/-!
# When `invalidateAndCancel` can return

It waits for the executions of its tasks, and these come to an end: their threads are never stuck,
and have a bounded number of sections left. So nothing else can keep it than what keeps the
`gracefulShutdown` of the manager, for which the end of an execution is given.

* `finishes`: the executions that run can be brought to their end;
* `client_canReturn_iff`: when `invalidateAndCancel` can return.
-/

namespace EasyHttp.EasyHttpInternal

open AsyncTasks (ExecuteResult)
open HttpExecutionTaskManager (Free TaskPoint)

section
variable {config : Config} {s s' : System} {call : CallInternal}
  {executor executor' : ExecutionCancel.System} {p : CallPtr}

/-- The thread of the task is in `execute`, and in no call of its own. -/
def System.executes (s : System) (p : CallPtr) : Bool :=
  inExecute (s.httpExecutionTaskManager.tasks p) && (s.httpExecutionTaskManager.pending p).isNone

/-- The sections that are left to the executor of a call. -/
def System.sectionsLeft (s : System) (p : CallPtr) : ℕ :=
  match (s.calls p).bind (·.requestExecutor) with
  | some executor => executor.place.sectionsLeft
  | none => 0

/-- What the executor of a call has ended with, if it has. -/
def System.resultOf? (s : System) (p : CallPtr) : Option ExecuteResult :=
  ((s.calls p).bind (·.requestExecutor)).bind fun executor => resultOf executor.stage

/-- The sections a call has before it are those of its executor. -/
theorem sectionsLeft_of_call (hcall : s.calls p = some call)
    (hexecutor : call.requestExecutor = some executor) :
    s.sectionsLeft p = executor.place.sectionsLeft := by
  unfold System.sectionsLeft
  rw [hcall, Option.bind_some, hexecutor]

/-- Each task that executes has an executor. -/
theorem exists_executor (h : Inv config s) (hexecutes : s.executes p = true) :
    ∃ call executor, s.calls p = some call ∧ call.isAsync = true ∧
      call.requestExecutor = some executor := by
  unfold System.executes at hexecutes
  rw [Bool.and_eq_true] at hexecutes
  have hrun : (s.httpExecutionTaskManager.tasks p).isNotRun = false := by
    cases hpoint : s.httpExecutionTaskManager.tasks p with
    | notRun => rw [hpoint] at hexecutes; cases hexecutes.1
    | _ => rfl
  obtain ⟨call, hcall, hasync⟩ := isAsync_of_isNotRun h hrun
  have hinv := h.calls p call hcall
  have hsome : call.requestExecutor.isSome = true := by
    rw [← hinv.executed, hinv.isAsync hasync]
  obtain ⟨executor, hexecutor⟩ := Option.isSome_iff_exists.mp hsome
  exact ⟨call, executor, hcall, hasync, hexecutor⟩

/-- An execution at its end has a result. -/
theorem resultOf_of_isEnd {stage : ExecutionCancel.Stage} (h : stage.isEnd = true) :
    ∃ result, resultOf stage = some result := by
  cases stage with
  | returned response => exact ⟨_, rfl⟩
  | thrown e => exact ⟨_, rfl⟩
  | _ => cases h

/-- An execution in a client keeps what it keeps alone. -/
theorem ordered_of_callInv (h : CallInv config call)
    (hexecutor : call.requestExecutor = some executor) : ExecutionCancel.Ordered executor := by
  obtain ⟨pool, headers, as, hrun⟩ := h.run executor hexecutor
  exact Runs.run_invariant (fun _ _ _ h _ hstep => ExecutionCancel.ordered_step h hstep)
    (ExecutionCancel.ordered_init _ pool headers) hrun (Runs.everyStep_true _ _)

/-- An execution that has not ended takes a section, and nothing else changes. -/
theorem exists_executionStep (h : Inv config s) (hexecutes : s.executes p = true)
    (hnot : s.resultOf? p = none) :
    ∃ action s', step config s (.execution p action) = some s' ∧
      s'.httpExecutionTaskManager = s.httpExecutionTaskManager ∧
      s'.sectionsLeft p < s.sectionsLeft p ∧ ∀ q ≠ p, s'.calls q = s.calls q := by
  obtain ⟨call, executor, hcall, hasync, hexecutor⟩ := exists_executor h hexecutes
  have hordered := ordered_of_callInv (h.calls p call hcall) hexecutor
  -- an executor at its end would have a result
  have hend : executor.stage.isEnd = false := by
    by_contra hend
    obtain ⟨result, hresult⟩ := resultOf_of_isEnd (Bool.not_eq_false _ ▸ hend)
    unfold System.resultOf? at hnot
    rw [hcall, Option.bind_some, hexecutor, Option.bind_some, hresult] at hnot
    cases hnot
  have hsection : ∃ action : ExecutionCancel.Action, action.isSection = true ∧
      (executionStep config executor action).isSome = true :=
    ExecutionCancel.exists_section hordered hend
  obtain ⟨action, hsection, hsome⟩ := hsection
  obtain ⟨executor', hexecution⟩ := Option.isSome_iff_exists.mp hsome
  -- a section is no cancel, so it is a step of the execution itself
  have hexecution' : isExecution action = true := by
    cases action with
    | cancel _ => cases hsection
    | _ => rfl
  have hruns : s.runs p call = true := by
    unfold System.runs
    rw [hasync]
    exact hexecutes
  refine ⟨action, s.setCall p { call with requestExecutor := some executor' }, ?_, rfl, ?_,
    fun q hq => Function.update_of_ne hq ..⟩
  -- the section takes one from what is left
  · have hexecution : ExecutionCancel.step config.poco config.context executor action =
        some executor' := hexecution
    simp only [step, hcall, hexecution', hexecutor, hruns, Bool.true_or]
    rw [hexecution]
    rfl
  · have hleft := ExecutionCancel.sectionsLeft_step hordered.inv hexecution
    rw [if_pos hsection] at hleft
    rw [sectionsLeft_of_call hcall hexecutor, sectionsLeft_of_call (Function.update_self ..) rfl]
    omega

/-- A task that executes has been run. -/
theorem mem_executed_of_executes (h : Inv config s) (hexecutes : s.executes p = true) :
    p ∈ s.httpExecutionTaskManager.pool.executed := by
  have hrun := (h.manager.task.executed p).not
  rw [← List.count_pos_iff]
  unfold System.executes at hexecutes
  rw [Bool.and_eq_true] at hexecutes
  have hnot : ¬(s.httpExecutionTaskManager.tasks p).isNotRun = true := by
    cases hpoint : s.httpExecutionTaskManager.tasks p with
    | notRun => rw [hpoint] at hexecutes; cases hexecutes.1
    | _ => exact Bool.false_ne_true
  have hcount := hrun.mp hnot
  omega

/-- The manager stands still. -/
structure Executing (config : Config) (m : HttpExecutionTaskManager.System) (s : System) :
    Prop where
  inv : Inv config s
  manager : s.httpExecutionTaskManager = m

/-- The manager stands still, and no execution that runs can go on. -/
structure Executed (config : Config) (m : HttpExecutionTaskManager.System) (s : System) : Prop
    extends Executing config m s where
  ended : ∀ p, s.executes p = true → (s.resultOf? p).isSome = true

/-- **The executions that run can be brought to their end**, while the manager stands still. -/
theorem finishes {m : HttpExecutionTaskManager.System} (h : Executing config m s) :
    Runs.Reaches (step config) (fun _ _ => True) (Executed config m) s := by
  refine Runs.reaches_of_measure (fun t => (m.pool.executed.map t.sectionsLeft).sum)
    (fun t ht hnot => ?_) h
  obtain ⟨p, hexecutes, hnone⟩ : ∃ p, t.executes p = true ∧ t.resultOf? p = none := by
    by_contra hall
    refine hnot ⟨ht, fun p hexecutes => ?_⟩
    by_contra hp
    exact hall ⟨p, hexecutes, Option.not_isSome_iff_eq_none.mp hp⟩
  obtain ⟨action, t', hstep, hmanager, hlt, hothers⟩ :=
    exists_executionStep ht.inv hexecutes hnone
  refine ⟨_, t', hstep, trivial, ⟨inv_step ht.inv hstep, hmanager.trans ht.manager⟩, ?_⟩
  have hmem : p ∈ m.pool.executed := by
    rw [← ht.manager]
    exact mem_executed_of_executes ht.inv hexecutes
  refine List.sum_lt_sum _ _ (fun q _ => ?_) ⟨p, hmem, hlt⟩
  by_cases hq : q = p
  · rw [hq]
    exact hlt.le
  · unfold System.sectionsLeft
    rw [hothers q hq]

/-! ## The manager's way to its end, in the client -/

/-- How `execute` of each task ends, where it has. -/
def System.results (s : System) (p : CallPtr) : ExecuteResult := (s.resultOf? p).getD (.ok none)

/-- The action of the manager is the beginning of a call. -/
def isCall : HttpExecutionTaskManager.Action → Bool
  | .start _ _ | .shutdown _ _ => true
  | _ => false

/-- A step of the manager on its own is a step of the client. -/
theorem client_internal {m' : HttpExecutionTaskManager.System}
    {a : HttpExecutionTaskManager.Action} (hinternal : isInternal a = true)
    (hstep : managerStep config s.httpExecutionTaskManager a = some m') :
    ∃ action s', step config s action = some s' ∧ s'.httpExecutionTaskManager = m' := by
  refine ⟨.manager a, s.setManager m', ?_, rfl⟩
  simp only [step, hinternal]
  exact congrArg (Option.map s.setManager) hstep

/-- What the manager does by itself the client can do. -/
theorem client_follows {m m' : HttpExecutionTaskManager.System}
    {a : HttpExecutionTaskManager.Action} (h : Executed config m s)
    (hstep : managerStep config m a = some m')
    (hfollows : HttpExecutionTaskManager.Follows s.results m a) (hcall : isCall a = false) :
    ∃ action s', step config s action = some s' ∧ s'.httpExecutionTaskManager = m' := by
  obtain ⟨⟨hinv, rfl⟩, hended⟩ := h
  cases a with
  | start p caller => cases hcall
  | shutdown k caller => cases hcall
  | executed p result =>
    obtain ⟨hpoint, hpending, -⟩ := HttpExecutionTaskManager.step_executed hstep
    have hexecutes : s.executes p = true := by
      unfold System.executes
      rw [hpoint, hpending]
      rfl
    -- the execution has ended, and its result is what the manager is given
    obtain ⟨r, hr⟩ := Option.isSome_iff_exists.mp (hended p hexecutes)
    have hresult : result = r := by
      have hfollows : result = s.results p := hfollows
      rw [hfollows, System.results, hr, Option.getD_some]
    obtain ⟨executor, hexecutor, hstage⟩ := Option.bind_eq_some_iff.mp hr
    refine ⟨.executed p, s.setManager m', ?_, rfl⟩
    simp only [step, hexecutor, hstage]
    rw [← hresult]
    exact congrArg (Option.map s.setManager) hstep
  | cancel k =>
    have hcancel : HttpExecutionTaskManager.step config.asyncThreadPool s.httpExecutionTaskManager
        (.cancel k) = some m' := hstep
    -- there is a task to cancel, or the list has been gone through
    cases hnext : s.nextToCancel k with
    | some p =>
      refine ⟨.cancelTask k true, (s.cancelTask p true).setManager m', ?_, rfl⟩
      simp only [step, hcancel, Option.map_some, hnext]
    | none =>
      refine ⟨.cancelTask k true, s.setManager m', ?_, rfl⟩
      simp only [step, hcancel, Option.map_some, hnext]
  | _ => exact client_internal rfl hstep

/-- A call that begins brings no worker and no shutdown nearer to its end. -/
theorem kept_of_isCall {pool : QueuedThreadPool.Config} {m m' : HttpExecutionTaskManager.System}
    {a : HttpExecutionTaskManager.Action} {k : ℕ} (hcall : isCall a = true)
    (hstep : HttpExecutionTaskManager.step pool m a = some m')
    (hprogress : (m.shutdowns k).inProgress = true)
    (hcaller : ∀ t call, m.canCall (.task t) = true →
      m'.pending ≠ Function.update m.pending t (some call)) :
    m'.work = m.work ∧ m'.shutdowns k = m.shutdowns k := by
  cases a with
  | start p caller =>
    obtain ⟨-, hcan, rfl⟩ := HttpExecutionTaskManager.step_start hstep
    cases caller with
    | application => exact ⟨rfl, rfl⟩
    | task t => exact absurd rfl (hcaller t _ hcan)
  | shutdown j caller =>
    obtain ⟨houtside, hcan, rfl⟩ := HttpExecutionTaskManager.step_shutdown hstep
    have hk : k ≠ j := by
      rintro rfl
      rw [houtside] at hprogress
      cases hprogress
    cases caller with
    | application => exact ⟨rfl, Function.update_of_ne hk ..⟩
    | task t => exact absurd rfl (hcaller t _ hcan)
  | _ => cases hcall

/-- Where the manager has a way to its end, it gets nearer to it in the client. -/
structure Nearer (k : ℕ) (m m' : HttpExecutionTaskManager.System) : Prop where
  lt : m'.work + (m'.shutdowns k).rank < m.work + (m.shutdowns k).rank
  after : m'.shutdowns k = .returned ∨ (m'.shutdowns k).inProgress = true ∧ Free m' k

/-- While a `gracefulShutdown` is in progress and nothing blocks it, the manager has a step that
brings it nearer to its end. -/
theorem manager_advances (config : Config) {m : HttpExecutionTaskManager.System} {k : ℕ}
    (h : HttpExecutionTaskManager.Inv m) (hasync : AsyncTasks.Inv m.toAsync)
    (hprogress : (m.shutdowns k).inProgress = true) (hfree : Free m k)
    (results : CallPtr → ExecuteResult) : ∃ a m', managerStep config m a = some m' ∧
      HttpExecutionTaskManager.Follows results m a ∧ isCall a = false ∧ Nearer k m m' := by
  by_cases hleft : ∀ w ∈ m.pool.workers, w = .left
  -- all threads have left, so the shutdown itself goes on
  · obtain ⟨a, m', hstep, hfollows, hwork, hrank, hafter⟩ :=
      @HttpExecutionTaskManager.shutdown_advances config.asyncThreadPool results m k h hprogress
        hfree hleft
    refine ⟨a, m', hstep, hfollows, ?_, by omega, hafter⟩
    by_contra hcall
    have hnobody (t : CallPtr) (call : HttpExecutionTaskManager.Call)
        (hcan : m.canCall (.task t) = true) :
        m'.pending ≠ Function.update m.pending t (some call) := by
      -- no task is in code of its user
      unfold HttpExecutionTaskManager.System.canCall at hcan
      rw [Bool.and_eq_true] at hcan
      rcases HttpExecutionTaskManager.notRun_or_finished h hleft t with hnotRun | hfinished
      · rw [hnotRun] at hcan
        cases hcan.1
      · cases hpoint : m.tasks t with
        | finished result exception => rw [hpoint] at hcan; cases hcan.1
        | _ => rw [hpoint] at hfinished; cases hfinished
    rw [(kept_of_isCall (Bool.not_eq_false _ ▸ hcall) hstep hprogress hnobody).2] at hrank
    omega
  -- some thread has not left, so the pool has something to do
  · obtain ⟨w, hmem, hw⟩ : ∃ w ∈ m.pool.workers, w ≠ .left := by simpa using hleft
    obtain ⟨i, hi⟩ := List.getElem?_of_mem hmem
    obtain ⟨a, m', hstep, hfollows, hwork, hk, haccepted, hpending⟩ :=
      @HttpExecutionTaskManager.advances_of_worker config.asyncThreadPool results m k h hasync
        hprogress hfree i w hi hw
    refine ⟨a, m', hstep, hfollows, ?_, by rw [hk]; omega,
      .inr ⟨by rw [hk]; exact hprogress, hfree.of_advances hk haccepted hpending⟩⟩
    by_contra hcall
    -- a call of the manager would have to come from a task, and none waits
    have hnobody (t : CallPtr) (call : HttpExecutionTaskManager.Call)
        (hcan : m.canCall (.task t) = true) :
        m'.pending ≠ Function.update m.pending t (some call) := by
      intro hafter
      unfold HttpExecutionTaskManager.System.canCall at hcan
      rw [Bool.and_eq_true] at hcan
      have hnone := hpending t (Option.isNone_iff_eq_none.mp hcan.2)
      rw [hafter, Function.update_self] at hnone
      cases hnone
    rw [(kept_of_isCall (Bool.not_eq_false _ ▸ hcall) hstep hprogress hnobody).1] at hwork
    omega

/-- A client whose `gracefulShutdown` has returned, or has nothing that keeps it. -/
structure Returns (config : Config) (k : ℕ) (s : System) : Prop where
  inv : Inv config s
  async : AsyncTasks.Inv s.httpExecutionTaskManager.toAsync
  state : s.httpExecutionTaskManager.shutdowns k = .returned ∨
    (s.httpExecutionTaskManager.shutdowns k).inProgress = true ∧ Free s.httpExecutionTaskManager k

/-- The client comes nearer to the end of `invalidateAndCancel`, by the manager's steps or by those
of an execution. -/
theorem client_advances {k : ℕ} (h : Returns config k s)
    (hnot : s.httpExecutionTaskManager.shutdowns k ≠ .returned) :
    Runs.Reaches (step config) (fun _ _ => True) (fun t => Returns config k t ∧
      t.httpExecutionTaskManager.work + (t.httpExecutionTaskManager.shutdowns k).rank <
        s.httpExecutionTaskManager.work + (s.httpExecutionTaskManager.shutdowns k).rank) s := by
  obtain ⟨hprogress, hfree⟩ := h.state.resolve_left hnot
  have hexecuting : Executing config s.httpExecutionTaskManager s := ⟨h.inv, rfl⟩
  -- the executions come to their end first, and the manager takes its next step then
  refine (finishes hexecuting).trans fun t ht => ?_
  obtain ⟨a, m', hstep, hfollows, hcall, hnearer⟩ :=
    manager_advances config h.inv.manager h.async hprogress hfree t.results
  obtain ⟨action, t', htaken, rfl⟩ := client_follows ht hstep hfollows hcall
  have hone : Runs.run (managerStep config) s.httpExecutionTaskManager [a] =
      some t'.httpExecutionTaskManager := Runs.run_cons_some hstep rfl
  refine .step_then htaken trivial (.here ⟨⟨inv_step ht.inv htaken, ?_, hnearer.after⟩, hnearer.lt⟩)
  exact HttpExecutionTaskManager.asyncInv_of_run h.inv.manager h.async hone

/-- A `gracefulShutdown` that something keeps. -/
structure Stuck (config : Config) (k : ℕ) (s : System) : Prop where
  inv : Inv config s
  inProgress : (s.httpExecutionTaskManager.shutdowns k).inProgress = true
  notFree : ¬Free s.httpExecutionTaskManager k

/-- What keeps a `gracefulShutdown` keeps it after every step. -/
theorem stuck_step {k : ℕ} {action : Action} (h : Stuck config k s)
    (hstep : step config s action = some s') : Stuck config k s' := by
  rcases manager_of_step hstep with hsame | ⟨a, hmanaged⟩
  · refine ⟨inv_step h.inv hstep, ?_, ?_⟩
    · rw [hsame]
      exact h.inProgress
    · rw [hsame]
      exact h.notFree
  · obtain ⟨hprogress, hnot⟩ := HttpExecutionTaskManager.notFree_step a h.inv.manager h.inProgress
      h.notFree hmanaged.step
    exact ⟨inv_step h.inv hstep, hprogress, hnot⟩

/-- **When `invalidateAndCancel` can return.** From each state in which its `gracefulShutdown` is
past its first section, the client can get to where it has returned if and only if it was not called
from a callback or an execution of its own, the pool has taken each task that is still waited for,
and nobody waits for the mutex while the pool is joined. Nothing is assumed of the executions. -/
theorem client_canReturn_iff {actions : List Action}
    (hrun : Runs.run (step config) (initial config) actions = some s) {k : ℕ}
    (hprogress : (s.httpExecutionTaskManager.shutdowns k).inProgress = true) :
    Runs.Reaches (step config) (fun _ _ => True)
      (fun t => t.httpExecutionTaskManager.shutdowns k = .returned) s ↔
        Free s.httpExecutionTaskManager k := by
  have hinv := inv_of_run (inv_initial config) hrun
  constructor
  · intro hreaches
    by_contra hnot
    have hstuck : Stuck config k s := ⟨hinv, hprogress, hnot⟩
    refine Runs.not_reaches_of_invariant (fun _ _ _ h hstep => stuck_step h hstep)
      (fun t ht hreturned => ?_) hstuck hreaches
    have hin := ht.inProgress
    rw [hreturned] at hin
    cases hin
  · intro hfree
    have hreturns : Returns config k s := ⟨hinv, asyncInv_of_run hrun, .inr ⟨hprogress, hfree⟩⟩
    exact Runs.reaches_of_reaches
      (fun t => t.httpExecutionTaskManager.work + (t.httpExecutionTaskManager.shutdowns k).rank)
      (fun t ht hnot => client_advances ht hnot) hreturns

end

/-- The client is invalidated while its call is in `execute`. -/
def invalidatedCall : List Action :=
  storedCall.take 9 ++ [.invalidateAndCancel 0 .application, .manager (.shutdownLock 0)]

/-- A call that has returned, and `invalidateAndCancel`. -/
theorem client_canReturn_iff_invalidatedCall : ∃ s,
    Runs.run (step storedConfig) (initial storedConfig) invalidatedCall = some s ∧
      Runs.Reaches (step storedConfig) (fun _ _ => True)
        (fun t => t.httpExecutionTaskManager.shutdowns 0 = .returned) s := by
  have hwaits : (Runs.run (step storedConfig) (initial storedConfig) invalidatedCall).map
      (fun s => decide (s.httpExecutionTaskManager.shutdowns 0 = .cancelling .application [0] [0] ∧
        s.httpExecutionTaskManager.starts 0 = .accepted)) = some true := by decide +kernel
  obtain ⟨s, hrun, hdecide⟩ := Option.map_eq_some_iff.mp hwaits
  obtain ⟨hpoint, haccepted⟩ := of_decide_eq_true hdecide
  refine ⟨s, hrun, (client_canReturn_iff hrun (by rw [hpoint]; rfl)).mpr ⟨?_, ?_, ?_⟩⟩
  · rw [hpoint]
    rfl
  · rw [hpoint]
    intro task hmem
    rw [List.mem_singleton.mp hmem]
    exact haccepted
  · rw [hpoint]
    intro hjoining
    cases hjoining

end EasyHttp.EasyHttpInternal
