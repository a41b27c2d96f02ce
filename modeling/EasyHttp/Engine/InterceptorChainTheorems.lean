import EasyHttp.Engine.InterceptorChain

/-!
# Which interceptor `proceed` reaches

While every interceptor calls `proceed` at most once, the shared iterator stands at the
interceptor whose turn it is (`Inv`), and each call reaches the next one. A second call finds
the iterator already further on. `reachesNext_iff` says that this is exactly how a run goes
wrong.
-/

namespace EasyHttp.InterceptorChain

open Runs

variable {ρ : Type} (kind : Kind) (size : ℕ)

/-- What `proceed` of the chain given to `interceptor` should call. -/
def nextCallee (interceptor : ℕ) : Callee :=
  if interceptor + 1 < size then .intercept (interceptor + 1) else .terminal kind.execution

/-- A call of `proceed` reaches the next interceptor, or the terminal execution after the
last one. -/
def ReachesNext (s : State ρ) : Action ρ → Prop
  | .proceed _ => ∀ caller ∈ s.frames.head?,
    (kind.proceed size s.currentIterator).2 = nextCallee kind size caller.interceptor
  | .leave => True

/-- Who calls `proceed` has not called it before. -/
def FirstProceed (s : State ρ) : Action ρ → Prop
  | .proceed _ => ∀ caller ∈ s.frames.head?, caller.proceeds = 0
  | .leave => True

/-- The invariant while nobody calls `proceed` twice. -/
structure Inv (s : State ρ) : Prop where
  inList : ∀ f ∈ s.frames, f.interceptor < size
  waiting : ∀ f ∈ s.frames.tail, 0 < f.proceeds
  passed : ∀ f ∈ s.frames, 0 < f.proceeds → f.interceptor < s.currentIterator
  turn : ∀ f ∈ s.frames.head?, f.proceeds = 0 → s.currentIterator = f.interceptor

/-! ## One call -/

/-- Both chains do the same. -/
theorem kind_proceed : kind.proceed = proceed kind.execution := by
  cases kind <;> rfl

/-- A call reaches the next interceptor exactly if the iterator stands at the caller. -/
theorem proceed_eq_nextCallee_iff {interceptor currentIterator : ℕ} (h : interceptor < size) :
    (kind.proceed size currentIterator).2 = nextCallee kind size interceptor ↔
      currentIterator = interceptor := by
  rw [kind_proceed]
  unfold proceed nextCallee
  -- the next callee is an interceptor, or what stands at the end of the chain
  by_cases hlast : interceptor + 1 < size
  · rw [if_pos hlast]
    by_cases hin : currentIterator < size
    · rw [if_pos hin]
      by_cases hend : currentIterator + 1 ≠ size
      · rw [if_pos hend]
        show Callee.intercept (currentIterator + 1) = .intercept (interceptor + 1) ↔ _
        rw [Callee.intercept.injEq]
        omega
      · rw [if_neg hend]
        show Callee.terminal kind.execution = .intercept (interceptor + 1) ↔ _
        constructor
        · intro h
          cases h
        · omega
    · rw [if_neg hin]
      show Callee.undefined = .intercept (interceptor + 1) ↔ _
      constructor
      · intro h
        cases h
      · omega
  · rw [if_neg hlast]
    -- the last interceptor leads to the end of the chain only from its own index
    by_cases hin : currentIterator < size
    · rw [if_pos hin]
      by_cases hend : currentIterator + 1 ≠ size
      · rw [if_pos hend]
        show Callee.intercept (currentIterator + 1) = .terminal kind.execution ↔ _
        constructor
        · intro h
          cases h
        · omega
      · rw [if_neg hend]
        show Callee.terminal kind.execution = .terminal kind.execution ↔ _
        constructor
        · omega
        · intro _
          rfl
    · rw [if_neg hin]
      show Callee.undefined = .terminal kind.execution ↔ _
      constructor
      · intro h
        cases h
      · omega

/-- Under the invariant a call goes right exactly if it is the caller's first. -/
theorem reachesNext_iff_firstProceed {s : State ρ} (hinv : Inv size s) (a : Action ρ) :
    ReachesNext kind size s a ↔ FirstProceed s a := by
  cases a with
  | leave => exact Iff.rfl
  | proceed request =>
    refine forall₂_congr fun caller hcaller => ?_
    have hmem : caller ∈ s.frames := List.mem_of_mem_head? hcaller
    rw [proceed_eq_nextCallee_iff kind size (hinv.inList caller hmem)]
    constructor
    · intro hat
      by_contra hne
      have hpassed := hinv.passed caller hmem (Nat.pos_of_ne_zero hne)
      omega
    · exact hinv.turn caller hcaller

/-! ## Steps and runs -/

theorem inv_start (request : ρ) : Inv size (start size request) := by
  unfold start
  by_cases hsize : size = 0
  · rw [if_pos hsize]
    exact ⟨by simp, by simp, by simp, by simp⟩
  · rw [if_neg hsize]
    exact ⟨by simpa using Nat.pos_of_ne_zero hsize, by simp, by simp, by simp⟩

/-- What a first call of `proceed` does to the frames. -/
theorem step_proceed_of_inv {s s' : State ρ} {request : ρ} (hinv : Inv size s)
    (hfirst : FirstProceed s (.proceed request))
    (hstep : step kind size s (.proceed request) = some s') :
    ∃ caller callers, s.frames = caller :: callers ∧ s.currentIterator = caller.interceptor ∧
      s'.currentIterator = caller.interceptor + 1 ∧
      (s'.frames = { caller with proceeds := 1 } :: callers ∨
        caller.interceptor + 1 < size ∧
        s'.frames = ⟨caller.interceptor + 1, request, 0⟩ :: { caller with proceeds := 1 } ::
          callers) := by
  unfold step at hstep
  cases hframes : s.frames with
  | nil =>
    rw [hframes] at hstep
    cases hstep
  | cons caller callers =>
    -- the caller is the one on top, and calls for the first time
    have hhead : caller ∈ s.frames.head? := by simp [hframes]
    have hzero : caller.proceeds = 0 := hfirst caller hhead
    have hturn : s.currentIterator = caller.interceptor := hinv.turn caller hhead hzero
    have hin : caller.interceptor < size := hinv.inList caller (by simp [hframes])
    rw [hframes] at hstep
    replace hstep : s.proceed kind size caller callers request = some s' := hstep
    unfold State.proceed at hstep
    rw [kind_proceed] at hstep
    unfold proceed at hstep
    rw [hturn, if_pos hin, hzero] at hstep
    refine ⟨caller, callers, rfl, hturn, ?_⟩
    -- it calls the next interceptor, or the end of the chain
    by_cases hend : caller.interceptor + 1 ≠ size
    · rw [if_pos hend] at hstep
      cases hstep
      exact ⟨rfl, .inr ⟨by omega, rfl⟩⟩
    · rw [if_neg hend] at hstep
      cases hstep
      exact ⟨rfl, .inl rfl⟩

theorem inv_proceed {s s' : State ρ} {request : ρ} (hinv : Inv size s)
    (hfirst : FirstProceed s (.proceed request))
    (hstep : step kind size s (.proceed request) = some s') : Inv size s' := by
  obtain ⟨caller, callers, hframes, hturn, hpos, hcases⟩ :=
    step_proceed_of_inv kind size hinv hfirst hstep
  have hin := hinv.inList
  have hwait := hinv.waiting
  have hpass := hinv.passed
  rw [hframes] at hin hwait hpass
  simp only [List.tail_cons, List.forall_mem_cons] at hin hwait hpass
  -- those below have called `proceed`, so the iterator has passed them
  have hcallers : ∀ f ∈ callers, f.interceptor < s'.currentIterator := by
    intro f hf
    have := hpass.2 f hf (hwait f hf)
    omega
  rcases hcases with hframes' | ⟨hnext, hframes'⟩
  -- the end of the chain was called, and has returned
  · refine ⟨?_, ?_, ?_, ?_⟩
    · rw [hframes', List.forall_mem_cons]
      exact hin
    · rw [hframes']
      exact hwait
    · rw [hframes', List.forall_mem_cons]
      exact ⟨fun _ => by show caller.interceptor < _; omega, fun f hf _ => hcallers f hf⟩
    · rw [hframes']
      simp
  -- the next interceptor is on top now, and waits for its turn
  · refine ⟨?_, ?_, ?_, ?_⟩
    · rw [hframes', List.forall_mem_cons, List.forall_mem_cons]
      exact ⟨hnext, hin⟩
    · rw [hframes', List.tail_cons, List.forall_mem_cons]
      exact ⟨Nat.one_pos, hwait⟩
    · rw [hframes', List.forall_mem_cons, List.forall_mem_cons]
      refine ⟨fun h => absurd h (Nat.lt_irrefl 0), fun _ => ?_, fun f hf _ => hcallers f hf⟩
      show caller.interceptor < _
      omega
    · rw [hframes']
      simp [hpos]

theorem inv_leave {s s' : State ρ} (hinv : Inv size s)
    (hstep : step kind size s .leave = some s') : Inv size s' := by
  unfold step at hstep
  cases hframes : s.frames with
  | nil =>
    rw [hframes] at hstep
    cases hstep
  | cons returned callers =>
    rw [hframes] at hstep
    cases hstep
    have hin := hinv.inList
    have hwait := hinv.waiting
    have hpass := hinv.passed
    rw [hframes] at hin hwait hpass
    simp only [List.tail_cons, List.forall_mem_cons] at hin hwait hpass
    refine ⟨hin.2, fun f hf => hwait f (List.mem_of_mem_tail hf), hpass.2, fun f hf hzero => ?_⟩
    -- who is back in control has called `proceed`
    have := hwait f (List.mem_of_mem_head? hf)
    omega

theorem inv_step {s s' : State ρ} {a : Action ρ} (hinv : Inv size s) (hfirst : FirstProceed s a)
    (hstep : step kind size s a = some s') : Inv size s' := by
  cases a with
  | proceed request => exact inv_proceed kind size hinv hfirst hstep
  | leave => exact inv_leave kind size hinv hstep

/-- **Interceptor chains.** In a run over any list of interceptors, every call of `proceed`
reaches the next interceptor, or after the last one the terminal execution, if and only if no
interceptor calls `proceed` on its chain a second time. -/
theorem reachesNext_iff (request : ρ) (actions : List (Action ρ)) :
    EveryStep (step kind size) (ReachesNext kind size) (start size request) actions ↔
      EveryStep (step kind size) FirstProceed (start size request) actions :=
  everyStep_congr (fun _ _ _ => inv_step kind size)
    (fun _ a hinv => reachesNext_iff_firstProceed kind size hinv a) (inv_start size request)

/-- The second `proceed` of a single interceptor that retries runs the iterator past the end
of the list, in both kinds of chains. -/
theorem retrying_interceptor_not_reachesNext :
    ¬ EveryStep (step .call 1) (ReachesNext .call 1) (start 1 ()) [.proceed (), .proceed ()] ∧
    ¬ EveryStep (step .network 1) (ReachesNext .network 1) (start 1 ())
      [.proceed (), .proceed ()] := by
  constructor
  · intro h
    have hsecond := h.2.1 ⟨0, (), 1⟩ (by decide)
    exact absurd hsecond (by decide)
  · intro h
    have hsecond := h.2.1 ⟨0, (), 1⟩ (by decide)
    exact absurd hsecond (by decide)

end EasyHttp.InterceptorChain
