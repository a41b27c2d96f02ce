import EasyHttp.Library.Runs

/-!
# What runs can reach

* `Reaches step C P s`: some run under `C` from `s` ends in a state that satisfies `P`;
* `reaches_of_measure`, `reaches_of_reaches`: steps that lower a measure, from each state where the
  invariant holds and the goal does not, lead to the goal;
* `not_reaches_of_invariant`: what an invariant excludes is not reached;
* `simulates_run`: a machine whose every step is a run of another one has only runs of it;
* `choice_of_run`: what is to come, read off a run from its end;
* `countP_le_of_measure`: a run has no more actions of a kind than a measure allows that each of
  them lowers.
-/

namespace Runs

variable {σ α : Type*} {step : σ → α → Option σ} {C : σ → α → Prop} {P Inv : σ → Prop}

/-- Some run from the state whose every step satisfies `C` ends in a state that satisfies `P`. -/
def Reaches (step : σ → α → Option σ) (C : σ → α → Prop) (P : σ → Prop) (s : σ) : Prop :=
  ∃ actions s', run step s actions = some s' ∧ EveryStep step C s actions ∧ P s'

namespace Reaches

/-- A state that satisfies the property already. -/
theorem here {s : σ} (h : P s) : Reaches step C P s := ⟨[], s, rfl, trivial, h⟩

/-- A permitted step in front. -/
theorem step_then {s t : σ} {a : α} (hstep : step s a = some t) (hC : C s a)
    (h : Reaches step C P t) : Reaches step C P s := by
  obtain ⟨actions, s', hrun, hevery, hP⟩ := h
  refine ⟨a :: actions, s', run_cons_some hstep hrun, ?_, hP⟩
  rw [EveryStep, hstep]
  exact ⟨hC, hevery⟩

/-- From each state that is reached one goes on. -/
theorem trans {Q : σ → Prop} {s : σ} (h : Reaches step C P s)
    (hgoes : ∀ t, P t → Reaches step C Q t) : Reaches step C Q s := by
  obtain ⟨actions, s', hrun, hevery, hP⟩ := h
  induction actions generalizing s with
  | nil =>
    cases hrun
    exact hgoes _ hP
  | cons a as ih =>
    obtain ⟨t, htaken, hrest⟩ := run_cons hrun
    obtain ⟨hC, hlater⟩ := hevery.cons htaken
    exact step_then htaken hC (ih hrest hlater)

end Reaches

/-- A goal is reached when each state on the way has a step that lowers a measure. -/
theorem reaches_of_measure (measure : σ → ℕ)
    (hstep : ∀ s, Inv s → ¬P s →
      ∃ a s', step s a = some s' ∧ C s a ∧ Inv s' ∧ measure s' < measure s)
    {s : σ} (hinv : Inv s) : Reaches step C P s := by
  -- by induction on the measure
  induction hn : measure s using Nat.strongRecOn generalizing s with
  | ind n ih =>
    by_cases hP : P s
    · exact .here hP
    · obtain ⟨a, s', htaken, hC, hinv', hlt⟩ := hstep s hinv hP
      rw [hn] at hlt
      exact .step_then htaken hC (ih (measure s') hlt hinv' rfl)

/-- The same, where it may take some steps to lower the measure. -/
theorem reaches_of_reaches (measure : σ → ℕ)
    (hreaches : ∀ s, Inv s → ¬P s →
      Reaches step C (fun s' => Inv s' ∧ measure s' < measure s) s)
    {s : σ} (hinv : Inv s) : Reaches step C P s := by
  induction hn : measure s using Nat.strongRecOn generalizing s with
  | ind n ih =>
    by_cases hP : P s
    · exact .here hP
    · refine (hreaches s hinv hP).trans fun t ht => ?_
      have hlt := ht.2
      rw [hn] at hlt
      exact ih (measure t) hlt ht.1 rfl

/-- An invariant that excludes the property keeps it out of reach. -/
theorem not_reaches_of_invariant
    (hpres : ∀ s a s', Inv s → step s a = some s' → Inv s') (hnot : ∀ s, Inv s → ¬P s)
    {s : σ} (hinv : Inv s) : ¬Reaches step C P s := by
  rintro ⟨actions, s', hrun, -, hP⟩
  have hinv' : Inv s' :=
    run_invariant (fun s a s' h _ => hpres s a s' h) hinv hrun (everyStep_true _ _)
  exact hnot s' hinv' hP

/-- Each step of a machine is, seen through `f`, a run of another machine; then so is each run. -/
theorem simulates_run {τ β : Type*} {step' : τ → β → Option τ} (f : σ → τ)
    (hpres : ∀ s a s', Inv s → step s a = some s' → Inv s')
    (hsim : ∀ s a s', Inv s → step s a = some s' → ∃ bs, run step' (f s) bs = some (f s'))
    {s s' : σ} {actions : List α} (hinv : Inv s) (hrun : run step s actions = some s') :
    ∃ bs, run step' (f s) bs = some (f s') := by
  induction actions generalizing s with
  | nil =>
    cases hrun
    exact ⟨[], rfl⟩
  | cons a as ih =>
    obtain ⟨t, hstep, hrest⟩ := run_cons hrun
    obtain ⟨bs, hbs⟩ := hsim s a t hinv hstep
    obtain ⟨cs, hcs⟩ := ih (hpres s a t hinv hstep) hrest
    refine ⟨bs ++ cs, ?_⟩
    rw [run_append, hbs]
    exact hcs

/-- However things end from the state after a step, so they may from the one before it, unless the
machine has stopped; then however they end from the last state of a run, so they may from the
first. -/
theorem choice_of_run {γ ω : Type*} {Stopped : σ → Prop} (outcome : σ → γ → ω)
    (hpres : ∀ s a s', Inv s → step s a = some s' → Inv s')
    (hstays : ∀ s a s', Stopped s → step s a = some s' → Stopped s')
    (hstep : ∀ s a s', Inv s → step s a = some s' →
      Stopped s' ∨ ∀ c', ∃ c, outcome s c = outcome s' c')
    {s s' : σ} {actions : List α} (hinv : Inv s) (hrun : run step s actions = some s') :
    Stopped s' ∨ ∀ c', ∃ c, outcome s c = outcome s' c' := by
  induction actions generalizing s with
  | nil =>
    cases hrun
    exact .inr fun c => ⟨c, rfl⟩
  | cons a as ih =>
    obtain ⟨t, htaken, hrest⟩ := run_cons hrun
    rcases hstep s a t hinv htaken with hstopped | hfirst
    · left
      exact run_invariant (fun s a s' h _ => hstays s a s' h) hstopped hrest (everyStep_true _ _)
    · refine (ih (hpres s a t hinv htaken) hrest).imp_right fun hlater c' => ?_
      obtain ⟨c, hc⟩ := hlater c'
      obtain ⟨c₀, hc₀⟩ := hfirst c
      exact ⟨c₀, hc₀.trans hc⟩

/-- A measure that each action of a kind lowers, and no other action raises, bounds how many of
them a run has. -/
theorem countP_le_of_measure (kind : α → Bool) (measure : σ → ℕ)
    (hpres : ∀ s a s', Inv s → step s a = some s' → Inv s')
    (hstep : ∀ s a s', Inv s → step s a = some s' →
      (if kind a then 1 else 0) + measure s' ≤ measure s)
    {s s' : σ} {actions : List α} (hinv : Inv s) (hrun : run step s actions = some s') :
    actions.countP kind + measure s' ≤ measure s := by
  induction actions generalizing s with
  | nil =>
    cases hrun
    simp
  | cons a as ih =>
    obtain ⟨t, htaken, hrest⟩ := run_cons hrun
    have hfirst := hstep s a t hinv htaken
    have hlater := ih (hpres s a t hinv htaken) hrest
    rw [List.countP_cons]
    omega

end Runs
