import Mathlib.Data.List.Basic

/-!
# Runs of a state machine

A machine is a partial step function; `none` says that an action cannot be taken. A run takes
a list of actions one after another.

* `EveryStep P s as`: in the run of `as` from `s`, every action taken satisfies `P` in the
  state before it;
* `run_invariant`, `everyStep_of_invariant`: an invariant that steps under a condition `C`
  preserve holds along every run under `C`;
* `everyStep_congr`: two properties of steps that agree under such an invariant agree on runs.
-/

namespace Runs

variable {σ α : Type*} (step : σ → α → Option σ)

/-- The state after a run. -/
def run (s : σ) : List α → Option σ
  | [] => some s
  | a :: as => match step s a with
    | some s' => run s' as
    | none => none

/-- Every action of the run satisfies `P` in the state before it. -/
def EveryStep (P : σ → α → Prop) (s : σ) : List α → Prop
  | [] => True
  | a :: as => P s a ∧ match step s a with
    | some s' => EveryStep P s' as
    | none => True

variable {step}

/-- A run begins with one step. -/
theorem run_cons {s s' : σ} {a : α} {as : List α} (h : run step s (a :: as) = some s') :
    ∃ t, step s a = some t ∧ run step t as = some s' := by
  rw [run] at h
  cases hstep : step s a with
  | none =>
    rw [hstep] at h
    cases h
  | some t =>
    rw [hstep] at h
    exact ⟨t, rfl, h⟩

theorem run_cons_some {s t s' : σ} {a : α} {as : List α} (hstep : step s a = some t)
    (hrun : run step t as = some s') : run step s (a :: as) = some s' := by
  rw [run, hstep]
  exact hrun

theorem run_singleton {s s' : σ} {a : α} (h : run step s [a] = some s') : step s a = some s' := by
  obtain ⟨t, hstep, hrun⟩ := run_cons h
  cases hrun
  exact hstep

/-- A machine that takes every action has a run of every list. -/
theorem exists_run (htotal : ∀ s a, ∃ s', step s a = some s') (s : σ) (as : List α) :
    ∃ s', run step s as = some s' := by
  induction as generalizing s with
  | nil => exact ⟨s, rfl⟩
  | cons a as ih =>
    obtain ⟨t, hstep⟩ := htotal s a
    obtain ⟨s', hrun⟩ := ih t
    exact ⟨s', run_cons_some hstep hrun⟩

/-- Two runs in a row. -/
theorem run_append {s : σ} {as bs : List α} :
    run step s (as ++ bs) = (run step s as).bind fun t => run step t bs := by
  induction as generalizing s with
  | nil => rfl
  | cons a as ih =>
    rw [List.cons_append, run, run]
    cases step s a with
    | none => rfl
    | some t => exact ih

/-- A condition on the steps holds of the first one and in the rest of the run. -/
theorem EveryStep.cons {P : σ → α → Prop} {s t : σ} {a : α} {as : List α}
    (hstep : step s a = some t) (h : EveryStep step P s (a :: as)) :
    P s a ∧ EveryStep step P t as := by
  rw [EveryStep, hstep] at h
  exact h

/-- The last part of a run. -/
theorem EveryStep.of_append {P : σ → α → Prop} {s t : σ} {as bs : List α}
    (h : EveryStep step P s (as ++ bs)) (hrun : run step s as = some t) : EveryStep step P t bs := by
  induction as generalizing s with
  | nil =>
    cases hrun
    exact h
  | cons a as ih =>
    obtain ⟨u, hstep, hrest⟩ := run_cons hrun
    exact ih (h.cons hstep).2 hrest

/-- The first part of a run. -/
theorem EveryStep.append_left {P : σ → α → Prop} {s : σ} {as bs : List α}
    (h : EveryStep step P s (as ++ bs)) : EveryStep step P s as := by
  induction as generalizing s with
  | nil => trivial
  | cons a as ih =>
    rw [List.cons_append, EveryStep] at h
    refine ⟨h.1, ?_⟩
    cases hstep : step s a with
    | none => trivial
    | some t =>
      have hrest := h.2
      rw [hstep] at hrest
      exact ih hrest

/-- The action after the first part of a run satisfies `P` in the state there. -/
theorem EveryStep.at_append {P : σ → α → Prop} {s t : σ} {as bs : List α} {a : α}
    (h : EveryStep step P s (as ++ a :: bs)) (hrun : run step s as = some t) : P t a :=
  (h.of_append hrun).1

instance decidableEveryStep {P : σ → α → Prop} [∀ s a, Decidable (P s a)] :
    ∀ (s : σ) (as : List α), Decidable (EveryStep step P s as)
  | _, [] => isTrue trivial
  | s, a :: as =>
    match hstep : step s a with
    | some t =>
      have := decidableEveryStep (P := P) t as
      decidable_of_iff (P s a ∧ EveryStep step P t as) (by rw [EveryStep, hstep])
    | none => decidable_of_iff (P s a) (by rw [EveryStep, hstep]; simp)

/-- A property of the actions alone. -/
theorem everyStep_of_forall {P : α → Prop} {as : List α} (h : ∀ a ∈ as, P a) (s : σ) :
    EveryStep step (fun _ => P) s as := by
  induction as generalizing s with
  | nil => trivial
  | cons a as ih =>
    refine ⟨h a List.mem_cons_self, ?_⟩
    cases step s a with
    | none => trivial
    | some t => exact ih (fun b hb => h b (List.mem_cons_of_mem a hb)) t

/-- Two conditions on the steps are one. -/
theorem EveryStep.and {P Q : σ → α → Prop} {s : σ} {as : List α} (hP : EveryStep step P s as)
    (hQ : EveryStep step Q s as) : EveryStep step (fun s a => P s a ∧ Q s a) s as := by
  induction as generalizing s with
  | nil => trivial
  | cons a as ih =>
    refine ⟨⟨hP.1, hQ.1⟩, ?_⟩
    cases hstep : step s a with
    | none => trivial
    | some t => exact ih (hP.cons hstep).2 (hQ.cons hstep).2

/-- A condition on the steps may be weakened. -/
theorem EveryStep.mono {P Q : σ → α → Prop} {s : σ} {as : List α} (h : EveryStep step P s as)
    (hPQ : ∀ s a, P s a → Q s a) : EveryStep step Q s as := by
  induction as generalizing s with
  | nil => trivial
  | cons a as ih =>
    refine ⟨hPQ s a h.1, ?_⟩
    cases hstep : step s a with
    | none => trivial
    | some t => exact ih (h.cons hstep).2

/-- Each action of a run can be taken where it comes. -/
theorem everyStep_taken {s s' : σ} {as : List α} (hrun : run step s as = some s') :
    EveryStep step (fun s a => ∃ t, step s a = some t) s as := by
  induction as generalizing s with
  | nil => trivial
  | cons a as ih =>
    obtain ⟨t, hstep, hrest⟩ := run_cons hrun
    rw [EveryStep, hstep]
    exact ⟨⟨t, rfl⟩, ih hrest⟩

theorem everyStep_true (s : σ) (as : List α) : EveryStep step (fun _ _ => True) s as :=
  everyStep_of_forall (fun _ _ => trivial) s

section
variable {Inv : σ → Prop} {C : σ → α → Prop}

/-- An invariant of the steps under `C` holds at the end of every run under `C`. -/
theorem run_invariant
    (hpres : ∀ s a s', Inv s → C s a → step s a = some s' → Inv s') {s s' : σ} {as : List α}
    (hinv : Inv s) (hrun : run step s as = some s') (hC : EveryStep step C s as) : Inv s' := by
  induction as generalizing s with
  | nil =>
    cases hrun
    exact hinv
  | cons a as ih =>
    obtain ⟨t, hstep, hrest⟩ := run_cons hrun
    obtain ⟨ha, has⟩ := hC.cons hstep
    exact ih (hpres s a t hinv ha hstep) hrest has

/-- What holds of each step under the invariant and `C` holds along every run under `C`. -/
theorem everyStep_of_invariant
    (hpres : ∀ s a s', Inv s → C s a → step s a = some s' → Inv s') {P : σ → α → Prop}
    (hP : ∀ s a, Inv s → C s a → P s a) {s : σ} {as : List α}
    (hinv : Inv s) (hC : EveryStep step C s as) : EveryStep step P s as := by
  induction as generalizing s with
  | nil => trivial
  | cons a as ih =>
    refine ⟨hP s a hinv hC.1, ?_⟩
    cases hstep : step s a with
    | none => trivial
    | some t => exact ih (hpres s a t hinv hC.1 hstep) (hC.cons hstep).2

/-- Two properties of steps that agree where the invariant holds agree on every run. -/
theorem everyStep_congr
    (hpres : ∀ s a s', Inv s → C s a → step s a = some s' → Inv s') {P : σ → α → Prop}
    (hP : ∀ s a, Inv s → (P s a ↔ C s a)) {s : σ} {as : List α} (hinv : Inv s) :
    EveryStep step P s as ↔ EveryStep step C s as := by
  refine ⟨fun h => ?_, everyStep_of_invariant hpres (fun s a hi => (hP s a hi).mpr) hinv⟩
  refine everyStep_of_invariant (fun s a s' hi hp => ?_) (fun s a hi => (hP s a hi).mp) hinv h
  exact hpres s a s' hi ((hP s a hi).mp hp)

end

end Runs
