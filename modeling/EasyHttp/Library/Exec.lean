import Mathlib.Data.List.Basic
import Mathlib.Order.Defs.Unbundled

/-!
# Code over a state that may end in an exception

`Exec ε σ α` is code that reads and writes a state in `σ` and returns a value in `α` or throws
an exception in `ε`; what was written before an exception stays. `exec x s` runs it. The
lemmas run one construct each, so that a run is followed step by step without unfolding the
monad.
-/

/-- Code over a state in `σ` that may throw an exception in `ε`. -/
abbrev Exec (ε σ α : Type) := ExceptT ε (StateM σ) α

namespace Exec

variable {ε σ α β : Type}

/-- The result of a run and the state it leaves. -/
def exec (x : Exec ε σ α) (s : σ) : Except ε α × σ := x s

/-- Code that leaves the state alone. -/
def lift (x : Except ε α) : Exec ε σ α := fun s => (x, s)

/-- The state as it is. -/
def getState : Exec ε σ σ := fun s => (.ok s, s)

/-- The state replaced. -/
def modifyState (f : σ → σ) : Exec ε σ Unit := fun s => (.ok (), f s)

/-- `x`, and `handler` with the state it left if it throws. -/
def tryCatch (x : Exec ε σ α) (handler : ε → Exec ε σ α) : Exec ε σ α := fun s =>
  match x s with
  | (.ok a, s') => (.ok a, s')
  | (.error e, s') => handler e s'

/-- Code over a part of the state. -/
def zoom {τ : Type} (get : σ → τ) (put : σ → τ → σ) (x : Exec ε τ α) : Exec ε σ α := fun s =>
  ((exec x (get s)).1, put s (exec x (get s)).2)

/-- `f` for one element of a list after another. -/
def forEach {γ : Type} (f : γ → Exec ε σ Unit) : List γ → Exec ε σ Unit
  | [] => pure ()
  | c :: l => do
    f c
    forEach f l

/-- A result of two computations that may throw, one after the other. -/
theorem exists_of_bind_ok {x : Except ε α} {f : α → Except ε β} {b : β}
    (h : x >>= f = .ok b) : ∃ a, x = .ok a ∧ f a = .ok b := by
  cases x with
  | error e => cases h
  | ok a => exact ⟨a, rfl, h⟩

/-- A mapped result is one that came out before the map. -/
theorem map_eq_ok {f : α → β} {x : Except ε α} {b : β} :
    x.map f = .ok b ↔ ∃ a, x = .ok a ∧ f a = b := by
  cases x <;> simp [Except.map]

instance {x : Except ε α} {P : α → Prop} [DecidablePred P] : Decidable (∀ a, x = .ok a → P a) :=
  match x with
  | .ok a => decidable_of_iff (P a) ⟨fun h b hb => by cases hb; exact h, fun h => h a rfl⟩
  | .error _ => .isTrue nofun

theorem mapError_eq_ok {ε' : Type} {f : ε → ε'} {x : Except ε α} {a : α} :
    x.mapError f = .ok a ↔ x = .ok a := by
  cases x <;> simp [Except.mapError]

/-- A fold whose steps throw at some elements and nowhere else throws if one of them is there. -/
theorem foldlM_guard {γ : Type} {f : α → γ → Except ε α} {g : α → γ → α} {ok : γ → Prop}
    [DecidablePred ok] {e : ε} (hf : ∀ a c, f a c = if ok c then .ok (g a c) else .error e)
    (l : List γ) (a : α) :
    l.foldlM f a = if ∀ c ∈ l, ok c then .ok (l.foldl g a) else .error e := by
  induction l generalizing a with
  | nil => simp [pure, Except.pure]
  | cons c l ih =>
    rw [List.foldlM_cons, hf, List.foldl_cons]
    simp only [List.forall_mem_cons]
    by_cases hc : ok c
    · rw [if_pos hc]
      simp only [hc, true_and]
      exact ih (g a c)
    · rw [if_neg hc, if_neg fun h => hc h.1]
      rfl

theorem exec_pure (a : α) (s : σ) : exec (pure a : Exec ε σ α) s = (.ok a, s) := rfl

theorem exec_lift (x : Except ε α) (s : σ) : exec (lift x) s = (x, s) := rfl

theorem exec_getState (s : σ) : exec (getState : Exec ε σ σ) s = (.ok s, s) := rfl

theorem exec_modifyState (f : σ → σ) (s : σ) :
    exec (modifyState f : Exec ε σ Unit) s = (.ok (), f s) := rfl

/-- Two computations in a row; an exception ends the first, and the state is the one it left. -/
theorem exec_bind (x : Exec ε σ α) (f : α → Exec ε σ β) (s : σ) :
    exec (x >>= f) s = match exec x s with
      | (.ok a, s') => exec (f a) s'
      | (.error e, s') => (.error e, s') := by
  show (match x s with | (r, s') => ExceptT.bindCont f r s') = _
  unfold exec
  rcases x s with ⟨r, s'⟩
  cases r <;> rfl

theorem exec_bind_ok {x : Exec ε σ α} {f : α → Exec ε σ β} {s s' : σ} {a : α}
    (h : exec x s = (.ok a, s')) : exec (x >>= f) s = exec (f a) s' := by
  rw [exec_bind, h]

theorem exec_bind_error {x : Exec ε σ α} {f : α → Exec ε σ β} {s s' : σ} {e : ε}
    (h : exec x s = (.error e, s')) : exec (x >>= f) s = (.error e, s') := by
  rw [exec_bind, h]

/-- The handler starts in the state in which the exception was thrown. -/
theorem exec_tryCatch (x : Exec ε σ α) (handler : ε → Exec ε σ α) (s : σ) :
    exec (tryCatch x handler) s = match exec x s with
      | (.ok a, s') => (.ok a, s')
      | (.error e, s') => exec (handler e) s' := rfl

/-- A computation on a part of the state. -/
theorem exec_zoom {τ : Type} (get : σ → τ) (put : σ → τ → σ) (x : Exec ε τ α) (s : σ) :
    exec (zoom get put x) s = ((exec x (get s)).1, put s (exec x (get s)).2) := rfl

/-- A value that is not read. -/
theorem exec_discard (x : Exec ε σ α) (b : β) (s : σ) :
    (exec (x >>= fun _ => pure b) s).2 = (exec x s).2 := by
  rw [exec_bind]
  rcases exec x s with ⟨r, s'⟩
  cases r <;> rfl

/-! ## What a run preserves -/

/-- Every run of `x` takes its state to a related one. -/
def Keeps (R : σ → σ → Prop) (x : Exec ε σ α) : Prop := ∀ s, R s (exec x s).2

section
variable {R : σ → σ → Prop}

/-- A change of the state that keeps the relation everywhere. -/
theorem keeps_modifyState {f : σ → σ} (hf : ∀ s, R s (f s)) :
    Keeps R (modifyState f : Exec ε σ Unit) := fun s => hf s

section
variable [Std.Refl R]

theorem keeps_pure (a : α) : Keeps R (pure a : Exec ε σ α) := fun s => Std.Refl.refl s

theorem keeps_throw (e : ε) : Keeps R (throw e : Exec ε σ α) := fun s => Std.Refl.refl s

theorem keeps_lift (x : Except ε α) : Keeps R (lift x : Exec ε σ α) := fun s => Std.Refl.refl s

theorem keeps_getState : Keeps R (getState : Exec ε σ σ) := fun s => Std.Refl.refl s

end

/-- Code that begins by reading the state. -/
theorem keeps_getState_bind {f : σ → Exec ε σ β} (hf : ∀ s, R s (exec (f s) s).2) :
    Keeps R (getState >>= f) := fun s => hf s

/-- What keeps a relation keeps a weaker one. -/
theorem Keeps.mono {Q : σ → σ → Prop} {x : Exec ε σ α} (hx : Keeps Q x)
    (hQ : ∀ s t, Q s t → R s t) : Keeps R x := fun s => hQ s _ (hx s)

section
variable [IsTrans σ R]

/-- Of two computations in a row, where the relation can be put together. -/
theorem keeps_bind {x : Exec ε σ α} {f : α → Exec ε σ β} (hx : Keeps R x)
    (hf : ∀ a, Keeps R (f a)) : Keeps R (x >>= f) := by
  intro s
  have hs := hx s
  rw [exec_bind]
  rcases hrun : exec x s with ⟨r, s'⟩
  rw [hrun] at hs
  cases r with
  | ok a => exact trans_of R hs (hf a s')
  | error e => exact hs

/-- Of a loop over a list. -/
theorem keeps_forEach [Std.Refl R] {γ : Type} {f : γ → Exec ε σ Unit} (hf : ∀ c, Keeps R (f c))
    (l : List γ) : Keeps R (forEach f l) := by
  induction l with
  | nil => exact keeps_pure _
  | cons c l ih => exact keeps_bind (hf c) fun _ => ih

/-- With an exception handler, which goes on from where the exception was thrown. -/
theorem keeps_tryCatch {x : Exec ε σ α} {handler : ε → Exec ε σ α} (hx : Keeps R x)
    (hh : ∀ e, Keeps R (handler e)) : Keeps R (tryCatch x handler) := by
  intro s
  have hs := hx s
  rw [exec_tryCatch]
  rcases hrun : exec x s with ⟨r, s'⟩
  rw [hrun] at hs
  cases r with
  | ok a => exact hs
  | error e => exact trans_of R hs (hh e s')

end

end

end Exec
