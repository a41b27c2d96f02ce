import EasyHttp.Library.Exec

/-!
# Postconditions of code over a state

`wp x Q E s`: the run of `x` from `s` ends with a value and a state that `Q` holds of, or with an
exception and a state that `E` holds of. There is one rule for each construct; the rules for
`pure`, `bind` and the other primitives are equivalences, so that code is taken apart from the
front by rewriting.

* `wp_mono`, `wp_and`: consequence and conjunction;
* `wp_forEach`: a loop, by what holds before each of the elements still to come;
* `keeps_iff_wp`, `wp_of_keeps`: what every run preserves.
-/

namespace Exec

variable {ε σ α β : Type} {Q Q' : α → σ → Prop} {E E' : ε → σ → Prop} {s : σ}

/-- The run of `x` from `s` ends as `Q` says, or throws as `E` says. -/
def wp (x : Exec ε σ α) (Q : α → σ → Prop) (E : ε → σ → Prop) (s : σ) : Prop :=
  match exec x s with
  | (.ok a, t) => Q a t
  | (.error e, t) => E e t

theorem wp_pure {a : α} : wp (pure a) Q E s ↔ Q a s := Iff.rfl

theorem wp_throw {e : ε} : wp (throw e) Q E s ↔ E e s := Iff.rfl

theorem wp_getState {Q : σ → σ → Prop} : wp getState Q E s ↔ Q s s := Iff.rfl

theorem wp_modifyState {Q : Unit → σ → Prop} {f : σ → σ} :
    wp (modifyState f) Q E s ↔ Q () (f s) := Iff.rfl

/-- A result that does not look at the state. -/
theorem wp_lift {x : Except ε α} :
    wp (lift x) Q E s ↔ (∀ a, x = .ok a → Q a s) ∧ ∀ e, x = .error e → E e s := by
  cases x <;> simp [wp, exec_lift]

/-- Of two computations in a row the first has the postcondition that the second one ends well. -/
theorem wp_bind {x : Exec ε σ α} {f : α → Exec ε σ β} {Q : β → σ → Prop} :
    wp (x >>= f) Q E s ↔ wp x (fun a t => wp (f a) Q E t) E s := by
  unfold wp
  rw [exec_bind]
  rcases exec x s with ⟨r, t⟩
  cases r <;> exact Iff.rfl

/-- Where the exception leads is what the handler is for. -/
theorem wp_tryCatch {x : Exec ε σ α} {handler : ε → Exec ε σ α} :
    wp (tryCatch x handler) Q E s ↔ wp x Q (fun e t => wp (handler e) Q E t) s := by
  unfold wp
  rw [exec_tryCatch]
  rcases exec x s with ⟨r, t⟩
  cases r <;> exact Iff.rfl

/-- A handler that throws another exception. -/
theorem wp_tryCatch_throw {x : Exec ε σ α} {f : ε → ε} :
    wp (tryCatch x fun e => throw (f e)) Q E s ↔ wp x Q (fun e t => E (f e) t) s := wp_tryCatch

/-- On a part of the state the postconditions speak of the whole. -/
theorem wp_zoom {τ : Type} {get : σ → τ} {put : σ → τ → σ} {x : Exec ε τ α} :
    wp (zoom get put x) Q E s ↔
      wp x (fun a t => Q a (put s t)) (fun e t => E e (put s t)) (get s) := by
  unfold wp
  rw [exec_zoom]
  rcases exec x (get s) with ⟨r, t⟩
  cases r <;> exact Iff.rfl

/-- Postconditions may be weakened. -/
theorem wp_mono {x : Exec ε σ α} (h : wp x Q E s) (hQ : ∀ a t, Q a t → Q' a t)
    (hE : ∀ e t, E e t → E' e t) : wp x Q' E' s := by
  unfold wp at h ⊢
  rcases hrun : exec x s with ⟨r, t⟩
  rw [hrun] at h
  cases r with
  | ok a => exact hQ a t h
  | error e => exact hE e t h

/-- Two postconditions are proved one after the other. -/
theorem wp_and {x : Exec ε σ α} (h : wp x Q E s) (h' : wp x Q' E' s) :
    wp x (fun a t => Q a t ∧ Q' a t) (fun e t => E e t ∧ E' e t) s := by
  unfold wp at h h' ⊢
  rcases hrun : exec x s with ⟨r, t⟩
  rw [hrun] at h h'
  cases r with
  | ok a => exact ⟨h, h'⟩
  | error e => exact ⟨h, h'⟩

theorem wp_trivial (x : Exec ε σ α) (s : σ) : wp x (fun _ _ => True) (fun _ _ => True) s := by
  unfold wp
  split <;> trivial

/-- The run itself, for what follows it. -/
theorem wp_self (x : Exec ε σ α) (s : σ) :
    wp x (fun a t => exec x s = (.ok a, t)) (fun e t => exec x s = (.error e, t)) s := by
  unfold wp
  rcases exec x s with ⟨r, t⟩
  cases r <;> rfl

/-- A value that was returned. -/
theorem wp_ok {x : Exec ε σ α} {a : α} {t : σ} (h : wp x Q E s) (hrun : exec x s = (.ok a, t)) :
    Q a t := by
  unfold wp at h
  rw [hrun] at h
  exact h

/-- An exception that was thrown. -/
theorem wp_error {x : Exec ε σ α} {e : ε} {t : σ} (h : wp x Q E s)
    (hrun : exec x s = (.error e, t)) : E e t := by
  unfold wp at h
  rw [hrun] at h
  exact h

/-- The one value that can be returned. -/
theorem exec_eq_ok {x : Exec ε σ α} {a : α} (h : wp x (fun b _ => b = a) (fun _ _ => False) s) :
    (exec x s).1 = .ok a := by
  unfold wp at h
  rcases hrun : exec x s with ⟨r, t⟩
  rw [hrun] at h
  cases r with
  | ok b => exact congrArg Except.ok h
  | error e => exact h.elim

/-- The one run. -/
theorem exec_eq {x : Exec ε σ α} {a : α} {t : σ}
    (h : wp x (fun b u => b = a ∧ u = t) (fun _ _ => False) s) : exec x s = (.ok a, t) := by
  unfold wp at h
  rcases hrun : exec x s with ⟨r, u⟩
  rw [hrun] at h
  cases r with
  | ok b =>
    obtain ⟨rfl, rfl⟩ := h
    rfl
  | error e => exact h.elim

/-- What holds of the result and the state together. -/
theorem wp_result {x : Exec ε σ α} {P : Except ε α → σ → Prop}
    (h : wp x (fun a t => P (.ok a) t) (fun e t => P (.error e) t) s) :
    P (exec x s).1 (exec x s).2 := by
  unfold wp at h
  rcases hrun : exec x s with ⟨r, t⟩
  rw [hrun] at h
  cases r with
  | ok a => exact h
  | error e => exact h

/-- What holds however the run ends. -/
theorem wp_final {x : Exec ε σ α} {P : σ → Prop} (h : wp x (fun _ t => P t) (fun _ t => P t) s) :
    P (exec x s).2 := by
  unfold wp at h
  rcases hrun : exec x s with ⟨r, t⟩
  rw [hrun] at h
  cases r with
  | ok a => exact h
  | error e => exact h

/-- A loop: `I l` holds while the elements of `l` are still to come. -/
theorem wp_forEach {γ : Type} {f : γ → Exec ε σ Unit} {I : List γ → σ → Prop}
    (hf : ∀ c l s, I (c :: l) s → wp (f c) (fun _ t => I l t) E s) {l : List γ} (h : I l s) :
    wp (forEach f l) (fun _ t => I [] t) E s := by
  induction l generalizing s with
  | nil => exact h
  | cons c l ih => exact wp_bind.mpr (wp_mono (hf c l s h) (fun _ t ht => ih ht) fun _ _ he => he)

/-- A loop over two lists in a row is two loops. -/
theorem wp_forEach_append {γ : Type} {f : γ → Exec ε σ Unit} {l m : List γ}
    {Q : Unit → σ → Prop} :
    wp (forEach f (l ++ m)) Q E s ↔
      wp (forEach f l) (fun _ t => wp (forEach f m) Q E t) E s := by
  induction l generalizing s with
  | nil => rfl
  | cons c l ih =>
    show wp (f c >>= fun _ => forEach f (l ++ m)) Q E s ↔ wp (f c >>= fun _ => forEach f l) _ E s
    rw [wp_bind, wp_bind]
    constructor
    · intro h
      exact wp_mono h (fun _ t ht => ih.mp ht) fun _ _ he => he
    · intro h
      exact wp_mono h (fun _ t ht => ih.mpr ht) fun _ _ he => he

/-- To keep a relation is to have it as postcondition, with and without an exception. -/
theorem keeps_iff_wp {R : σ → σ → Prop} {x : Exec ε σ α} :
    Keeps R x ↔ ∀ s, wp x (fun _ t => R s t) (fun _ t => R s t) s := by
  refine ⟨fun h s => ?_, fun h s => wp_final (h s)⟩
  have hs := h s
  unfold wp
  rcases hrun : exec x s with ⟨r, t⟩
  rw [hrun] at hs
  cases r with
  | ok a => exact hs
  | error e => exact hs

theorem wp_of_keeps {R : σ → σ → Prop} {x : Exec ε σ α} (h : Keeps R x) (s : σ) :
    wp x (fun _ t => R s t) (fun _ t => R s t) s := keeps_iff_wp.mp h s

end Exec
