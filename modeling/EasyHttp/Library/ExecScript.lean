import EasyHttp.Library.Exec

/-!
# Runs whose environment answers as one likes

The state of a program may hold a script: what its environment answers to the calls to come.
`may put x Q s`: some answers at the front of the script `put` into `s` take `x` to a value and a
state that `Q` holds of, whatever is to come after them. There is one rule for each construct.

* `may_mono`: consequence;
* `may_bind`: the answers of the first part come before those of the second;
* `may_forEach`: a loop, by what each of its rounds can keep.
-/

namespace Exec

variable {ε σ τ φ α β γ : Type} {put : σ → List φ → σ} {Q Q' : α → σ → Prop} {s : σ}

/-- Some answers take `x` from `s` to an end as `Q` says, and are used up then. -/
def may (put : σ → List φ → σ) (x : Exec ε σ α) (Q : α → σ → Prop) (s : σ) : Prop :=
  ∃ answers a t, Q a t ∧ ∀ later, exec x (put s (answers ++ later)) = (.ok a, put t later)

/-- What may be reached may be reached with less known of it. -/
theorem may_mono {x : Exec ε σ α} (h : may put x Q s) (hQ : ∀ a t, Q a t → Q' a t) :
    may put x Q' s := by
  obtain ⟨answers, a, t, hQt, hrun⟩ := h
  exact ⟨answers, a, t, hQ a t hQt, hrun⟩

/-- Code that asks for no answer. -/
theorem may_of_exec {x : Exec ε σ α} {a : α} {t : σ}
    (hrun : ∀ script, exec x (put s script) = (.ok a, put t script)) (hQ : Q a t) :
    may put x Q s := ⟨[], a, t, hQ, hrun⟩

/-- Code that asks for one answer. -/
theorem may_of_exec_cons {x : Exec ε σ α} {a : α} {t : σ} (answer : φ)
    (hrun : ∀ script, exec x (put s (answer :: script)) = (.ok a, put t script)) (hQ : Q a t) :
    may put x Q s := ⟨[answer], a, t, hQ, hrun⟩

theorem may_pure {a : α} (hQ : Q a s) : may put (pure a : Exec ε σ α) Q s :=
  may_of_exec (fun _ => rfl) hQ

/-- The second computation goes on with the answers that the first has left. -/
theorem may_bind {x : Exec ε σ α} {f : α → Exec ε σ β} {Q : β → σ → Prop}
    (h : may put x (fun a t => may put (f a) Q t) s) : may put (x >>= f) Q s := by
  obtain ⟨first, a, t, ⟨second, b, u, hQ, hf⟩, hx⟩ := h
  refine ⟨first ++ second, b, u, hQ, fun later => ?_⟩
  rw [List.append_assoc, exec_bind_ok (hx _), hf]

/-- What code reads of the state does not depend on the script. -/
theorem may_getState {f : σ → Exec ε σ α} (hf : ∀ script, f (put s script) = f s)
    (h : may put (f s) Q s) : may put (getState >>= f) Q s := by
  obtain ⟨answers, a, t, hQ, hrun⟩ := h
  refine ⟨answers, a, t, hQ, fun later => ?_⟩
  rw [exec_bind_ok (exec_getState _), hf, hrun]

/-- A change of the state that does not touch the script. -/
theorem may_modifyState {f : σ → σ} {Q : Unit → σ → Prop}
    (hf : ∀ script, f (put s script) = put (f s) script) (hQ : Q () (f s)) :
    may put (modifyState f : Exec ε σ Unit) Q s :=
  may_of_exec (fun script => by rw [exec_modifyState, hf]) hQ

/-- Code over a part of the state that holds the script. -/
theorem may_zoom (putPart : τ → List φ → τ) {part : σ → τ} {set : σ → τ → σ} {x : Exec ε τ α}
    (hpart : ∀ script, part (put s script) = putPart (part s) script)
    (hset : ∀ t script later, set (put s script) (putPart t later) = put (set s t) later)
    (h : may putPart x (fun a t => Q a (set s t)) (part s)) :
    may put (zoom part set x) Q s := by
  obtain ⟨answers, a, t, hQ, hrun⟩ := h
  refine ⟨answers, a, set s t, hQ, fun later => ?_⟩
  rw [exec_zoom, hpart, hrun, hset]

/-- What each round can keep, the loop can. -/
theorem may_forEach {I : σ → Prop} {f : γ → Exec ε σ Unit} (l : List γ)
    (hf : ∀ c ∈ l, ∀ s, I s → may put (f c) (fun _ t => I t) s) (h : I s) :
    may put (forEach f l) (fun _ t => I t) s := by
  induction l generalizing s with
  | nil => exact may_pure h
  | cons c l ih =>
    refine may_bind (may_mono (hf c List.mem_cons_self s h) fun _ t ht => ?_)
    exact ih (fun d hd => hf d (List.mem_cons_of_mem _ hd)) ht

end Exec
