import EasyHttp.Library.ExecPost

/-!
# Local objects with destructors

`guarded destructor x` is `x` in the scope of a local object: its destructor runs however the scope
is left, and what `x` has returned or thrown is returned or thrown after it.

* `wp_attempt`, `wp_guarded`: the rules.
-/

namespace Exec

variable {ε σ α : Type} {Q : α → σ → Prop} {E : ε → σ → Prop} {s : σ}

/-- The run of `x`, with what it throws as a value. -/
def attempt (x : Exec ε σ α) : Exec ε σ (Except ε α) := fun s => (.ok (exec x s).1, (exec x s).2)

/-- The scope of a local object. -/
def guarded (destructor : Exec ε σ Unit) (x : Exec ε σ α) : Exec ε σ α := do
  let result ← attempt x
  destructor
  lift result

/-- Nothing is thrown, and the exception is a result. -/
theorem wp_attempt {Q : Except ε α → σ → Prop} {x : Exec ε σ α} :
    wp (attempt x) Q E s ↔ wp x (fun a t => Q (.ok a) t) (fun e t => Q (.error e) t) s := by
  show Q (exec x s).1 (exec x s).2 ↔ _
  unfold wp
  rcases exec x s with ⟨r, t⟩
  cases r <;> rfl

/-- The destructor runs in both cases. -/
theorem wp_guarded {destructor : Exec ε σ Unit} {x : Exec ε σ α} :
    wp (guarded destructor x) Q E s ↔
      wp x (fun a t => wp destructor (fun _ u => Q a u) E t)
        (fun e t => wp destructor (fun _ u => E e u) E t) s := by
  unfold guarded
  rw [wp_bind, wp_attempt]
  have hlift (r : Except ε α) (t : σ) :
      wp (destructor >>= fun _ => lift r) Q E t ↔
        wp destructor (fun _ u => wp (lift r) Q E u) E t := wp_bind
  constructor
  · intro h
    refine wp_mono h (fun a t ht => ?_) fun e t ht => ?_
    · refine wp_mono ((hlift (.ok a) t).mp ht) (fun _ u hu => ?_) fun _ _ he => he
      exact (wp_lift.mp hu).1 a rfl
    · refine wp_mono ((hlift (.error e) t).mp ht) (fun _ u hu => ?_) fun _ _ he => he
      exact (wp_lift.mp hu).2 e rfl
  · intro h
    refine wp_mono h (fun a t ht => (hlift (.ok a) t).mpr ?_)
      fun e t ht => (hlift (.error e) t).mpr ?_
    · exact wp_mono ht (fun _ u hu => wp_pure.mpr hu) fun _ _ he => he
    · exact wp_mono ht (fun _ u hu => wp_throw.mpr hu) fun _ _ he => he

end Exec
