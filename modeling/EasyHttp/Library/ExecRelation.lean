import EasyHttp.Library.Store

/-!
# Two runs side by side

`Relates R Q x y`: from states related by `R`, the runs of `x` and `y` leave states related by
`R`, and they throw the same exception or return values related by `Q`. There is one rule for
each construct of `Exec` and of `Store`.
-/

namespace Exec

variable {ε σ τ α β γ δ : Type}

/-- The same exception, or values related by `Q`. -/
def ResultRel (Q : α → β → Prop) : Except ε α → Except ε β → Prop
  | .ok a, .ok b => Q a b
  | .error e, .error e' => e = e'
  | _, _ => False

theorem ResultRel.of_eq {x y : Except ε α} (h : x = y) : ResultRel Eq x y := by
  subst h
  cases x <;> rfl

theorem ResultRel.eq {x y : Except ε α} (h : ResultRel Eq x y) : x = y := by
  cases x <;> cases y <;> first | exact h.elim | exact congrArg _ h

/-- `x` and `y` take related states to related states and results. -/
def Relates (R : σ → τ → Prop) (Q : α → β → Prop) (x : Exec ε σ α) (y : Exec ε τ β) : Prop :=
  ∀ s t, R s t → ResultRel Q (exec x s).1 (exec y t).1 ∧ R (exec x s).2 (exec y t).2

section
variable {R : σ → τ → Prop} {Q : α → β → Prop}

theorem relates_pure {a : α} {b : β} (h : Q a b) :
    Relates R Q (pure a : Exec ε σ α) (pure b) :=
  fun _ _ hst => ⟨h, hst⟩

theorem relates_throw (e : ε) : Relates R Q (throw e : Exec ε σ α) (throw e) :=
  fun _ _ hst => ⟨rfl, hst⟩

theorem relates_lift {x : Except ε α} {y : Except ε β} (h : ResultRel Q x y) :
    Relates R Q (lift x) (lift y) :=
  fun _ _ hst => ⟨h, hst⟩

theorem relates_getState : Relates R R (getState : Exec ε σ σ) getState :=
  fun _ _ hst => ⟨hst, hst⟩

/-- What is related is followed by what is related for all related results. -/
theorem relates_bind {Q' : γ → δ → Prop} {x : Exec ε σ α} {y : Exec ε τ β}
    {f : α → Exec ε σ γ} {g : β → Exec ε τ δ} (hxy : Relates R Q x y)
    (hfg : ∀ a b, Q a b → Relates R Q' (f a) (g b)) : Relates R Q' (x >>= f) (y >>= g) := by
  intro s t hst
  obtain ⟨hres, hstate⟩ := hxy s t hst
  rw [exec_bind, exec_bind]
  rcases hx : exec x s with ⟨r, s'⟩
  rcases hy : exec y t with ⟨r', t'⟩
  rw [hx, hy] at hres hstate
  cases r with
  | ok a =>
    cases r' with
    | ok b => exact hfg a b hres s' t' hstate
    | error e => exact hres.elim
  | error e =>
    cases r' with
    | ok b => exact hres.elim
    | error e' => exact ⟨hres, hstate⟩

end

end Exec

namespace Store

open Exec

variable {ε α : Type} [Inhabited α]

/-- Stores of the same size with related cells. -/
def Related (R : α → α → Prop) (s t : Store α) : Prop :=
  s.next = t.next ∧ ∀ p, R (s.deref p) (t.deref p)

/-- The cells after an allocation. -/
theorem deref_alloc_eq (s : Store α) (a : α) (p : ℕ) :
    (s.alloc a).deref p = if p = s.next then a else s.deref p := by
  by_cases hp : p = s.next
  · rw [if_pos hp, hp, deref_alloc_next]
  rw [if_neg hp]
  by_cases hlt : p < s.next
  · exact deref_alloc hlt a
  · have hge : s.cells.length + 1 ≤ p := by
      unfold next at hp hlt
      omega
    have hnew : (s.cells ++ [a])[p]? = none := by
      rw [List.getElem?_eq_none_iff, List.length_append, List.length_singleton]
      exact hge
    have hold : s.cells[p]? = none := List.getElem?_eq_none (by omega)
    show (s.cells ++ [a]).getD p default = s.cells.getD p default
    rw [List.getD_eq_getElem?_getD, List.getD_eq_getElem?_getD, hnew, hold]

/-- The cells after a write; a write to a cell that does not exist does nothing. -/
theorem deref_write_eq (s : Store α) (p : ℕ) (a : α) (q : ℕ) :
    (s.write p a).deref q = if p = q ∧ p < s.next then a else s.deref q := by
  by_cases hpq : p = q
  · subst hpq
    by_cases hlt : p < s.next
    · rw [if_pos ⟨rfl, hlt⟩, deref_write_self hlt]
    · rw [if_neg (by simp [hlt])]
      have hge : s.cells.length ≤ p := by
        unfold next at hlt
        omega
      simp [deref, write, hge]
  · rw [if_neg (by simp [hpq]), deref_write_of_ne s hpq]

section
variable {R : α → α → Prop} {s t : Store α}

/-- Stores stay related when related values are allocated. -/
theorem Related.alloc (h : Related R s t) {a b : α} (hab : R a b) :
    Related R (s.alloc a) (t.alloc b) := by
  refine ⟨by rw [next_alloc, next_alloc, h.1], fun p => ?_⟩
  rw [deref_alloc_eq, deref_alloc_eq, h.1]
  split
  · exact hab
  · exact h.2 p

/-- Stores stay related when related values are written to the same cell. -/
theorem Related.write (h : Related R s t) (p : ℕ) {a b : α} (hab : R a b) :
    Related R (s.write p a) (t.write p b) := by
  refine ⟨by rw [next_write, next_write, h.1], fun q => ?_⟩
  rw [deref_write_eq, deref_write_eq, h.1]
  split
  · exact hab
  · exact h.2 q

theorem relates_readCell (p : ℕ) :
    Relates (Related R) R (readCell p : Exec ε (Store α) α) (readCell p) :=
  fun _ _ hst => ⟨hst.2 p, hst⟩

/-- The new cells have the same address. -/
theorem relates_newCell {a b : α} (hab : R a b) :
    Relates (Related R) Eq (newCell a : Exec ε (Store α) ℕ) (newCell b) :=
  fun _ _ hst => ⟨hst.1, hst.alloc hab⟩

end

end Store
