import EasyHttp.Library.Exec

/-!
# Cells shared by reference

A `Store α` holds cells by address. `alloc` makes a new cell, `write` overwrites one, and
neither changes what another address reads.
-/

/-- Cells by address. -/
structure Store (α : Type) where
  cells : List α
deriving DecidableEq

namespace Store

variable {α : Type} [Inhabited α]

/-- The cell at an address. -/
def deref (s : Store α) (p : ℕ) : α := s.cells.getD p default

/-- The address of the next new cell. -/
def next (s : Store α) : ℕ := s.cells.length

/-- The store with one more cell, at `s.next`. -/
def alloc (s : Store α) (a : α) : Store α := ⟨s.cells ++ [a]⟩

/-- The cell at an address, overwritten. -/
def write (s : Store α) (p : ℕ) (a : α) : Store α := ⟨s.cells.set p a⟩

section
omit [Inhabited α]

@[simp] theorem next_alloc (s : Store α) (a : α) : (s.alloc a).next = s.next + 1 := by
  simp [alloc, next]

@[simp] theorem next_write (s : Store α) (p : ℕ) (a : α) : (s.write p a).next = s.next := by
  simp [write, next]

end

@[simp] theorem deref_alloc_next (s : Store α) (a : α) : (s.alloc a).deref s.next = a := by
  simp [alloc, next, deref]

/-- An allocation leaves the old cells alone. -/
theorem deref_alloc {s : Store α} {p : ℕ} (hp : p < s.next) (a : α) :
    (s.alloc a).deref p = s.deref p := by
  unfold next at hp
  simp [alloc, deref, List.getElem?_append_left hp]

/-- What is written is read. -/
theorem deref_write_self {s : Store α} {p : ℕ} (hp : p < s.next) (a : α) :
    (s.write p a).deref p = a := by
  unfold next at hp
  simp [write, deref, hp]

/-- A write leaves the other cells alone. -/
theorem deref_write_of_ne (s : Store α) {p q : ℕ} (hpq : p ≠ q) (a : α) :
    (s.write p a).deref q = s.deref q := by
  simp [write, deref, List.getElem?_set_ne hpq]

/-- A write to a cell that does not exist does nothing. -/
theorem deref_write_of_le {s : Store α} {p : ℕ} (hp : s.next ≤ p) (a : α) (q : ℕ) :
    (s.write p a).deref q = s.deref q := by
  unfold next at hp
  rw [write, List.set_eq_of_length_le hp]

/-- `t` has every cell of `s` as it was, and perhaps more cells. -/
def Extends (s t : Store α) : Prop := s.next ≤ t.next ∧ ∀ p < s.next, t.deref p = s.deref p

theorem Extends.refl (s : Store α) : s.Extends s := ⟨Nat.le_refl _, fun _ _ => rfl⟩

theorem Extends.trans {s t u : Store α} (hst : s.Extends t) (htu : t.Extends u) : s.Extends u := by
  refine ⟨Nat.le_trans hst.1 htu.1, fun p hp => ?_⟩
  rw [htu.2 p (Nat.lt_of_lt_of_le hp hst.1), hst.2 p hp]

instance : Std.Refl (@Extends α _) := ⟨Extends.refl⟩

instance : IsTrans (Store α) Extends := ⟨fun _ _ _ => Extends.trans⟩

/-- An allocation only adds a cell. -/
theorem extends_alloc (s : Store α) (a : α) : s.Extends (s.alloc a) :=
  ⟨by rw [next_alloc]; exact Nat.le_succ _, fun _ hp => deref_alloc hp a⟩

/-! ## Code over a store -/

variable {ε : Type}

/-- `new`: the address of a new cell. -/
def newCell (a : α) : Exec ε (Store α) ℕ := fun s => (.ok s.next, s.alloc a)

/-- What is in the cell. -/
def readCell (p : ℕ) : Exec ε (Store α) α := fun s => (.ok (s.deref p), s)

/-- The cell with a new value. -/
def writeCell (p : ℕ) (a : α) : Exec ε (Store α) Unit := fun s => (.ok (), s.write p a)

omit [Inhabited α] in
theorem exec_newCell (a : α) (s : Store α) :
    Exec.exec (newCell a : Exec ε (Store α) ℕ) s = (.ok s.next, s.alloc a) := rfl

/-- To make a cell only adds to the store. -/
theorem keeps_newCell (a : α) : Exec.Keeps Extends (newCell a : Exec ε (Store α) ℕ) :=
  fun s => extends_alloc s a

theorem keeps_readCell (p : ℕ) : Exec.Keeps Extends (readCell p : Exec ε (Store α) α) :=
  fun s => Extends.refl s

theorem exec_readCell (p : ℕ) (s : Store α) :
    Exec.exec (readCell p : Exec ε (Store α) α) s = (.ok (s.deref p), s) := rfl

omit [Inhabited α] in
theorem exec_writeCell (p : ℕ) (a : α) (s : Store α) :
    Exec.exec (writeCell p a : Exec ε (Store α) Unit) s = (.ok (), s.write p a) := rfl

end Store
