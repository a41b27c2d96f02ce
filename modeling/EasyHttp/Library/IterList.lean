import Mathlib.Data.List.Basic
import Mathlib.Data.List.Nodup

/-!
# A list whose elements are reached by iterators

`IterList α` is a `std::list`: an iterator names one element for as long as it is in the list,
whatever is inserted or erased elsewhere. Iterators are numbers that are given out once.

* `deref_pushFront`, `deref_erase`, `deref_assign`: what an iterator reaches after a change;
* `mem_values_iff`: the elements are what the iterators reach;
* `values_perm_erase`, `values_perm_assign`: which elements there are after a change.
-/

/-- The elements from front to back, each with its iterator. -/
structure IterList (α : Type) where
  nodes : List (ℕ × α)
  /-- the iterator of the next element to come -/
  next : ℕ
  nodup : (nodes.map Prod.fst).Nodup
  lt_next : ∀ n ∈ nodes, n.1 < next

namespace IterList

variable {α : Type}

/-- A list without nodes. -/
def empty : IterList α := ⟨[], 0, List.nodup_nil, fun _ h => absurd h List.not_mem_nil⟩

/-- What is in the list, without the positions. -/
def values (l : IterList α) : List α := l.nodes.map Prod.snd

/-- The element an iterator reaches. -/
def deref (l : IterList α) (it : ℕ) : Option α :=
  (l.nodes.find? fun n => n.1 = it).map Prod.snd

/-- The list with one more element in front, reached by `l.next`. -/
def pushFront (l : IterList α) (a : α) : IterList α where
  nodes := (l.next, a) :: l.nodes
  next := l.next + 1
  nodup := by
    rw [List.map_cons, List.nodup_cons]
    refine ⟨fun hmem => ?_, l.nodup⟩
    obtain ⟨n, hn, hnext⟩ := List.mem_map.mp hmem
    exact absurd hnext (Nat.ne_of_lt (l.lt_next n hn))
  lt_next := by
    intro n hn
    rcases List.mem_cons.mp hn with rfl | hn
    · exact Nat.lt_succ_self _
    · exact Nat.lt_succ_of_lt (l.lt_next n hn)

/-- The list without the element of an iterator. -/
def erase (l : IterList α) (it : ℕ) : IterList α where
  nodes := l.nodes.filter fun n => n.1 ≠ it
  next := l.next
  nodup := l.nodup.sublist (List.Sublist.map Prod.fst List.filter_sublist)
  lt_next := fun n hn => l.lt_next n (List.mem_of_mem_filter hn)

/-- The element of an iterator overwritten. -/
def assign (l : IterList α) (it : ℕ) (a : α) : IterList α where
  nodes := l.nodes.map fun n => if n.1 = it then (it, a) else n
  next := l.next
  nodup := by
    rw [List.map_map]
    refine (List.map_congr_left fun n _ => ?_).symm ▸ l.nodup
    show (if n.1 = it then (it, a) else n).1 = n.1
    split_ifs with h
    · exact h.symm
    · rfl
  lt_next := by
    intro n hn
    obtain ⟨m, hm, rfl⟩ := List.mem_map.mp hn
    split_ifs with h
    · exact h ▸ l.lt_next m hm
    · exact l.lt_next m hm

/-- A position is valid exactly while its node is in the list. -/
theorem deref_eq_some_iff {l : IterList α} {it : ℕ} {a : α} :
    l.deref it = some a ↔ (it, a) ∈ l.nodes := by
  rw [deref, Option.map_eq_some_iff]
  constructor
  · rintro ⟨n, hn, rfl⟩
    have hit : n.1 = it := by simpa using List.find?_some hn
    rw [← hit]
    exact List.mem_of_find?_eq_some hn
  · intro h
    cases hf : l.nodes.find? fun n => n.1 = it with
    | none =>
      rw [List.find?_eq_none] at hf
      exact absurd (by simp) (hf (it, a) h)
    | some n =>
      have hit : n.1 = it := by simpa using List.find?_some hf
      have heq : n = (it, a) :=
        List.inj_on_of_nodup_map l.nodup (List.mem_of_find?_eq_some hf) h hit
      exact ⟨n, rfl, by rw [heq]⟩

/-- Each value has a position. -/
theorem mem_values_iff {l : IterList α} {a : α} : a ∈ l.values ↔ ∃ it, l.deref it = some a := by
  unfold values
  rw [List.mem_map]
  constructor
  · rintro ⟨n, hn, rfl⟩
    exact ⟨n.1, deref_eq_some_iff.mpr hn⟩
  · rintro ⟨it, h⟩
    exact ⟨(it, a), deref_eq_some_iff.mp h, rfl⟩

/-- The iterator to come reaches nothing yet. -/
theorem deref_lt_next {l : IterList α} {it : ℕ} {a : α} (h : l.deref it = some a) :
    it < l.next := l.lt_next _ (deref_eq_some_iff.mp h)

/-- A new node leaves the other positions valid. -/
theorem deref_pushFront (l : IterList α) (a : α) (it : ℕ) :
    (l.pushFront a).deref it = if it = l.next then some a else l.deref it := by
  ext b
  rw [deref_eq_some_iff, pushFront, List.mem_cons]
  by_cases h : it = l.next
  · rw [if_pos h]
    constructor
    · rintro (hnew | hold)
      · exact congrArg (fun n => some n.2) hnew.symm
      · exact absurd h (Nat.ne_of_lt (l.lt_next _ hold))
    · rintro ⟨⟩
      exact .inl (by rw [h])
  · rw [if_neg h, deref_eq_some_iff]
    constructor
    · rintro (hnew | hold)
      · exact absurd (congrArg Prod.fst hnew) h
      · exact hold
    · exact .inr

/-- So does the removal of a node, its own apart. -/
theorem deref_erase (l : IterList α) (it it' : ℕ) :
    (l.erase it).deref it' = if it' = it then none else l.deref it' := by
  ext b
  rw [deref_eq_some_iff, erase, List.mem_filter]
  by_cases h : it' = it
  · simp [h]
  · rw [if_neg h, deref_eq_some_iff]
    simp [h]

/-- What is assigned is found under the position, and nothing else changes. -/
theorem deref_assign {l : IterList α} {it : ℕ} {b : α} (hb : l.deref it = some b) (a : α)
    (it' : ℕ) : (l.assign it a).deref it' = if it' = it then some a else l.deref it' := by
  ext c
  rw [deref_eq_some_iff, assign, List.mem_map]
  -- the node itself, or another one
  by_cases h : it' = it
  · rw [if_pos h]
    constructor
    · rintro ⟨n, hn, heq⟩
      by_cases hit : n.1 = it
      · rw [if_pos hit] at heq
        exact congrArg (fun n => some n.2) heq
      · rw [if_neg hit] at heq
        exact absurd ((congrArg Prod.fst heq).trans h) hit
    · rintro ⟨⟩
      exact ⟨(it, b), deref_eq_some_iff.mp hb, by rw [if_pos rfl, h]⟩
  · rw [if_neg h, deref_eq_some_iff]
    constructor
    · rintro ⟨n, hn, heq⟩
      by_cases hit : n.1 = it
      · rw [if_pos hit] at heq
        exact absurd (congrArg Prod.fst heq).symm h
      · rw [if_neg hit] at heq
        exact heq ▸ hn
    · intro hc
      exact ⟨(it', c), hc, if_neg h⟩

/-! ## The elements after a change -/

/-- An entry stands in front of the others. -/
theorem perm_cons_filter {it : ℕ} {a : α} {nodes : List (ℕ × α)}
    (hnodup : (nodes.map Prod.fst).Nodup) (hmem : (it, a) ∈ nodes) :
    nodes.Perm ((it, a) :: nodes.filter fun n => n.1 ≠ it) := by
  -- induction on the nodes; the one with the iterator is first, or further behind
  induction nodes with
  | nil => exact absurd hmem List.not_mem_nil
  | cons n nodes ih =>
    rw [List.map_cons, List.nodup_cons] at hnodup
    obtain ⟨hhead, htail⟩ := hnodup
    by_cases hn : n.1 = it
    · have heq : n = (it, a) := by
        rcases List.mem_cons.mp hmem with heq | hin
        · exact heq.symm
        · exact absurd (hn ▸ List.mem_map_of_mem hin) hhead
      -- no other entry has the iterator
      have hrest : nodes.filter (fun n => n.1 ≠ it) = nodes := by
        rw [List.filter_eq_self]
        intro m hm
        have hne : m.1 ≠ it := fun h => hhead (hn ▸ h ▸ List.mem_map_of_mem hm)
        simpa using hne
      rw [List.filter_cons_of_neg (by simpa using hn), hrest, heq]
    · have hin : (it, a) ∈ nodes := by
        rcases List.mem_cons.mp hmem with heq | hin
        · exact absurd (congrArg Prod.fst heq).symm hn
        · exact hin
      rw [List.filter_cons_of_pos (by simpa using hn)]
      exact ((ih htail hin).cons n).trans (List.Perm.swap _ _ _)

/-- The removed value and the others are all there was. -/
theorem values_perm_erase {l : IterList α} {it : ℕ} {a : α} (h : l.deref it = some a) :
    l.values.Perm (a :: (l.erase it).values) :=
  (perm_cons_filter l.nodup (deref_eq_some_iff.mp h)).map Prod.snd

theorem values_pushFront (l : IterList α) (a : α) : (l.pushFront a).values = a :: l.values := rfl

/-- Erasing forgets what was assigned. -/
theorem values_erase_assign (l : IterList α) (it : ℕ) (a : α) :
    ((l.assign it a).erase it).values = (l.erase it).values := by
  show (((l.nodes.map fun n => if n.1 = it then (it, a) else n).filter fun n => n.1 ≠ it).map
    Prod.snd) = (l.nodes.filter fun n => n.1 ≠ it).map Prod.snd
  induction l.nodes with
  | nil => rfl
  | cons n nodes ih =>
    by_cases hn : n.1 = it
    · simpa [hn] using ih
    · simpa [hn] using ih

theorem values_perm_assign {l : IterList α} {it : ℕ} {b : α} (h : l.deref it = some b) (a : α) :
    (l.assign it a).values.Perm (a :: (l.erase it).values) := by
  have hassigned : (l.assign it a).deref it = some a := by rw [deref_assign h, if_pos rfl]
  rw [← values_erase_assign l it a]
  exact values_perm_erase hassigned

end IterList
