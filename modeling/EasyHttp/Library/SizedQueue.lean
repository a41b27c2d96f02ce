import Mathlib.Algebra.BigOperators.Group.List.Basic
import Mathlib.Algebra.GroupWithZero.Nat
import Mathlib.Algebra.Order.Group.Nat
import Mathlib.Data.List.Nodup

/-!
# A queue of sized items within a capacity

The oldest item stands first. An item is admitted at the end, for which as many of the oldest
items leave as are needed; an item with the same key leaves too. An item larger than the
capacity is not admitted.

* `size_enqueue_le`: the capacity is kept;
* `enqueue_sublist`, `foldl_enqueue_sublist`: the items stand in the order they were admitted in;
* `foldl_enqueue_again`: a queue admitted to itself once more is the same, if there is room for each
  of its items a second time.
-/

namespace SizedQueue

variable {κ : Type}

/-- The sizes of all entries together. -/
def size (q : List (κ × ℕ)) : ℕ := (q.map Prod.snd).sum

/-- The keys, from the oldest on. -/
def keys (q : List (κ × ℕ)) : List κ := q.map Prod.fst

/-- As few of the oldest items as reach `excess`. -/
def oldest : ℕ → List (κ × ℕ) → List (κ × ℕ)
  | _, [] => []
  | excess, p :: q => if excess = 0 then [] else p :: oldest (excess - p.2) q

/-- The other items. -/
def dropOldest : ℕ → List (κ × ℕ) → List (κ × ℕ)
  | _, [] => []
  | excess, p :: q => if excess = 0 then p :: q else dropOldest (excess - p.2) q

/-- What is more than the capacity when an item is to be admitted. -/
def excess (capacity : ℕ) (q : List (κ × ℕ)) (p : κ × ℕ) : ℕ := size q + p.2 - capacity

/-- An entry goes to the end if it fits at all: as many of the oldest leave as is needed for that,
and then the old entry of the key. -/
def enqueue [DecidableEq κ] (capacity : ℕ) (q : List (κ × ℕ)) (p : κ × ℕ) : List (κ × ℕ) :=
  if capacity < p.2 then q
  else (dropOldest (excess capacity q p) q).filter (fun r => r.1 ≠ p.1) ++ [p]

variable {q l : List (κ × ℕ)} {p r : κ × ℕ} {n capacity : ℕ}

theorem size_cons : size (p :: q) = p.2 + size q := by
  unfold size
  rw [List.map_cons, List.sum_cons]

theorem size_append : size (q ++ l) = size q + size l := by
  unfold size
  rw [List.map_append, List.sum_append]

/-- The order does not matter. -/
theorem size_perm (h : q.Perm l) : size q = size l := (h.map _).sum_eq

theorem size_sublist (h : q.Sublist l) : size q ≤ size l := by
  induction h with
  | slnil => exact Nat.le_refl _
  | cons p _ ih =>
    rw [size_cons]
    omega
  | cons_cons p _ ih =>
    rw [size_cons, size_cons]
    omega

/-- No entry is larger than all of them together. -/
theorem le_size_of_mem (h : p ∈ q) : p.2 ≤ size q := by
  have hle := size_sublist (List.singleton_sublist.mpr h)
  rw [size_cons] at hle
  omega

theorem dropOldest_zero (q : List (κ × ℕ)) : dropOldest 0 q = q := by
  cases q with
  | nil => rfl
  | cons p q =>
    unfold dropOldest
    rw [if_pos rfl]

theorem oldest_zero (q : List (κ × ℕ)) : oldest 0 q = [] := by
  cases q with
  | nil => rfl
  | cons p q =>
    unfold oldest
    rw [if_pos rfl]

/-- What leaves stood in front of what stays. -/
theorem oldest_append_dropOldest (n : ℕ) (q : List (κ × ℕ)) :
    oldest n q ++ dropOldest n q = q := by
  induction q generalizing n with
  | nil => rfl
  | cons p q ih =>
    unfold oldest dropOldest
    by_cases hzero : n = 0
    · rw [if_pos hzero, if_pos hzero, List.nil_append]
    · rw [if_neg hzero, if_neg hzero, List.cons_append, ih]

/-- As much leaves as is asked for, if there is so much. -/
theorem le_size_oldest (h : n ≤ size q) : n ≤ size (oldest n q) := by
  induction q generalizing n with
  | nil => exact h
  | cons p q ih =>
    rw [size_cons] at h
    unfold oldest
    by_cases hzero : n = 0
    · rw [if_pos hzero]
      omega
    · have hrest := ih (n := n - p.2) (by omega)
      rw [if_neg hzero, size_cons]
      omega

theorem oldest_sublist (n : ℕ) (q : List (κ × ℕ)) : (oldest n q).Sublist q := by
  have h := List.sublist_append_left (oldest n q) (dropOldest n q)
  rwa [oldest_append_dropOldest] at h

theorem dropOldest_sublist (n : ℕ) (q : List (κ × ℕ)) : (dropOldest n q).Sublist q := by
  have h := List.sublist_append_right (oldest n q) (dropOldest n q)
  rwa [oldest_append_dropOldest] at h

/-- So what stays is smaller by that. -/
theorem size_dropOldest (h : n ≤ size q) : size (dropOldest n q) + n ≤ size q := by
  have hsplit : size (oldest n q ++ dropOldest n q) = size q := by
    rw [oldest_append_dropOldest]
  have hle := le_size_oldest h
  rw [size_append] at hsplit
  omega

/-- The oldest item of all is the first to leave. -/
theorem mem_oldest_cons (h : n ≠ 0) : p ∈ oldest n (p :: q) := by
  unfold oldest
  rw [if_neg h]
  exact List.mem_cons_self

/-- Each key leaves or stays. -/
theorem mem_keys_iff (n : ℕ) (q : List (κ × ℕ)) {k : κ} :
    k ∈ keys q ↔ k ∈ keys (oldest n q) ∨ k ∈ keys (dropOldest n q) := by
  have happend := congrArg keys (oldest_append_dropOldest n q)
  unfold keys at happend ⊢
  rw [List.map_append] at happend
  rw [← happend, List.mem_append]

/-- A key that stays does not leave. -/
theorem not_mem_keys_oldest (hnodup : (keys q).Nodup) {k : κ} (hk : k ∈ keys (dropOldest n q)) :
    k ∉ keys (oldest n q) := by
  have happend := congrArg keys (oldest_append_dropOldest n q)
  unfold keys at happend hnodup hk ⊢
  rw [List.map_append] at happend
  rw [← happend] at hnodup
  exact fun hold => (List.nodup_append.mp hnodup).2.2 k hold k hk rfl

/-- What is too much is never more than there is. -/
theorem excess_le_size (hcap : p.2 ≤ capacity) : excess capacity q p ≤ size q := by
  unfold excess
  omega

/-- With room for the item nothing is too much. -/
theorem excess_eq_zero (h : size q + p.2 ≤ capacity) : excess capacity q p = 0 := by
  unfold excess
  omega

/-- With the oldest items gone there is room for the one to be admitted. -/
theorem size_dropOldest_excess (h : p.2 ≤ capacity) :
    size (dropOldest (excess capacity q p) q) + p.2 ≤ capacity := by
  have hdrop := size_dropOldest (excess_le_size (q := q) h)
  have hle := size_sublist (dropOldest_sublist (excess capacity q p) q)
  by_cases hroom : size q + p.2 ≤ capacity
  · omega
  · have hexcess : excess capacity q p = size q + p.2 - capacity := rfl
    omega

section
variable [DecidableEq κ]

/-- An entry larger than the capacity is not taken. -/
theorem enqueue_of_lt (h : capacity < p.2) : enqueue capacity q p = q := by
  unfold enqueue
  rw [if_pos h]

/-- One that fits is. -/
theorem enqueue_of_le (h : p.2 ≤ capacity) : enqueue capacity q p =
    (dropOldest (excess capacity q p) q).filter (fun r => r.1 ≠ p.1) ++ [p] := by
  unfold enqueue
  rw [if_neg (by omega)]

/-- The keys after an entry was taken. -/
theorem mem_keys_enqueue (h : p.2 ≤ capacity) {k : κ} : k ∈ keys (enqueue capacity q p) ↔
    k = p.1 ∨ k ∈ keys (dropOldest (excess capacity q p) q) := by
  unfold keys
  rw [enqueue_of_le h, List.map_append, List.mem_append, List.map_singleton, List.mem_singleton]
  constructor
  · rintro (hold | hnew)
    · exact .inr ((List.filter_sublist.map Prod.fst).mem hold)
    · exact .inl hnew
  · rintro (hnew | hold)
    · exact .inr hnew
    · obtain ⟨r, hr, hrk⟩ := List.mem_map.mp hold
      by_cases hne : r.1 = p.1
      · exact .inr (hrk.symm.trans hne)
      · refine .inl (List.mem_map.mpr ⟨r, List.mem_filter.mpr ⟨hr, ?_⟩, hrk⟩)
        simpa using hne

/-- There is room for the item beside all the others. -/
theorem enqueue_of_room (h : size q + p.2 ≤ capacity) :
    enqueue capacity q p = q.filter (fun r => r.1 ≠ p.1) ++ [p] := by
  rw [enqueue_of_le (by omega), excess_eq_zero h, dropOldest_zero]

/-- Items that are too large are passed over, and for all others there is room. -/
theorem foldl_enqueue_of_room (hnodup : (keys (q ++ l)).Nodup)
    (hroom : size q + size (l.filter fun r => r.2 ≤ capacity) ≤ capacity) :
    l.foldl (enqueue capacity) q = q ++ l.filter fun r => r.2 ≤ capacity := by
  -- induction on what is to come
  induction l generalizing q with
  | nil => exact (List.append_nil q).symm
  | cons p l ih =>
    have hkeys : (keys (q ++ [p] ++ l)).Nodup := by
      rw [List.append_assoc]
      exact hnodup
    rw [List.foldl_cons]
    by_cases hle : p.2 ≤ capacity
    · rw [List.filter_cons_of_pos (by simpa using hle), size_cons] at hroom
      -- the item is new, so nothing of its key leaves
      have hfresh : q.filter (fun r => r.1 ≠ p.1) = q := by
        rw [List.filter_eq_self]
        intro r hr
        have hfirst : (keys q).Disjoint [p.1] := by
          have happend : (keys (q ++ [p])).Nodup :=
            hkeys.sublist ((List.sublist_append_left (q ++ [p]) l).map Prod.fst)
          unfold keys at happend ⊢
          rw [List.map_append] at happend
          exact List.disjoint_of_nodup_append happend
        have hne : r.1 ≠ p.1 := fun heq =>
          hfirst (List.mem_map_of_mem hr) (List.mem_singleton.mpr heq)
        simpa using hne
      have hsingle : size [p] = p.2 := size_cons
      rw [enqueue_of_room (by omega), hfresh, ih hkeys (by rw [size_append, hsingle]; omega),
        List.filter_cons_of_pos (by simpa using hle), List.append_assoc, List.singleton_append]
    · rw [List.filter_cons_of_neg (by simpa using hle)] at hroom
      have hrest : (keys (q ++ l)).Nodup := by
        refine hnodup.sublist (List.Sublist.map Prod.fst ?_)
        exact (List.Sublist.refl q).append (List.sublist_cons_self p l)
      rw [enqueue_of_lt (by omega), ih hrest hroom, List.filter_cons_of_neg (by simpa using hle)]

/-- The capacity is kept. -/
theorem size_enqueue_le (h : size q ≤ capacity) : size (enqueue capacity q p) ≤ capacity := by
  by_cases hlt : capacity < p.2
  · rw [enqueue_of_lt hlt]
    exact h
  · have hle : p.2 ≤ capacity := by omega
    have hkept : size ((dropOldest (excess capacity q p) q).filter fun r => r.1 ≠ p.1) ≤
      size (dropOldest (excess capacity q p) q) := size_sublist List.filter_sublist
    have hroom := size_dropOldest_excess (q := q) hle
    have hsingle : size [p] = p.2 := size_cons
    rw [enqueue_of_le hle, size_append, hsingle]
    omega

/-- It is kept by any number of entries. -/
theorem size_foldl_enqueue_le (l : List (κ × ℕ)) (h : size q ≤ capacity) :
    size (l.foldl (enqueue capacity) q) ≤ capacity := by
  induction l generalizing q with
  | nil => exact h
  | cons p l ih => exact ih (size_enqueue_le h)

/-- The entries stay in the order in which they came. -/
theorem enqueue_sublist (capacity : ℕ) (q : List (κ × ℕ)) (p : κ × ℕ) :
    (enqueue capacity q p).Sublist (q ++ [p]) := by
  unfold enqueue
  split
  · exact List.sublist_append_left q [p]
  · exact (List.filter_sublist.trans (dropOldest_sublist _ q)).append (List.Sublist.refl _)

theorem foldl_enqueue_sublist (capacity : ℕ) (q l : List (κ × ℕ)) :
    (l.foldl (enqueue capacity) q).Sublist (q ++ l) := by
  induction l generalizing q with
  | nil =>
    rw [List.append_nil]
    exact List.Sublist.refl _
  | cons p l ih =>
    have hstep := (enqueue_sublist capacity q p).append (List.Sublist.refl l)
    rw [List.append_assoc, List.singleton_append] at hstep
    exact (ih (enqueue capacity q p)).trans hstep

/-- The items of a list that stand in a part of it are found by their keys. -/
theorem filter_mem_keys (h : q.Sublist l) (hnodup : (keys l).Nodup) :
    l.filter (fun r => r.1 ∈ keys q) = q := by
  induction h with
  | slnil => rfl
  | @cons q l p hsub ih =>
    obtain ⟨hfresh, hrest⟩ := List.nodup_cons.mp hnodup
    have hnot : p.1 ∉ keys q := fun hmem => hfresh ((hsub.map Prod.fst).mem hmem)
    rw [List.filter_cons_of_neg (by simpa using hnot)]
    exact ih hrest
  | @cons_cons q l p hsub ih =>
    obtain ⟨hfresh, hrest⟩ := List.nodup_cons.mp hnodup
    have hin : p.1 ∈ keys (p :: q) := List.mem_cons_self
    rw [List.filter_cons_of_pos (by simpa using hin)]
    congr 1
    refine Eq.trans (List.filter_congr fun r hr => ?_) (ih hrest)
    -- no other item has the key of the first one
    have hne : r.1 ≠ p.1 := fun heq => hfresh (heq ▸ List.mem_map_of_mem hr)
    have hkeys : keys (p :: q) = p.1 :: keys q := rfl
    rw [hkeys]
    simp [hne]

/-- The items of `q` are admitted in their order, while others are too large. -/
theorem foldl_enqueue_rotate {a b : List (κ × ℕ)} (hl : l.filter (fun r => r.2 ≤ capacity) = b)
    (hnodup : (keys (b ++ a)).Nodup) (hroom : ∀ r ∈ b, size (b ++ a) + r.2 ≤ capacity) :
    l.foldl (enqueue capacity) (b ++ a) = a ++ b := by
  -- induction on what is to come, with the queue in two parts
  induction l generalizing a b with
  | nil =>
    have hb : b = [] := hl.symm
    rw [hb, List.append_nil]
    rfl
  | cons p l ih =>
    rw [List.foldl_cons]
    by_cases hle : p.2 ≤ capacity
    · rw [List.filter_cons_of_pos (by simpa using hle)] at hl
      subst hl
      have hkeys := hnodup
      rw [List.cons_append] at hkeys
      -- the item in front of the queue is the one that comes again
      obtain ⟨hfresh, hrest⟩ := List.nodup_cons.mp hkeys
      rw [enqueue_of_room (hroom p List.mem_cons_self)]
      have hothers : ((p :: l.filter fun r => r.2 ≤ capacity) ++ a).filter (fun r => r.1 ≠ p.1) =
          (l.filter fun r => r.2 ≤ capacity) ++ a := by
        rw [List.cons_append, List.filter_cons_of_neg (by simp), List.filter_eq_self]
        intro r hr
        have hne : r.1 ≠ p.1 := fun heq => hfresh (heq ▸ List.mem_map_of_mem hr)
        simpa using hne
      -- the queue has the same items in another order
      have hperm : ((l.filter fun r => r.2 ≤ capacity) ++ (a ++ [p])).Perm
          ((p :: l.filter fun r => r.2 ≤ capacity) ++ a) := by
        rw [← List.append_assoc]
        exact List.perm_append_singleton p _
      rw [hothers, List.append_assoc, ih rfl ((hperm.map Prod.fst).nodup_iff.mpr hnodup)]
      · rw [List.append_assoc, List.singleton_append]
      · intro r hr
        rw [size_perm hperm]
        exact hroom r (List.mem_cons_of_mem p hr)
    · rw [List.filter_cons_of_neg (by simpa using hle)] at hl
      rw [enqueue_of_lt (by omega)]
      exact ih hl hnodup hroom

/-- Of the items that are in the queue or too large, those that are not too large. -/
theorem filter_kept (hsub : q.Sublist l) (hnodup : (keys l).Nodup)
    (hle : ∀ r ∈ q, r.2 ≤ capacity) :
    (l.filter fun r => r.1 ∈ keys q ∨ capacity < r.2).filter (fun r => r.2 ≤ capacity) = q := by
  rw [List.filter_filter]
  refine Eq.trans (List.filter_congr fun r hr => ?_) (filter_mem_keys hsub hnodup)
  by_cases hmem : r.1 ∈ keys q
  · have hrq : r ∈ q := by
      rw [← filter_mem_keys hsub hnodup]
      exact List.mem_filter.mpr ⟨hr, by simpa using hmem⟩
    simp [hmem, hle r hrq]
  · simp [hmem]

/-- A queue admitted to itself once more is the same, if there is room for each item twice. -/
theorem foldl_enqueue_again (hsub : q.Sublist l) (hnodup : (keys l).Nodup)
    (hle : ∀ r ∈ q, r.2 ≤ capacity) (hroom : ∀ r ∈ q, size q + r.2 ≤ capacity) :
    (l.filter fun r => r.1 ∈ keys q ∨ capacity < r.2).foldl (enqueue capacity) q = q := by
  have hrotate := foldl_enqueue_rotate (a := []) (filter_kept hsub hnodup hle)
    (by rw [List.append_nil]; exact hnodup.sublist (hsub.map Prod.fst))
    (by rw [List.append_nil]; exact hroom)
  rwa [List.append_nil] at hrotate

end

end SizedQueue
