import Mathlib.Data.List.Sort
import Mathlib.Order.Basic

/-!
# A map kept as an ascending list of entries

Keys strictly ascend, so each occurs once; `set` overwrites. `ofList` sets the entries of a
list one after another.

* `keys_ofList`: the keys are those of the list;
* `ofList_entries_of_nodup`: if no key is repeated, the entries are the list sorted by key;
* `ofList_entries`: a map built from its own entries is itself;
* `filter_ofList`: a test on keys keeps of the map what it keeps of the list;
* `find?_set`, `find?_erase`: what is found after a change; as functions of the key,
  `find?_set_eq` and `find?_erase_eq`.
-/

variable {κ β : Type*} [LinearOrder κ]

namespace SortedMap

/-- `(k, v)` at its place, overwriting an entry of the same key. -/
def setEntry (k : κ) (v : β) : List (κ × β) → List (κ × β)
  | [] => [(k, v)]
  | e :: l =>
    if k < e.1 then (k, v) :: e :: l else if k = e.1 then (k, v) :: l else e :: setEntry k v l

/-- The keys after an entry was set. -/
theorem mem_keys_setEntry {k k' : κ} {v : β} {l : List (κ × β)} :
    k' ∈ (setEntry k v l).map Prod.fst ↔ k' = k ∨ k' ∈ l.map Prod.fst := by
  induction l with
  | nil => simp [setEntry]
  | cons e l ih =>
    rw [setEntry]
    split_ifs with hlt heq
    · simp
    · simp [heq]
    · rw [List.map_cons, List.mem_cons, ih, List.map_cons, List.mem_cons, or_left_comm]

/-- The keys stay in order. -/
theorem sorted_setEntry (k : κ) (v : β) {l : List (κ × β)}
    (h : (l.map Prod.fst).Pairwise (· < ·)) :
    ((setEntry k v l).map Prod.fst).Pairwise (· < ·) := by
  induction l with
  | nil => simp [setEntry]
  | cons e l ih =>
    rw [List.map_cons, List.pairwise_cons] at h
    obtain ⟨hhead, htail⟩ := h
    rw [setEntry]
    split_ifs with hlt heq
    · rw [List.map_cons, List.pairwise_cons, List.map_cons, List.pairwise_cons]
      refine ⟨fun x hx => ?_, hhead, htail⟩
      rcases List.mem_cons.mp hx with rfl | hx
      · exact hlt
      · exact hlt.trans (hhead x hx)
    · rw [List.map_cons, List.pairwise_cons]
      subst heq
      exact ⟨hhead, htail⟩
    · rw [List.map_cons, List.pairwise_cons]
      refine ⟨fun x hx => ?_, ih htail⟩
      rcases mem_keys_setEntry.mp hx with rfl | hx
      · exact lt_of_le_of_ne (not_lt.mp hlt) (Ne.symm heq)
      · exact hhead x hx

/-- A key that is new only adds its entry. -/
theorem setEntry_perm {k : κ} {v : β} {l : List (κ × β)} (h : k ∉ l.map Prod.fst) :
    (setEntry k v l).Perm ((k, v) :: l) := by
  induction l with
  | nil => rfl
  | cons e l ih =>
    rw [List.map_cons, List.mem_cons, not_or] at h
    rw [setEntry]
    split_ifs with hlt heq
    · exact List.Perm.refl _
    · exact absurd heq h.1
    · exact ((ih h.2).cons e).trans (List.Perm.swap _ _ l)

end SortedMap

/-- A map from `κ` to `β`. -/
structure SortedMap (κ β : Type*) [LinearOrder κ] where
  entries : List (κ × β)
  sorted : (entries.map Prod.fst).Pairwise (· < ·)

namespace SortedMap

instance [DecidableEq β] : DecidableEq (SortedMap κ β) := fun m n =>
  decidable_of_iff (m.entries = n.entries) ⟨fun h => by cases m; cases n; cases h; rfl, congrArg _⟩

/-- A map without entries. -/
def empty : SortedMap κ β := ⟨[], List.Pairwise.nil⟩

/-- The entry of a key is made or replaced. -/
def set (m : SortedMap κ β) (k : κ) (v : β) : SortedMap κ β :=
  ⟨setEntry k v m.entries, sorted_setEntry k v m.sorted⟩

/-- The entries of a list set one after another. -/
def ofList (l : List (κ × β)) : SortedMap κ β := l.foldl (fun m e => m.set e.1 e.2) empty

/-- A map is its entries. -/
theorem ext_entries {m n : SortedMap κ β} (h : m.entries = n.entries) : m = n := by
  cases m
  cases n
  cases h
  rfl

/-- Each key has one entry. -/
theorem nodup_keys (m : SortedMap κ β) : (m.entries.map Prod.fst).Nodup :=
  m.sorted.imp ne_of_lt

theorem mem_keys_foldl_set {k : κ} {l : List (κ × β)} (m : SortedMap κ β) :
    k ∈ (l.foldl (fun m e => m.set e.1 e.2) m).entries.map Prod.fst ↔
      k ∈ m.entries.map Prod.fst ∨ k ∈ l.map Prod.fst := by
  induction l generalizing m with
  | nil => simp
  | cons e l ih =>
    rw [List.foldl_cons, ih, set, mem_keys_setEntry, List.map_cons, List.mem_cons, ← or_assoc,
      or_comm (a := k = e.1)]

/-- The map of a list has the keys of the list. -/
theorem mem_keys_ofList {k : κ} {l : List (κ × β)} :
    k ∈ (ofList l).entries.map Prod.fst ↔ k ∈ l.map Prod.fst := by
  rw [ofList, mem_keys_foldl_set]
  simp [empty]

/-- New keys set one after the other are all there, with what was there before. -/
theorem foldl_set_perm {l : List (κ × β)} (m : SortedMap κ β)
    (h : ((m.entries ++ l).map Prod.fst).Nodup) :
    (l.foldl (fun m e => m.set e.1 e.2) m).entries.Perm (m.entries ++ l) := by
  induction l generalizing m with
  | nil => simp
  | cons e l ih =>
    have hperm : (m.set e.1 e.2).entries.Perm (e :: m.entries) := by
      apply setEntry_perm
      intro hmem
      rw [List.map_append, List.map_cons, List.nodup_append] at h
      exact h.2.2 _ hmem _ List.mem_cons_self rfl
    have hmid : (e :: m.entries ++ l).Perm (m.entries ++ e :: l) := List.perm_middle.symm
    refine (ih (m.set e.1 e.2) ?_).trans ((hperm.append_right l).trans hmid)
    exact (((hperm.append_right l).trans hmid).map Prod.fst).nodup_iff.mpr h

/-- With no key repeated, the map holds the entries of the list. -/
theorem ofList_perm {l : List (κ × β)} (h : (l.map Prod.fst).Nodup) :
    (ofList l).entries.Perm l := foldl_set_perm empty h

/-- Two lists with the same entries and strictly ascending keys are equal. -/
theorem eq_of_perm_of_sorted {l m : List (κ × β)} (hp : l.Perm m)
    (hl : (l.map Prod.fst).Pairwise (· < ·)) (hm : (m.map Prod.fst).Pairwise (· < ·)) : l = m := by
  rw [List.pairwise_map] at hl hm
  exact hp.eq_of_pairwise (fun a b _ _ hab hba => absurd hab hba.asymm) hl hm

/-- A map built from its own entries is itself. -/
theorem ofList_entries (m : SortedMap κ β) : ofList m.entries = m :=
  ext_entries (eq_of_perm_of_sorted (ofList_perm m.nodup_keys) (ofList _).sorted m.sorted)

/-- The list sorted by key, entries of one key in their order. -/
def byKey (l : List (κ × β)) : List (κ × β) := l.insertionSort fun a b => a.1 ≤ b.1

/-- With no key repeated, the entries of the map are the list sorted by key. -/
theorem ofList_entries_of_nodup {l : List (κ × β)} (h : (l.map Prod.fst).Nodup) :
    (ofList l).entries = byKey l := by
  have hsort : (byKey l).Perm l := List.perm_insertionSort _ l
  apply eq_of_perm_of_sorted ((ofList_perm h).trans hsort.symm) (ofList l).sorted
  have hle : ((byKey l).map Prod.fst).Pairwise (· ≤ ·) := by
    rw [List.pairwise_map]
    exact List.pairwise_insertionSort _ l
  have hne : ((byKey l).map Prod.fst).Nodup := ((hsort.map Prod.fst).nodup_iff).mpr h
  exact hle.imp₂ (fun _ _ hab hab' => lt_of_le_of_ne hab hab') hne

/-! ## Lookup and removal -/

/-- The value of a key. -/
def find? (m : SortedMap κ β) (k : κ) : Option β := (m.entries.find? fun e => e.1 = k).map Prod.snd

/-- The map without a key. -/
def erase (m : SortedMap κ β) (k : κ) : SortedMap κ β where
  entries := m.entries.filter fun e => e.1 ≠ k
  sorted := (m.sorted.sublist (List.Sublist.map Prod.fst List.filter_sublist))

@[simp] theorem find?_empty (k : κ) : (empty : SortedMap κ β).find? k = none := rfl

/-- Nothing is found exactly for the keys that are not there. -/
theorem find?_eq_none_iff {m : SortedMap κ β} {k : κ} :
    m.find? k = none ↔ k ∉ m.entries.map Prod.fst := by
  rw [find?, Option.map_eq_none_iff, List.find?_eq_none]
  simp only [decide_eq_true_eq, List.mem_map, not_exists, not_and]

/-- The value found is the one that stands in the map. -/
theorem find?_eq_some_iff {m : SortedMap κ β} {k : κ} {v : β} :
    m.find? k = some v ↔ (k, v) ∈ m.entries := by
  rw [find?, Option.map_eq_some_iff]
  constructor
  · intro h
    obtain ⟨e, he, hv⟩ := h
    have hk : e.1 = k := by simpa using List.find?_some he
    rw [← hk, ← hv]
    exact List.mem_of_find?_eq_some he
  · intro h
    cases hf : m.entries.find? fun e => e.1 = k with
    | none =>
      rw [List.find?_eq_none] at hf
      exact absurd (by simp) (hf (k, v) h)
    | some e =>
      have hk : e.1 = k := by simpa using List.find?_some hf
      refine ⟨e, rfl, ?_⟩
      -- no key stands in the map twice
      have heq : e = (k, v) :=
        List.inj_on_of_nodup_map m.nodup_keys (List.mem_of_find?_eq_some hf) h hk
      rw [heq]

/-- Two maps with the same values are equal. -/
theorem ext_find? {m n : SortedMap κ β} (h : ∀ k, m.find? k = n.find? k) : m = n := by
  have hmem : ∀ e, e ∈ m.entries ↔ e ∈ n.entries := by
    intro e
    have hm : m.find? e.1 = some e.2 ↔ e ∈ m.entries := find?_eq_some_iff
    have hn : n.find? e.1 = some e.2 ↔ e ∈ n.entries := find?_eq_some_iff
    rw [← hm, ← hn, h]
  apply ext_entries
  exact eq_of_perm_of_sorted ((List.perm_ext_iff_of_nodup (List.Nodup.of_map _ m.nodup_keys)
    (List.Nodup.of_map _ n.nodup_keys)).mpr hmem) m.sorted n.sorted

/-- The entries after one was set. -/
theorem mem_setEntry {k : κ} {v : β} {l : List (κ × β)}
    (h : (l.map Prod.fst).Pairwise (· < ·)) {e : κ × β} :
    e ∈ setEntry k v l ↔ e = (k, v) ∨ (e.1 ≠ k ∧ e ∈ l) := by
  -- induction on the list; the key comes before, at, or behind its head
  induction l with
  | nil => simp [setEntry]
  | cons a l ih =>
    rw [List.map_cons, List.pairwise_cons] at h
    obtain ⟨hhead, htail⟩ := h
    have hbelow : ∀ x ∈ l, a.1 < x.1 := fun x hx => hhead _ (List.mem_map_of_mem hx)
    rw [setEntry]
    split_ifs with hlt heq
    -- the key is not in the list yet
    · have hne : ∀ x ∈ a :: l, x.1 ≠ k := by
        intro x hx
        rcases List.mem_cons.mp hx with rfl | hx
        · exact ne_of_gt hlt
        · exact ne_of_gt (hlt.trans (hbelow x hx))
      rw [List.mem_cons]
      constructor
      · intro he
        rcases he with he | he
        · exact .inl he
        · exact .inr ⟨hne e he, he⟩
      · intro he
        rcases he with he | he
        · exact .inl he
        · exact .inr he.2
    · subst heq
      -- the head is replaced, and no other entry has its key
      have hne : ∀ x ∈ l, x.1 ≠ a.1 := fun x hx => ne_of_gt (hbelow x hx)
      rw [List.mem_cons, List.mem_cons]
      constructor
      · intro he
        rcases he with he | he
        · exact .inl he
        · exact .inr ⟨hne e he, .inr he⟩
      · intro he
        rcases he with he | ⟨hk, he | he⟩
        · exact .inl he
        · exact absurd (congrArg Prod.fst he) hk
        · exact .inr he
    · rw [List.mem_cons, ih htail, List.mem_cons]
      constructor
      · intro he
        rcases he with he | he | he
        · refine .inr ⟨?_, .inl he⟩
          rw [he]
          exact Ne.symm heq
        · exact .inl he
        · exact .inr ⟨he.1, .inr he.2⟩
      · intro he
        rcases he with he | ⟨hk, he | he⟩
        · exact .inr (.inl he)
        · exact .inl he
        · exact .inr (.inr ⟨hk, he⟩)

/-- The entries whose keys pass a test, after a change. -/
theorem filter_setEntry (p : κ → Bool) {k : κ} {v : β} {l : List (κ × β)}
    (h : (l.map Prod.fst).Pairwise (· < ·)) :
    (setEntry k v l).filter (fun e => p e.1) =
      if p k then setEntry k v (l.filter fun e => p e.1) else l.filter fun e => p e.1 := by
  induction l with
  | nil =>
    rw [setEntry, List.filter_cons]
    rfl
  | cons a l ih =>
    rw [List.map_cons, List.pairwise_cons] at h
    obtain ⟨hhead, htail⟩ := h
    rw [setEntry]
    -- the entry is put in front of the head
    by_cases hlt : k < a.1
    · rw [if_pos hlt, List.filter_cons]
      by_cases hp : p k = true
      · rw [if_pos hp, if_pos hp]
        -- `k` comes before everything that the test keeps
        cases hkept : (a :: l).filter fun e => p e.1 with
        | nil => rfl
        | cons b kept =>
          have hb : b ∈ a :: l := (List.mem_filter.mp (hkept ▸ List.mem_cons_self)).1
          have hkb : k < b.1 := by
            rcases List.mem_cons.mp hb with rfl | hb
            · exact hlt
            · exact hlt.trans (hhead _ (List.mem_map_of_mem hb))
          rw [setEntry, if_pos hkb]
      · rw [if_neg hp, if_neg hp]
    · rw [if_neg hlt]
      -- the head is replaced
      by_cases heq : k = a.1
      · subst heq
        rw [if_pos rfl, List.filter_cons, List.filter_cons]
        by_cases hp : p a.1 = true
        · rw [if_pos hp, if_pos hp, if_pos hp, setEntry, if_neg hlt, if_pos rfl]
        · rw [if_neg hp, if_neg hp, if_neg hp]
      · rw [if_neg heq, List.filter_cons, List.filter_cons, ih htail]
        by_cases hp : p k = true
        · rw [if_pos hp, if_pos hp]
          by_cases ha : p a.1 = true
          · rw [if_pos ha, if_pos ha, setEntry, if_neg hlt, if_neg heq]
          · rw [if_neg ha, if_neg ha]
        · rw [if_neg hp, if_neg hp]

/-- Entries may be left out by their keys. -/
theorem sorted_filter (m : SortedMap κ β) (p : κ → Bool) :
    ((m.entries.filter fun e => p e.1).map Prod.fst).Pairwise (· < ·) :=
  m.sorted.sublist (List.filter_sublist.map Prod.fst)

/-- A map that is made from a list has no entries but those of the list. -/
theorem mem_of_mem_ofList {e : κ × β} {l : List (κ × β)} (he : e ∈ (ofList l).entries) : e ∈ l := by
  suffices hfold : ∀ m : SortedMap κ β, e ∈ (l.foldl (fun m e => m.set e.1 e.2) m).entries →
      e ∈ m.entries ∨ e ∈ l from (hfold empty he).resolve_left List.not_mem_nil
  clear he
  induction l with
  | nil => exact fun _ h => .inl h
  | cons a l ih =>
    intro m h
    rw [List.mem_cons]
    rcases ih _ h with h | h
    · rcases (mem_setEntry m.sorted).mp h with h | h
      · exact .inr (.inl h)
      · exact .inl h.2
    · exact .inr (.inr h)

/-- What a test on keys keeps of a map is the map of what it keeps of the list. -/
theorem filter_ofList (p : κ → Bool) (l : List (κ × β)) :
    (ofList l).entries.filter (fun e => p e.1) = (ofList (l.filter fun e => p e.1)).entries := by
  suffices hfold : ∀ m n : SortedMap κ β, m.entries.filter (fun e => p e.1) = n.entries →
      (l.foldl (fun m e => m.set e.1 e.2) m).entries.filter (fun e => p e.1) =
        ((l.filter fun e => p e.1).foldl (fun m e => m.set e.1 e.2) n).entries from
    hfold empty empty rfl
  induction l with
  | nil => exact fun _ _ h => h
  | cons e l ih =>
    intro m n h
    rw [List.foldl_cons, List.filter_cons]
    have hset : (m.set e.1 e.2).entries.filter (fun e => p e.1) =
        if p e.1 then setEntry e.1 e.2 n.entries else n.entries := by
      rw [← h]
      exact filter_setEntry p m.sorted
    by_cases hp : p e.1 = true
    · rw [if_pos hp] at hset ⊢
      exact ih _ _ hset
    · rw [if_neg hp] at hset ⊢
      exact ih _ _ hset

/-- What is set is found, and nothing else changes. -/
theorem find?_set (m : SortedMap κ β) (k : κ) (v : β) (k' : κ) :
    (m.set k v).find? k' = if k' = k then some v else m.find? k' := by
  ext w
  rw [find?_eq_some_iff, set, mem_setEntry m.sorted]
  by_cases hk : k' = k
  · rw [if_pos hk, hk]
    simp [eq_comm]
  · rw [if_neg hk, find?_eq_some_iff]
    simp [hk]

/-- What is removed is not found, and nothing else changes. -/
theorem find?_erase (m : SortedMap κ β) (k k' : κ) :
    (m.erase k).find? k' = if k' = k then none else m.find? k' := by
  ext w
  rw [find?_eq_some_iff, erase, List.mem_filter]
  by_cases hk : k' = k
  · simp [hk]
  · rw [if_neg hk, find?_eq_some_iff]
    simp [hk]

theorem find?_set_eq (m : SortedMap κ β) (k : κ) (v : β) :
    (m.set k v).find? = Function.update m.find? k (some v) := by
  funext k'
  rw [find?_set, Function.update_apply]

theorem find?_erase_eq (m : SortedMap κ β) (k : κ) :
    (m.erase k).find? = Function.update m.find? k none := by
  funext k'
  rw [find?_erase, Function.update_apply]

end SortedMap
