import Mathlib.Data.List.Basic
import Mathlib.Tactic.SplitIfs

/-!
# A multimap in a sequential container

Entries stand in a list; two keys are equal when `norm` sends them to one value. An entry
goes behind the first block of entries with an equal key, or to the end.

* `insert`, `erase`, `assign`, `find?`: the operations, as loops over the list;
* `Grouped`: entries with equal keys stand next to each other, which every operation keeps;
* on grouped lists the operations are what they should be: `values_insert`,
  `erase_eq_filter`, `assign_erase`, and `foldl_insert_nil`: a grouped list inserted entry
  by entry is the list itself.
-/

namespace ListMap

variable {κ ν β : Type*} [DecidableEq ν] (norm : κ → ν)

/-- The first entry whose key equals `k`. -/
def find? (k : κ) : List (κ × β) → Option (κ × β)
  | [] => none
  | e :: l => if norm e.1 = norm k then some e else find? k l

/-- `(k, v)` behind the entries at the front whose keys equal `k`. -/
def insertBehind (k : κ) (v : β) : List (κ × β) → List (κ × β)
  | [] => [(k, v)]
  | e :: l => if norm e.1 = norm k then e :: insertBehind k v l else (k, v) :: e :: l

/-- `(k, v)` behind the first block of entries whose keys equal `k`, or at the end. -/
def insert (k : κ) (v : β) : List (κ × β) → List (κ × β)
  | [] => [(k, v)]
  | e :: l => if norm e.1 = norm k then e :: insertBehind norm k v l else e :: insert k v l

/-- The entries at the front whose keys equal `k`, removed. -/
def dropBlock (k : κ) : List (κ × β) → List (κ × β)
  | [] => []
  | e :: l => if norm e.1 = norm k then dropBlock k l else e :: l

/-- The first block of entries whose keys equal `k`, removed. -/
def erase (k : κ) : List (κ × β) → List (κ × β)
  | [] => []
  | e :: l => if norm e.1 = norm k then dropBlock norm k l else e :: erase k l

/-- The value of the first entry whose key equals `k`, overwritten; a new entry if there is
none. -/
def assign (k : κ) (v : β) : List (κ × β) → List (κ × β)
  | [] => [(k, v)]
  | e :: l => if norm e.1 = norm k then (e.1, v) :: l else e :: assign k v l

/-- The values under the keys that are sent to `n`, in order. -/
def values (n : ν) (l : List (κ × β)) : List β := (l.filter fun e => norm e.1 = n).map Prod.snd

/-- The keys as they are compared. -/
def keys (l : List (κ × β)) : List ν := l.map fun e => norm e.1

/-- Entries with equal keys stand next to each other. -/
def Grouped : List (κ × β) → Prop
  | [] => True
  | e :: l => (norm e.1 ∈ keys norm l → (keys norm l).head? = some (norm e.1)) ∧ Grouped l

instance decidableGrouped : (l : List (κ × β)) → Decidable (Grouped norm l)
  | [] => .isTrue trivial
  | _ :: l =>
    have : Decidable (Grouped norm l) := decidableGrouped l
    inferInstanceAs (Decidable (_ ∧ _))

section
omit [DecidableEq ν]

@[simp] theorem keys_nil : keys norm ([] : List (κ × β)) = [] := rfl

@[simp] theorem keys_cons (e : κ × β) (l : List (κ × β)) :
    keys norm (e :: l) = norm e.1 :: keys norm l := rfl

@[simp] theorem keys_append (l m : List (κ × β)) :
    keys norm (l ++ m) = keys norm l ++ keys norm m := List.map_append

end

@[simp] theorem values_nil (n : ν) : values norm n ([] : List (κ × β)) = [] := rfl

@[simp] theorem values_cons (n : ν) (e : κ × β) (l : List (κ × β)) :
    values norm n (e :: l) = if norm e.1 = n then e.2 :: values norm n l else values norm n l := by
  unfold values
  by_cases h : norm e.1 = n <;> simp [h]

/-- A key that is not there has no value. -/
theorem values_eq_nil {n : ν} {l : List (κ × β)} (h : n ∉ keys norm l) : values norm n l = [] := by
  induction l with
  | nil => rfl
  | cons e l ih =>
    rw [keys_cons, List.mem_cons, not_or] at h
    rw [values_cons, if_neg (Ne.symm h.1), ih h.2]

/-! ## Lookup -/

/-- Nothing is found exactly for the keys that are not there. -/
theorem find?_eq_none_iff {k : κ} {l : List (κ × β)} :
    find? norm k l = none ↔ norm k ∉ keys norm l := by
  induction l with
  | nil => simp [find?]
  | cons e l ih =>
    rw [find?, keys_cons, List.mem_cons, not_or, ← ih]
    by_cases h : norm e.1 = norm k
    · simp [h]
    · simp [h, Ne.symm h]

/-! ## Insertion -/

/-- What is found under a key is the first of its values. -/
theorem map_find? (k : κ) (l : List (κ × β)) :
    (find? norm k l).map Prod.snd = (values norm (norm k) l).head? := by
  induction l with
  | nil => rfl
  | cons e l ih =>
    rw [find?, values_cons]
    split_ifs
    · rfl
    · exact ih

/-- The values of other keys stay as they are. -/
theorem values_insertBehind_of_ne {k : κ} {n : ν} (h : norm k ≠ n) (v : β) (l : List (κ × β)) :
    values norm n (insertBehind norm k v l) = values norm n l := by
  induction l with
  | nil => simp [insertBehind, h]
  | cons e l ih =>
    rw [insertBehind]
    split_ifs
    · rw [values_cons, ih, values_cons]
    · rw [values_cons, if_neg h]

/-- An insertion leaves the values of other keys alone. -/
theorem values_insert_of_ne {k : κ} {n : ν} (h : norm k ≠ n) (v : β) (l : List (κ × β)) :
    values norm n (insert norm k v l) = values norm n l := by
  induction l with
  | nil => simp [insert, h]
  | cons e l ih =>
    rw [insert]
    split_ifs
    · rw [values_cons, values_insertBehind_of_ne norm h, values_cons]
    · rw [values_cons, ih, values_cons]

omit [DecidableEq ν] in
/-- In a grouped list no key equals `k` behind a block of keys equal to `k`. -/
theorem notMem_keys_of_grouped {e : κ × β} {l : List (κ × β)} {k : κ}
    (hg : Grouped norm (e :: l)) (he : norm e.1 = norm k) (hl : (keys norm l).head? ≠ some (norm k)) :
    norm k ∉ keys norm l := by
  intro hmem
  apply hl
  rw [← he] at hmem ⊢
  exact hg.1 hmem

/-- The new value comes last among those of its key. -/
theorem values_insertBehind_self {k : κ} (v : β) {e : κ × β} {l : List (κ × β)}
    (hg : Grouped norm (e :: l)) (he : norm e.1 = norm k) :
    values norm (norm k) (insertBehind norm k v l) = values norm (norm k) l ++ [v] := by
  induction l generalizing e with
  | nil => simp [insertBehind]
  | cons f l ih =>
    rw [insertBehind]
    split_ifs with hf
    · rw [values_cons, if_pos hf, ih hg.2 hf, values_cons, if_pos hf, List.cons_append]
    · have hnot : norm k ∉ keys norm (f :: l) := by
        apply notMem_keys_of_grouped norm hg he
        simpa using hf
      rw [values_cons, if_pos rfl, values_eq_nil norm hnot, List.nil_append]

/-- The inserted value comes last among those of its key. -/
theorem values_insert_self (k : κ) (v : β) {l : List (κ × β)} (hg : Grouped norm l) :
    values norm (norm k) (insert norm k v l) = values norm (norm k) l ++ [v] := by
  induction l with
  | nil => simp [insert]
  | cons e l ih =>
    rw [insert]
    split_ifs with he
    · rw [values_cons, if_pos he, values_insertBehind_self norm v hg he, values_cons, if_pos he,
        List.cons_append]
    · rw [values_cons, if_neg he, ih hg.2, values_cons, if_neg he]

/-- An inserted value becomes the last under its key; nothing changes under other keys. -/
theorem values_insert (n : ν) (k : κ) (v : β) {l : List (κ × β)} (hg : Grouped norm l) :
    values norm n (insert norm k v l) = values norm n l ++ values norm n [(k, v)] := by
  by_cases h : norm k = n
  · subst h
    simpa using values_insert_self norm k v hg
  · simpa [h] using values_insert_of_ne norm h v l

/-- An insertion loses nothing and adds one item. -/
theorem insertBehind_perm {k : κ} {v : β} {l : List (κ × β)} :
    (insertBehind norm k v l).Perm ((k, v) :: l) := by
  induction l with
  | nil => exact List.Perm.refl _
  | cons e l ih =>
    rw [insertBehind]
    split_ifs
    · exact (ih.cons e).trans (List.Perm.swap _ _ l)
    · exact List.Perm.refl _

/-- An insertion adds its entry and changes nothing else but the order. -/
theorem insert_perm {k : κ} {v : β} {l : List (κ × β)} :
    (insert norm k v l).Perm ((k, v) :: l) := by
  induction l with
  | nil => exact List.Perm.refl _
  | cons e l ih =>
    rw [insert]
    split_ifs
    · exact ((insertBehind_perm norm).cons e).trans (List.Perm.swap _ _ l)
    · exact (ih.cons e).trans (List.Perm.swap _ _ l)

/-- Items inserted one after the other are all there, with what was there before. -/
theorem foldl_insert_perm (acc l : List (κ × β)) :
    (l.foldl (fun acc e => insert norm e.1 e.2 acc) acc).Perm (acc ++ l) := by
  induction l generalizing acc with
  | nil => rw [List.append_nil, List.foldl_nil]
  | cons e l ih =>
    refine (ih _).trans (((insert_perm norm).append_right l).trans ?_)
    exact List.perm_middle.symm

/-- The items after an insertion are the new one and the old ones. -/
theorem mem_insert {k : κ} {v : β} {x : κ × β} {l : List (κ × β)} :
    x ∈ insert norm k v l ↔ x = (k, v) ∨ x ∈ l := by
  rw [(insert_perm norm).mem_iff, List.mem_cons]

section
omit [DecidableEq ν]

theorem mem_keys {n : ν} {l : List (κ × β)} : n ∈ keys norm l ↔ ∃ e ∈ l, norm e.1 = n := by
  simp [keys]

end

/-- The items of a key stay together when one is put behind them. -/
theorem grouped_insertBehind {k : κ} (v : β) {e : κ × β} {l : List (κ × β)}
    (hg : Grouped norm (e :: l)) (he : norm e.1 = norm k) :
    Grouped norm (insertBehind norm k v l) ∧
      (keys norm (insertBehind norm k v l)).head? = some (norm k) := by
  induction l generalizing e with
  | nil => simp [insertBehind, Grouped]
  | cons f l ih =>
    rw [insertBehind]
    split_ifs with hf
    · obtain ⟨hgrouped, hhead⟩ := ih hg.2 hf
      refine ⟨⟨fun _ => ?_, hgrouped⟩, ?_⟩
      · rw [hhead, hf]
      · rw [keys_cons, List.head?_cons, hf]
    · have hnot : norm k ∉ keys norm (f :: l) := by
        apply notMem_keys_of_grouped norm hg he
        simpa using hf
      exact ⟨⟨fun hmem => absurd hmem hnot, hg.2⟩, rfl⟩

/-- The first key stays the first. -/
theorem head?_insert {k : κ} {n : ν} (v : β) {l : List (κ × β)}
    (h : (keys norm l).head? = some n) : (keys norm (insert norm k v l)).head? = some n := by
  cases l with
  | nil => simp at h
  | cons e l =>
    rw [insert]
    split_ifs <;> simpa using h

/-- The items of a key stay together. -/
theorem grouped_insert (k : κ) (v : β) {l : List (κ × β)} (hg : Grouped norm l) :
    Grouped norm (insert norm k v l) := by
  induction l with
  | nil => simp [insert, Grouped]
  | cons e l ih =>
    rw [insert]
    split_ifs with he
    · obtain ⟨hgrouped, hhead⟩ := grouped_insertBehind norm v hg he
      refine ⟨fun _ => ?_, hgrouped⟩
      rw [hhead, he]
    · refine ⟨fun hmem => ?_, ih hg.2⟩
      apply head?_insert norm v
      apply hg.1
      obtain ⟨x, hx, hxe⟩ := (mem_keys norm).mp hmem
      rcases (mem_insert norm).mp hx with rfl | hx
      · exact absurd hxe.symm he
      · exact (mem_keys norm).mpr ⟨x, hx, hxe⟩

/-! ## Inserting a list entry by entry -/

/-- Of items that are inserted one after the other, the values of a key are in the order of
insertion. -/
theorem values_foldl_insert (n : ν) {acc : List (κ × β)} (hg : Grouped norm acc)
    (l : List (κ × β)) :
    values norm n (l.foldl (fun acc e => insert norm e.1 e.2 acc) acc)
      = values norm n acc ++ values norm n l := by
  induction l generalizing acc with
  | nil => simp
  | cons e l ih =>
    rw [List.foldl_cons, ih (grouped_insert norm e.1 e.2 hg), values_insert norm n e.1 e.2 hg,
      List.append_assoc, values_cons norm n e l]
    congr 1
    by_cases h : norm e.1 = n <;> simp [h]

/-- An item whose key stands last goes to the end. -/
theorem insertBehind_eq_append {k : κ} {v : β} {e : κ × β} {l : List (κ × β)}
    (hg : Grouped norm (e :: (l ++ [(k, v)]))) (he : norm e.1 = norm k) :
    insertBehind norm k v l = l ++ [(k, v)] := by
  induction l generalizing e with
  | nil => rfl
  | cons f l ih =>
    have hf : norm f.1 = norm k := by
      have hhead := hg.1 (by simp [he])
      simpa [he] using hhead
    rw [insertBehind, if_pos hf, ih hg.2 hf, List.cons_append]

/-- Where the list stays grouped with the entry at its end, that is where it goes. -/
theorem insert_eq_append {k : κ} {v : β} {l : List (κ × β)} (hg : Grouped norm (l ++ [(k, v)])) :
    insert norm k v l = l ++ [(k, v)] := by
  induction l with
  | nil => rfl
  | cons e l ih =>
    rw [insert]
    split_ifs with he
    · rw [insertBehind_eq_append norm hg he, List.cons_append]
    · rw [ih hg.2, List.cons_append]

omit [DecidableEq ν] in
/-- In the front of a grouped list the items of a key are together. -/
theorem grouped_of_append {l m : List (κ × β)} (hg : Grouped norm (l ++ m)) : Grouped norm l := by
  induction l with
  | nil => trivial
  | cons e l ih =>
    refine ⟨fun hmem => ?_, ih hg.2⟩
    have hhead := hg.1 (by simp [hmem])
    cases l with
    | nil => simp at hmem
    | cons f l => simpa using hhead

/-- A list that is grouped already is copied in its order. -/
theorem foldl_insert_append {acc l : List (κ × β)} (hg : Grouped norm (acc ++ l)) :
    l.foldl (fun acc e => insert norm e.1 e.2 acc) acc = acc ++ l := by
  induction l generalizing acc with
  | nil => simp
  | cons e l ih =>
    rw [List.append_cons] at hg
    rw [List.foldl_cons, insert_eq_append norm (grouped_of_append norm hg), ih hg, ← List.append_cons]

/-- A grouped list inserted entry by entry is the list itself. -/
theorem foldl_insert_nil {l : List (κ × β)} (hg : Grouped norm l) :
    l.foldl (fun acc e => insert norm e.1 e.2 acc) [] = l :=
  foldl_insert_append norm hg

/-! ## Removal -/

omit [DecidableEq ν] in
/-- Items can be left out by their keys. -/
theorem grouped_filter (p : ν → Bool) {l : List (κ × β)} (hg : Grouped norm l) :
    Grouped norm (l.filter fun e => p (norm e.1)) := by
  induction l with
  | nil => trivial
  | cons e l ih =>
    rw [List.filter_cons]
    split_ifs with he
    · refine ⟨fun hmem => ?_, ih hg.2⟩
      obtain ⟨x, hx, hxe⟩ := (mem_keys norm).mp hmem
      have hhead := hg.1 ((mem_keys norm).mpr ⟨x, (List.mem_filter.mp hx).1, hxe⟩)
      cases l with
      | nil => simp at hhead
      | cons f l =>
        have hf : norm f.1 = norm e.1 := by simpa using hhead
        simp only [List.filter_cons, hf, he, if_true, keys_cons, List.head?_cons]
    · exact ih hg.2

/-- Leaving out a key that is not there changes nothing. -/
theorem filter_eq_self_of_notMem {k : κ} {l : List (κ × β)} (h : norm k ∉ keys norm l) :
    (l.filter fun e => norm e.1 ≠ norm k) = l := by
  rw [List.filter_eq_self]
  intro e he
  have hne : norm e.1 ≠ norm k := fun heq => h ((mem_keys norm).mpr ⟨e, he, heq⟩)
  simpa using hne

/-- In a grouped list the items behind each other are all the items of the key. -/
theorem dropBlock_eq_filter {k : κ} {e : κ × β} {l : List (κ × β)}
    (hg : Grouped norm (e :: l)) (he : norm e.1 = norm k) :
    dropBlock norm k l = l.filter fun e => norm e.1 ≠ norm k := by
  induction l generalizing e with
  | nil => rfl
  | cons f l ih =>
    rw [dropBlock]
    split_ifs with hf
    · rw [ih hg.2 hf]
      simp [hf]
    · have hnot : norm k ∉ keys norm (f :: l) := by
        apply notMem_keys_of_grouped norm hg he
        simpa using hf
      rw [filter_eq_self_of_notMem norm hnot]

/-- Erasing the first block of a grouped list erases the key. -/
theorem erase_eq_filter (k : κ) {l : List (κ × β)} (hg : Grouped norm l) :
    erase norm k l = l.filter fun e => norm e.1 ≠ norm k := by
  induction l with
  | nil => rfl
  | cons e l ih =>
    rw [erase]
    split_ifs with he
    · rw [dropBlock_eq_filter norm hg he]
      simp [he]
    · rw [ih hg.2]
      simp [he]

/-- A new key goes to the end. -/
theorem assign_eq_append {k : κ} {v : β} {l : List (κ × β)} (h : norm k ∉ keys norm l) :
    assign norm k v l = l ++ [(k, v)] := by
  induction l with
  | nil => rfl
  | cons e l ih =>
    rw [keys_cons, List.mem_cons, not_or] at h
    rw [assign, if_neg (Ne.symm h.1), ih h.2, List.cons_append]

/-- Erasing and assigning leaves one entry under the key, at the end. -/
theorem assign_erase (k : κ) (v : β) {l : List (κ × β)} (hg : Grouped norm l) :
    assign norm k v (erase norm k l) = (l.filter fun e => norm e.1 ≠ norm k) ++ [(k, v)] := by
  rw [erase_eq_filter norm k hg]
  apply assign_eq_append
  intro hmem
  obtain ⟨e, he, hek⟩ := (mem_keys norm).mp hmem
  simpa [hek] using (List.mem_filter.mp he).2

omit [DecidableEq ν] in
/-- A new key at the end leaves the list grouped. -/
theorem grouped_append_singleton {k : κ} (v : β) {l : List (κ × β)} (hg : Grouped norm l)
    (h : norm k ∉ keys norm l) : Grouped norm (l ++ [(k, v)]) := by
  induction l with
  | nil => simp [Grouped]
  | cons e l ih =>
    rw [keys_cons, List.mem_cons, not_or] at h
    refine ⟨fun hmem => ?_, ih hg.2 h.2⟩
    have hmem' : norm e.1 ∈ keys norm l := by simpa [Ne.symm h.1] using hmem
    have hhead := hg.1 hmem'
    cases l with
    | nil => simp at hmem'
    | cons f l => simpa using hhead

end ListMap
