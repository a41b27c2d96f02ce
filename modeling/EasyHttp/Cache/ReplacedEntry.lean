import EasyHttp.Cache.ExactSpace

/-!
# What an update evicts

When an entry grows, `addOrUpdate` makes space for its whole new size, as for an entry that is
added. The old size is released afterwards, and the entry itself may be among those chosen.

* `Replaces`: an update evicts the shortest run of other entries, and succeeds if it can;
* `SparesOlder`: the sizes for which `makeSpace` chooses no more than that;
* `takeWhile_append_filter`: the list around the entry that is updated;
* `wp_addOrUpdate_evicts`: what an update that grows evicts;
* `replaces_iff`: an update evicts no more than it should if and only if `SparesOlder` holds.
-/

namespace EasyHttp.ReplacedEntry

open CacheInfo Exec LruCacheByDataSizeStrategy LruOperations LruCapacity ExactSpace

variable {ε ω ι : Type} [CacheInfo ι]

/-! ## What should happen -/

/-- The other entries, from the least recently used one on. -/
def others (lru : LruCacheByDataSizeStrategy ι) (key : String) : List ι :=
  lru.lruList.values.reverse.filter fun info => getKey info ≠ key

/-- The entry of the key fits with its new size when the first `k` of the others are gone. -/
def Fits (lru : LruCacheByDataSizeStrategy ι) (key : String) (old info : ι) (k : ℕ) : Prop :=
  lru.totalSize.toNat - (getDataSize old).toNat + (getDataSize info).toNat ≤
    lru.maxSize.toNat + sizes ((others lru key).take k)

/-- The first `k` of the other entries are enough, and no fewer are. -/
structure Shortest (lru : LruCacheByDataSizeStrategy ι) (key : String) (old info : ι) (k : ℕ) :
    Prop where
  fits : Fits lru key old info k
  least : ∀ j < k, ¬Fits lru key old info j

/-- An update evicts the shortest run of other entries for which the new size fits, and succeeds.
Where no run is enough it evicts none. -/
def Replaces (listener : LruListener ε ω ι) (s : LruCacheByDataSizeStrategy ι × ω) (key : String)
    (old info : ι) : Prop :=
  ∃ ret t, exec (update (virtuals listener) listener key info) s = (.ok ret, t) ∧
    if getDataSize info ≤ s.1.maxSize then
      ret = true ∧ ∃ k, Shortest s.1 key old info k ∧ others t.1 key = (others s.1 key).drop k
    else others t.1 key = others s.1 key

/-! ## When it happens -/

/-- The entries that were used before the entry of the key. -/
def older (lru : LruCacheByDataSizeStrategy ι) (key : String) : List ι :=
  lru.lruList.values.reverse.takeWhile fun info => getKey info ≠ key

/-- No part of the older entries would be enough with the old size, and not without it. -/
def SparesOlder (lru : LruCacheByDataSizeStrategy ι) (key : String) (old info : ι) : Prop :=
  ∀ j < (older lru key).length,
    lru.maxSize.toNat + sizes ((older lru key).take j) <
        lru.totalSize.toNat - (getDataSize old).toNat + (getDataSize info).toNat ∨
      lru.totalSize.toNat + (getDataSize info).toNat ≤
        lru.maxSize.toNat + sizes ((older lru key).take j)

/-- The condition on an update that grows. When the total and the new size do not fit into 64 bits,
nothing is evicted. -/
def Spares (lru : LruCacheByDataSizeStrategy ι) (key : String) (old info : ι) : Prop :=
  getDataSize old < getDataSize info →
    if lru.totalSize.toNat + (getDataSize info).toNat < 2 ^ 64 then SparesOlder lru key old info
    else lru.maxSize < getDataSize info ∨ Fits lru key old info 0

section
variable (lru : LruCacheByDataSizeStrategy ι) (key : String) (old info : ι)

instance : Decidable (SparesOlder lru key old info) :=
  inferInstanceAs (Decidable (∀ j < (older lru key).length, _ ∨ _))

instance (k : ℕ) : Decidable (Fits lru key old info k) := inferInstanceAs (Decidable (_ ≤ _))

instance : Decidable (Spares lru key old info) := by
  unfold Spares
  infer_instance

end

/-! ## The list around an entry -/

/-- A list that holds an element of the key once. -/
theorem takeWhile_append_filter {l : List ι} {old : ι} (hmem : old ∈ l)
    (hnodup : (l.map getKey).Nodup) :
    ∃ newer, l = l.takeWhile (fun i => getKey i ≠ getKey old) ++ old :: newer ∧
      l.filter (fun i => getKey i ≠ getKey old) =
        l.takeWhile (fun i => getKey i ≠ getKey old) ++ newer := by
  induction l with
  | nil => cases hmem
  | cons i l ih =>
    rw [List.map_cons, List.nodup_cons] at hnodup
    obtain ⟨hhead, htail⟩ := hnodup
    by_cases hkey : getKey i = getKey old
    · have hnotin : old ∉ l := fun h => hhead (hkey ▸ List.mem_map_of_mem h)
      have heq : old = i := (List.mem_cons.mp hmem).resolve_right hnotin
      have hall : ∀ j ∈ l, getKey j ≠ getKey old := by
        intro j hj h
        rw [hkey, ← h] at hhead
        exact hhead (List.mem_map_of_mem hj)
      refine ⟨l, ?_, ?_⟩
      · rw [List.takeWhile_cons_of_neg (by simpa using hkey), heq]
        rfl
      · rw [List.takeWhile_cons_of_neg (by simpa using hkey),
          List.filter_cons_of_neg (by simpa using hkey), List.nil_append]
        exact List.filter_eq_self.mpr fun j hj => by simpa using hall j hj
    · have hne : old ≠ i := fun h => hkey (h ▸ rfl)
      obtain ⟨newer, hsplit, hfilter⟩ := ih ((List.mem_cons.mp hmem).resolve_left hne) htail
      refine ⟨newer, ?_, ?_⟩
      · rw [List.takeWhile_cons_of_pos (by simpa using hkey), List.cons_append, ← hsplit]
      · rw [List.takeWhile_cons_of_pos (by simpa using hkey),
          List.filter_cons_of_pos (by simpa using hkey), hfilter, List.cons_append]

/-! ## The choice -/

theorem sizes_append (l l' : List ι) : sizes (l ++ l') = sizes l + sizes l' := by
  unfold sizes
  rw [List.map_append, List.sum_append]

theorem sizes_take_le {l : List ι} {j k : ℕ} (h : j ≤ k) : sizes (l.take j) ≤ sizes (l.take k) :=
  sizes_sublist (List.take_sublist_take_left h)

/-- Of a list with `old` between `a` and `b` the first elements have been taken, as few as reach
`need`: how many of the other elements are among them, and what these reach. -/
theorem others_of_taken {a b : List ι} {old : ι} {need k : ℕ}
    (henough : need ≤ sizes ((a ++ old :: b).take k))
    (hleast : ∀ j < k, sizes ((a ++ old :: b).take j) < need) :
    ∃ e, (∀ i ∈ a ++ b, i ≠ old → (i ∈ (a ++ old :: b).take k ↔ i ∈ (a ++ b).take e)) ∧
      need ≤ sizes ((a ++ b).take e) + (getDataSize old).toNat ∧
      (need ≤ sizes ((a ++ b).take e) ∨ a.length ≤ e) ∧
      ∀ j < e, sizes ((a ++ b).take j) < need ∧
        (a.length ≤ j → sizes ((a ++ b).take j) + (getDataSize old).toNat < need) := by
  -- in front of `old` both lists are the same
  have hfront : ∀ j ≤ a.length, (a ++ old :: b).take j = (a ++ b).take j := by
    intro j hj
    rw [List.take_append_of_le_length hj, List.take_append_of_le_length hj]
  -- behind it they are shifted by one
  have hback : ∀ m, (a ++ old :: b).take (a.length + 1 + m) = a ++ old :: b.take m := by
    intro m
    rw [List.take_append, List.take_of_length_le (by omega),
      show a.length + 1 + m - a.length = m + 1 by omega, List.take_succ_cons]
  have hrest : ∀ m, (a ++ b).take (a.length + m) = a ++ b.take m := by
    intro m
    rw [List.take_append, List.take_of_length_le (by omega),
      show a.length + m - a.length = m by omega]
  -- `old` is not among the first `k`
  by_cases hk : k ≤ a.length
  · rw [hfront k hk] at henough
    refine ⟨k, fun i _ _ => by rw [hfront k hk], by omega, .inl henough, fun j hj => ?_⟩
    have hj' := hleast j hj
    rw [hfront j (by omega)] at hj'
    exact ⟨hj', fun h => by omega⟩
  · -- `old` is among them
    obtain ⟨m, rfl⟩ : ∃ m, k = a.length + 1 + m := ⟨k - (a.length + 1), by omega⟩
    have hsizes : ∀ m, sizes (a ++ old :: b.take m) =
        sizes (a ++ b.take m) + (getDataSize old).toNat := by
      intro m
      rw [sizes_append, sizes_append, sizes_cons]
      omega
    rw [hback, hsizes] at henough
    refine ⟨a.length + m, fun i _ hne => ?_, ?_, .inr (by omega), fun j hj => ?_⟩
    · rw [hback, hrest]
      simp [hne]
    · rw [hrest]
      exact henough
    -- fewer would not have been enough, in front of `old` and behind it
    · by_cases hj' : j ≤ a.length
      · have hlt := hleast j (by omega)
        rw [hfront j hj'] at hlt
        refine ⟨hlt, fun h => ?_⟩
        have heq : j = a.length + 0 := by omega
        have hlt' := hleast (a.length + 1 + 0) (by omega)
        rw [hback, hsizes] at hlt'
        rw [heq, hrest]
        exact hlt'
      · obtain ⟨i, rfl⟩ : ∃ i, j = a.length + i := ⟨j - a.length, by omega⟩
        have hlt := hleast (a.length + 1 + i) (by omega)
        rw [hback, hsizes] at hlt
        rw [hrest]
        exact ⟨by omega, fun _ => hlt⟩

omit [CacheInfo ι] in
/-- To leave out the front is to drop it. -/
theorem filter_eq_drop {l : List ι} {p : ι → Bool} {e : ℕ} (hnodup : l.Nodup)
    (hp : ∀ i ∈ l, p i = true ↔ i ∉ l.take e) : l.filter p = l.drop e := by
  have hdisjoint : ∀ i ∈ l.take e, i ∉ l.drop e := by
    rw [← List.take_append_drop e l] at hnodup
    exact fun i hi hi' => (List.nodup_append.mp hnodup).2.2 i hi i hi' rfl
  have htake : (l.take e).filter p = [] := by
    refine List.filter_eq_nil_iff.mpr fun i hi hpi => ?_
    exact (hp i (List.mem_of_mem_take hi)).mp hpi hi
  have hdrop : (l.drop e).filter p = l.drop e := by
    refine List.filter_eq_self.mpr fun i hi => ?_
    exact (hp i (List.mem_of_mem_drop hi)).mpr fun hi' => hdisjoint i hi' hi
  calc l.filter p = (l.take e ++ l.drop e).filter p := by rw [List.take_append_drop]
    _ = (l.take e).filter p ++ (l.drop e).filter p := List.filter_append ..
    _ = l.drop e := by rw [htake, hdrop, List.nil_append]

section
variable {listener : LruListener ε ω ι} {s : LruCacheByDataSizeStrategy ι × ω} {key : String}
  {old info : ι} {lru : LruCacheByDataSizeStrategy ι}

/-- A new entry of the key leaves the others as they were. -/
theorem others_push (h : lru.Wf) (hkey : getKey info = key) :
    others (lru.push key info) key = others lru key := by
  unfold others
  rw [h.values_push, List.reverse_cons, List.filter_append,
    List.filter_cons_of_neg (by simpa using hkey), List.filter_nil, List.append_nil,
    ← List.filter_reverse, List.filter_filter]
  simp

/-- They are different. -/
theorem nodup_others (h : lru.Wf) : (others lru key).Nodup := by
  have hnodup : lru.lruList.values.Nodup := (nodup_keys h).of_map getKey
  exact (List.nodup_reverse.mpr hnodup).filter _

/-- The total is the entry of the key with the others. -/
theorem total_eq (h : Exact lru) (hentry : lru.entry key = some old) :
    lru.totalSize.toNat = (getDataSize old).toNat + sizes (others lru key) := by
  obtain ⟨hmem, rfl⟩ := h.wf.entry_eq_some_iff.mp hentry
  have hnodup : (lru.lruList.values.reverse.map getKey).Nodup := by
    rw [List.map_reverse]
    exact List.nodup_reverse.mpr (nodup_keys h.wf)
  obtain ⟨newer, hsplit, hothers⟩ := takeWhile_append_filter (List.mem_reverse.mpr hmem) hnodup
  rw [h.total, ← sizes_perm lru.lruList.values.reverse_perm, hsplit, sizes_append, sizes_cons]
  unfold others
  rw [hothers, sizes_append]
  omega

/-- What an update evicts that grows, when there is not enough space as it is: enough with the old
size, and, as far as the older entries go, no more than would be enough without it. -/
structure Evicts (s t : LruCacheByDataSizeStrategy ι) (key : String) (old : ι) (need e : ℕ) :
    Prop where
  others_eq : others t key = (others s key).drop e
  enough : need ≤ sizes ((others s key).take e) + (getDataSize old).toNat
  reaches : need ≤ sizes ((others s key).take e) ∨ (older s key).length ≤ e
  least : ∀ j < e, sizes ((others s key).take j) < need ∧
    ((older s key).length ≤ j →
      sizes ((others s key).take j) + (getDataSize old).toNat < need)

/-- The oldest of the others leave, as few as are enough. -/
theorem wp_makeSpaceFor_evicts (haccepts : Accepts listener) (h : Bounded s.1.maxSize s.1)
    (hentry : s.1.entry key = some old) {requestSize : UInt64}
    (hfits : s.1.totalSize.toNat + requestSize.toNat < 2 ^ 64)
    (hspace : ¬s.1.totalSize + requestSize ≤ s.1.maxSize) (hle : requestSize ≤ s.1.maxSize) :
    wp (makeSpaceFor (virtuals listener) requestSize key)
      (fun ret t => ret = true ∧ t.1.Wf ∧ ∃ e, Evicts s.1 t.1 key old
        (s.1.totalSize.toNat + requestSize.toNat - s.1.maxSize.toNat) e)
      (fun _ _ => False) s := by
  have hadd : (s.1.totalSize + requestSize).toNat = s.1.totalSize.toNat + requestSize.toNat := by
    rw [UInt64.toNat_add]
    omega
  -- no difference of the code wraps round
  have hremoveSize : (s.1.totalSize + requestSize - s.1.maxSize).toNat =
      s.1.totalSize.toNat + requestSize.toNat - s.1.maxSize.toNat := by
    have hlt := UInt64.le_of_lt (UInt64.not_le.mp hspace)
    rw [UInt64.toNat_sub_of_le _ _ hlt, hadd]
  obtain ⟨hmem, hold⟩ := h.wf.entry_eq_some_iff.mp hentry
  have hsum : sizes s.1.lruList.values.reverse = s.1.totalSize.toNat := by
    rw [sizes_perm s.1.lruList.values.reverse_perm, h.total]
  have hzero : (0 : UInt64).toNat = 0 := rfl
  have htotal_lt := s.1.totalSize.toNat_lt
  have hnonempty : ¬s.1.lruList.values.isEmpty = true := by
    rw [List.isEmpty_iff]
    exact List.ne_nil_of_mem hmem
  cases hkeys : removeLruDataLoop (fun _ : ι => true) (s.1.totalSize + requestSize - s.1.maxSize)
      s.1.lruList.values.reverse 0 [] with
  | none =>
    -- all the entries together are enough
    have hlt := lt_of_removeLruDataLoop hkeys (by rw [hsum, hzero]; omega)
    rw [List.filter_true, hsum, hremoveSize, hzero] at hlt
    rw [UInt64.le_iff_toNat_le] at hle
    omega
  | some keys =>
    obtain ⟨k, hchosen, henough, hleast⟩ :=
      removeLruDataLoop_take hkeys (by rw [hsum, hzero]; omega)
    rw [List.filter_true, hremoveSize, hzero, Nat.zero_add] at henough
    rw [List.append_nil, List.filter_true] at hchosen
    simp only [List.filter_true, hremoveSize, hzero, Nat.zero_add] at hleast
    subst hold
    -- a key is chosen once
    have hnodup : (s.1.lruList.values.reverse.map getKey).Nodup := by
      rw [List.map_reverse]
      exact List.nodup_reverse.mpr (nodup_keys h.wf)
    obtain ⟨newer, hlist, hothers⟩ :=
      takeWhile_append_filter (List.mem_reverse.mpr hmem) hnodup
    change s.1.lruList.values.reverse = older s.1 (getKey old) ++ old :: newer at hlist
    change others s.1 (getKey old) = older s.1 (getKey old) ++ newer at hothers
    rw [hlist] at henough hleast
    -- of the chosen objects all but the updated one are evicted
    obtain ⟨e, hiff, hneed, holder, hfew⟩ := others_of_taken henough hleast
    rw [← hothers] at hiff hneed holder hfew
    rw [← hlist] at hiff
    have hsub : (s.1.lruList.values.reverse.take k).Sublist s.1.lruList.values.reverse :=
      List.take_sublist k _
    have hkeysNodup : keys.Nodup := hchosen ▸ nodup_taken h hsub
    have hlisted : ∀ key ∈ keys, ∃ info, s.1.entry key = some info ∧ true = true := by
      intro key hkey
      rw [hchosen] at hkey
      have hall : ∀ info ∈ s.1.lruList.values.reverse.take k, (fun _ : ι => true) info = true :=
        fun _ _ => rfl
      exact listed_of_taken h hsub hall hkey
    rw [wp_makeSpaceFor_some hspace hnonempty hkeys]
    refine wp_mono (wp_removeKeys_accepted (evicts_base listener) haccepts h hkeysNodup hlisted)
      (fun _ t ht => ?_) fun _ _ he => he
    obtain ⟨hbounded, hvalues, -⟩ := ht
    refine ⟨rfl, hbounded.wf, e, ?_, hneed, holder, hfew⟩
    have hfilter : others t.1 (getKey old) = (others s.1 (getKey old)).filter fun i =>
        getKey i ∉ asked (getKey old) keys := by
      unfold others
      rw [hvalues, ← List.filter_reverse, List.filter_filter, List.filter_filter]
      exact List.filter_congr fun i _ => Bool.and_comm _ _
    rw [hfilter]
    refine filter_eq_drop (nodup_others h.wf) fun i hi => ?_
    -- the keys of the others are removed, whatever is done about the key itself
    obtain ⟨hiMem, hne⟩ := List.mem_filter.mp hi
    have hne' : getKey i ≠ getKey old := by simpa using hne
    have hasked : getKey i ∈ asked (getKey old) keys ↔ getKey i ∈ keys := by
      unfold asked
      rw [List.mem_filter]
      simp [hne'.symm]
    have hkey : getKey i ∈ keys ↔ i ∈ s.1.lruList.values.reverse.take k := by
      rw [hchosen, List.mem_reverse, List.mem_map]
      constructor
      · intro hj
        obtain ⟨j, hjMem, hj⟩ := hj
        have heq := List.inj_on_of_nodup_map hnodup (hsub.subset hjMem) hiMem hj
        exact heq ▸ hjMem
      · intro hiTake
        exact ⟨i, hiTake, rfl⟩
    rw [← hiff i (hothers ▸ hi) fun heq => hne' (heq ▸ rfl), ← hkey, ← hasked]
    exact decide_eq_true_iff

/-! ## Which updates evict no more than they should -/

/-- Those older than the entry come first among the others. -/
theorem take_others (h : lru.Wf) (hentry : lru.entry key = some old) {j : ℕ}
    (hj : j ≤ (older lru key).length) : (others lru key).take j = (older lru key).take j := by
  obtain ⟨hmem, rfl⟩ := h.entry_eq_some_iff.mp hentry
  have hnodup : (lru.lruList.values.reverse.map getKey).Nodup := by
    rw [List.map_reverse]
    exact List.nodup_reverse.mpr (nodup_keys h)
  obtain ⟨newer, -, hothers⟩ := takeWhile_append_filter (List.mem_reverse.mpr hmem) hnodup
  change others lru (getKey old) = older lru (getKey old) ++ newer at hothers
  rw [hothers, List.take_append_of_le_length hj]

/-- What was evicted is the shortest run if and only if it goes no further into the older entries
than it has to. -/
theorem Evicts.shortest_iff {s t : LruCacheByDataSizeStrategy ι} {e : ℕ} (h : Exact s)
    (hentry : s.entry key = some old)
    (hevicts : Evicts s t key old
      (s.totalSize.toNat + (getDataSize info).toNat - s.maxSize.toNat) e) :
    (∃ k, Shortest s key old info k ∧ others t key = (others s key).drop k) ↔
      SparesOlder s key old info := by
  have htotal := total_eq h hentry
  constructor
  · rintro ⟨k, hshortest, hk⟩ j hj
    by_contra hnot
    rw [not_or] at hnot
    obtain ⟨hfits, hless⟩ := hnot
    rw [← take_others h.wf hentry (Nat.le_of_lt hj)] at hfits hless
    -- with `j` of the older entries the new size fits, so there were no more of them to evict
    have hkj : k ≤ j := by
      by_contra hlt
      exact hshortest.least j (by omega) (Nat.not_lt.mp hfits)
    have hlength : j < (others s key).length := by
      have htake := congrArg List.length (take_others h.wf hentry (Nat.succ_le_of_lt hj))
      rw [List.length_take, List.length_take] at htake
      omega
    have heq : (others s key).length - e = (others s key).length - k := by
      rw [← List.length_drop, ← List.length_drop, ← hk, hevicts.others_eq]
    have hmono : sizes ((others s key).take e) ≤ sizes ((others s key).take j) := by
      by_cases he : e ≤ j
      · exact sizes_take_le he
      · omega
    rcases hevicts.reaches with hneed | hage
    · omega
    · omega
  · intro hspares
    refine ⟨e, ⟨?_, fun j hj hfits => ?_⟩, hevicts.others_eq⟩
    · have henough := hevicts.enough
      unfold Fits
      omega
    · obtain ⟨hless, hnewer⟩ := hevicts.least j hj
      unfold Fits at hfits
      by_cases hage : j < (older s key).length
      · have hj' := hspares j hage
        rw [← take_others h.wf hentry (Nat.le_of_lt hage)] at hj'
        omega
      · have hless' := hnewer (by omega)
        omega

/-- Nothing is evicted for an entry that does not grow, nor when there seems to be space. -/
theorem exec_addOrUpdate_free (hentry : s.1.entry key = some old)
    (hfree : ¬getDataSize old < getDataSize info ∨
      s.1.totalSize + getDataSize info ≤ s.1.maxSize) :
    exec (addOrUpdate (virtuals listener) key info) s = (.ok true, s.1.push key info, s.2) := by
  obtain ⟨it, hfind⟩ := find_of_entry hentry
  have hspace : exec (spaceFor (virtuals listener) key info) s = (.ok true, s) := by
    unfold spaceFor
    rw [exec_bind_ok (exec_getState s), hfind]
    show exec (if getDataSize old < getDataSize info then _ else _) s = _
    by_cases hgrows : getDataSize old < getDataSize info
    · rw [if_pos hgrows]
      have hspace := hfree.resolve_left (not_not.mpr hgrows)
      exact exec_eq ((wp_makeSpaceFor_space hspace).mpr ⟨rfl, rfl⟩)
    · rw [if_neg hgrows]
      rfl
  unfold addOrUpdate
  rw [exec_bind_ok hspace]
  rfl

/-- An entry larger than the maximum is refused. -/
theorem exec_addOrUpdate_large (h : Exact s.1) (hentry : s.1.entry key = some old)
    (hgrows : getDataSize old < getDataSize info) (hlarge : s.1.maxSize < getDataSize info)
    (hfits : s.1.totalSize.toNat + (getDataSize info).toNat < 2 ^ 64) :
    exec (addOrUpdate (virtuals listener) key info) s = (.ok false, s) := by
  obtain ⟨it, hfind⟩ := find_of_entry hentry
  have hadd : (s.1.totalSize + getDataSize info).toNat =
      s.1.totalSize.toNat + (getDataSize info).toNat := by
    rw [UInt64.toNat_add]
    omega
  have hlarge' := UInt64.lt_iff_toNat_lt.mp hlarge
  have hspace : ¬s.1.totalSize + getDataSize info ≤ s.1.maxSize := by
    rw [UInt64.le_iff_toNat_le, hadd]
    omega
  have hremoveSize : (s.1.totalSize + getDataSize info - s.1.maxSize).toNat =
      s.1.totalSize.toNat + (getDataSize info).toNat - s.1.maxSize.toNat := by
    rw [UInt64.toNat_sub_of_le _ _ (UInt64.le_of_lt (UInt64.not_le.mp hspace)), hadd]
  have hsum : sizes s.1.lruList.values.reverse = s.1.totalSize.toNat := by
    rw [sizes_perm s.1.lruList.values.reverse_perm, h.total]
  have hzero : (0 : UInt64).toNat = 0 := rfl
  have hrefused : exec (spaceFor (virtuals listener) key info) s = (.ok false, s) := by
    unfold spaceFor
    rw [exec_bind_ok (exec_getState s), hfind]
    show exec (if getDataSize old < getDataSize info then _ else _) s = _
    rw [if_pos hgrows]
    by_cases hempty : s.1.lruList.values.isEmpty = true
    · exact exec_eq ((wp_makeSpaceFor_empty hspace hempty).mpr ⟨rfl, rfl⟩)
    · cases hkeys : removeLruDataLoop (fun _ : ι => true)
          (s.1.totalSize + getDataSize info - s.1.maxSize) s.1.lruList.values.reverse 0 [] with
      | none => exact exec_eq ((wp_makeSpaceFor_none hspace hempty hkeys).mpr ⟨rfl, rfl⟩)
      | some keys =>
        -- not even all the entries are enough
        have htotal_lt := s.1.totalSize.toNat_lt
        obtain ⟨k, -, henough, -⟩ := removeLruDataLoop_take hkeys (by rw [hsum, hzero]; omega)
        rw [List.filter_true, hremoveSize, hzero] at henough
        have hle : sizes (s.1.lruList.values.reverse.take k) ≤ s.1.totalSize.toNat := by
          rw [← hsum]
          exact sizes_sublist (List.take_sublist k _)
        omega
  unfold addOrUpdate
  rw [exec_bind_ok hrefused]
  rfl

/-- An update that needs space, and for which there is enough. -/
theorem wp_addOrUpdate_evicts (haccepts : Accepts listener) (h : Bounded s.1.maxSize s.1)
    (hentry : s.1.entry key = some old) (hkey : getKey info = key)
    (hgrows : getDataSize old < getDataSize info)
    (hfits : s.1.totalSize.toNat + (getDataSize info).toNat < 2 ^ 64)
    (hspace : ¬s.1.totalSize + getDataSize info ≤ s.1.maxSize)
    (hle : getDataSize info ≤ s.1.maxSize) :
    wp (addOrUpdate (virtuals listener) key info)
      (fun ret t => ret = true ∧ ∃ e, Evicts s.1 t.1 key old
        (s.1.totalSize.toNat + (getDataSize info).toNat - s.1.maxSize.toNat) e)
      (fun _ _ => False) s := by
  obtain ⟨it, hfind⟩ := find_of_entry hentry
  unfold addOrUpdate
  rw [wp_bind]
  unfold spaceFor
  rw [wp_bind, wp_getState, hfind]
  show wp (if getDataSize old < getDataSize info then _ else _) _ _ s
  rw [if_pos hgrows]
  refine wp_mono (wp_makeSpaceFor_evicts haccepts h hentry hfits hspace hle) (fun ret t ht => ?_)
    fun _ _ he => he
  obtain ⟨rfl, hwf, e, hevicts⟩ := ht
  refine ⟨rfl, e, ?_, hevicts.enough, hevicts.reaches, hevicts.least⟩
  show others (t.1.push key info) key = _
  rw [others_push hwf hkey]
  exact hevicts.others_eq

/-- An update that the listener accepts. -/
theorem exec_update (hupdate : (exec (listener.onUpdate key info) s.2).1 = .ok true) :
    ∃ w, exec (update (virtuals listener) listener key info) s =
      exec (addOrUpdate (virtuals listener) key info) (s.1, w) := by
  rcases hrun : exec (listener.onUpdate key info) s.2 with ⟨r, w⟩
  rw [hrun] at hupdate
  change r = .ok true at hupdate
  subst hupdate
  have htell : exec (LruCacheByDataSizeStrategy.tell (listener.onUpdate key info)) s =
      (.ok true, s.1, w) := by
    unfold LruCacheByDataSizeStrategy.tell
    rw [exec_zoom, hrun]
  refine ⟨w, ?_⟩
  unfold update
  rw [exec_bind_ok htell]
  rfl

/-- When the entry is only pushed to the top, the new size has to fit as it is. -/
theorem replaces_iff_of_push (h : s.1.Wf) (hkey : getKey info = key) {w : ω}
    (hrun : exec (update (virtuals listener) listener key info) s =
      (.ok true, s.1.push key info, w)) :
    Replaces listener s key old info ↔
      s.1.maxSize < getDataSize info ∨ Fits s.1 key old info 0 := by
  constructor
  · intro hreplaces
    obtain ⟨ret, t, hrun', hkept⟩ := hreplaces
    rw [hrun] at hrun'
    cases hrun'
    by_cases hle : getDataSize info ≤ s.1.maxSize
    · right
      rw [if_pos hle, others_push h hkey] at hkept
      obtain ⟨-, k, hshortest, hk⟩ := hkept
      have hlength := congrArg List.length hk
      rw [List.length_drop] at hlength
      -- either none of the others left, or there are none
      have htake : sizes ((others s.1 key).take k) = sizes ((others s.1 key).take 0) := by
        by_cases hzero : k = 0
        · rw [hzero]
        · rw [List.eq_nil_of_length_eq_zero (l := others s.1 key) (by omega), List.take_nil,
            List.take_nil]
      have hfits := hshortest.fits
      unfold Fits at hfits ⊢
      rwa [htake] at hfits
    · exact .inl (UInt64.not_le.mp hle)
  · intro hcases
    refine ⟨true, _, hrun, ?_⟩
    rw [others_push h hkey]
    by_cases hle : getDataSize info ≤ s.1.maxSize
    · rw [if_pos hle]
      have hfits := hcases.resolve_left (UInt64.not_lt.mpr hle)
      exact ⟨rfl, 0, ⟨hfits, fun j hj => absurd hj (Nat.not_lt_zero j)⟩, rfl⟩
    · rw [if_neg hle]

/-- **An update evicts no more than it should** if and only if it does not grow, or no part of the
older entries would be enough only with the old size, or nothing is evicted because of an overflow
and nothing has to be. -/
theorem replaces_iff (h : Bounded s.1.maxSize s.1) (haccepts : Accepts listener)
    (hupdate : (exec (listener.onUpdate key info) s.2).1 = .ok true)
    (hentry : s.1.entry key = some old) (hkey : getKey info = key) :
    Replaces listener s key old info ↔ Spares s.1 key old info := by
  obtain ⟨w, hrun⟩ := exec_update hupdate
  have htotal := total_eq h.toExact hentry
  have hbound := h.le
  have hadd := UInt64.toNat_add s.1.totalSize (getDataSize info)
  have hmax := s.1.maxSize.toNat_lt
  have hsize := (getDataSize info).toNat_lt
  by_cases hgrows : getDataSize old < getDataSize info
  swap
  · -- the entry does not grow
    rw [exec_addOrUpdate_free (s := (s.1, w)) hentry (.inl hgrows)] at hrun
    rw [replaces_iff_of_push h.wf hkey hrun]
    refine iff_of_true (.inr ?_) fun hlt => absurd hlt hgrows
    rw [UInt64.lt_iff_toNat_lt] at hgrows
    unfold Fits
    omega
  have hgrows' := UInt64.lt_iff_toNat_lt.mp hgrows
  unfold Spares
  rw [forall_prop_of_true hgrows]
  by_cases hfits : s.1.totalSize.toNat + (getDataSize info).toNat < 2 ^ 64
  swap
  · -- the sum is small, so there seems to be space
    have hspace : s.1.totalSize + getDataSize info ≤ s.1.maxSize := by
      rw [UInt64.le_iff_toNat_le, hadd]
      omega
    rw [exec_addOrUpdate_free (s := (s.1, w)) hentry (.inr hspace)] at hrun
    rw [replaces_iff_of_push h.wf hkey hrun, if_neg hfits]
  rw [if_pos hfits]
  by_cases hspace : s.1.totalSize + getDataSize info ≤ s.1.maxSize
  · -- there is space beside the old entry
    rw [exec_addOrUpdate_free (s := (s.1, w)) hentry (.inr hspace)] at hrun
    rw [replaces_iff_of_push h.wf hkey hrun]
    rw [UInt64.le_iff_toNat_le, hadd] at hspace
    refine iff_of_true (.inr ?_) fun j _ => .inr ?_
    · unfold Fits
      omega
    · omega
  by_cases hle : getDataSize info ≤ s.1.maxSize
  swap
  · -- it does not fit at all
    have hlarge := UInt64.not_le.mp hle
    rw [exec_addOrUpdate_large (s := (s.1, w)) h.toExact hentry hgrows hlarge hfits] at hrun
    refine iff_of_true ⟨false, _, hrun, by rw [if_neg hle]⟩ fun j hj => .inl ?_
    rw [← take_others h.wf hentry (Nat.le_of_lt hj)]
    have holder : sizes ((others s.1 key).take j) ≤ sizes (others s.1 key) :=
      sizes_sublist (List.take_sublist j _)
    rw [UInt64.lt_iff_toNat_lt] at hlarge
    omega
  · have hwp := wp_addOrUpdate_evicts (s := (s.1, w)) haccepts h hentry hkey hgrows hfits hspace hle
    unfold wp at hwp
    rcases hrun' : exec (addOrUpdate (virtuals listener) key info) (s.1, w) with ⟨r, t⟩
    rw [hrun'] at hwp hrun
    cases r with
    | error e => exact hwp.elim
    | ok ret =>
      obtain ⟨rfl, e, hevicts⟩ := hwp
      rw [← hevicts.shortest_iff h.toExact hentry]
      constructor
      · intro hreplaces
        obtain ⟨ret, t', ht', hkept⟩ := hreplaces
        rw [hrun] at ht'
        cases ht'
        rw [if_pos hle] at hkept
        exact hkept.2
      · intro hshortest
        exact ⟨true, t, hrun, by rw [if_pos hle]; exact ⟨rfl, hshortest⟩⟩

end

/-! ## A growing entry -/

/-- A listener that agrees to everything. -/
def agreeing : LruListener Empty Unit CacheInfoWithDataSize where
  onAdd := fun _ _ => pure true
  onUpdate := fun _ _ => pure true
  onRemove := fun _ => pure true
  onGet := fun _ _ => pure true

/-- Ten bytes in a strategy for twelve; "a" was used the longest time ago. -/
def tenOfTwelve : LruCacheByDataSizeStrategy CacheInfoWithDataSize :=
  (((construct 12).push "a" ⟨"a", 3⟩).push "b" ⟨"b", 3⟩).push "c" ⟨"c", 4⟩

theorem bounded_tenOfTwelve : Bounded 12 tenOfTwelve := by
  have hempty : Bounded 12 (construct 12 : LruCacheByDataSizeStrategy CacheInfoWithDataSize) :=
    bounded_construct 12
  have hfirst := @Bounded.push _ _ _ "a" ⟨"a", 3⟩ _ hempty rfl (by decide +kernel)
  have hsecond := @Bounded.push _ _ _ "b" ⟨"b", 3⟩ _ hfirst rfl (by decide +kernel)
  exact hsecond.push rfl (by decide +kernel)

/-- For the oldest entry "b" has to go, and nothing else goes. -/
theorem replaces_iff_oldest :
    Replaces agreeing (tenOfTwelve, ()) "a" ⟨"a", 3⟩ ⟨"a", 6⟩ ∧
      ¬Fits tenOfTwelve "a" ⟨"a", 3⟩ ⟨"a", 6⟩ 0 := by
  have hspares : Spares tenOfTwelve "a" ⟨"a", 3⟩ ⟨"a", 6⟩ := by decide +kernel
  have hbounded : Bounded tenOfTwelve.maxSize tenOfTwelve := bounded_tenOfTwelve
  have haccepts : Accepts agreeing := fun _ _ => rfl
  have hupdate : (exec (agreeing.onUpdate "a" ⟨"a", 6⟩) ()).1 = .ok true := rfl
  have hentry : tenOfTwelve.entry "a" = some ⟨"a", 3⟩ := by decide +kernel
  have hkey : getKey (⟨"a", 6⟩ : CacheInfoWithDataSize) = "a" := rfl
  have hiff := replaces_iff (s := (tenOfTwelve, ())) hbounded haccepts hupdate hentry hkey
  exact ⟨hiff.mpr hspares, by decide +kernel⟩

/-- "c" grows by one byte, for which there is space, and "a" is evicted. -/
theorem not_replaces_newest :
    Bounded 12 tenOfTwelve ∧ Accepts agreeing ∧
      tenOfTwelve.entry "c" = some ⟨"c", 4⟩ ∧
      Fits tenOfTwelve "c" ⟨"c", 4⟩ ⟨"c", 5⟩ 0 ∧
      ¬Replaces agreeing (tenOfTwelve, ()) "c" ⟨"c", 4⟩ ⟨"c", 5⟩ := by
  have hfits : Fits tenOfTwelve "c" ⟨"c", 4⟩ ⟨"c", 5⟩ 0 := by decide +kernel
  refine ⟨bounded_tenOfTwelve, fun _ _ => rfl, by decide +kernel, hfits, fun hreplaces => ?_⟩
  obtain ⟨ret, t, hrun, hkept⟩ := hreplaces
  have hothers : others (exec (update (virtuals agreeing) agreeing "c" ⟨"c", 5⟩)
      (tenOfTwelve, ())).2.1 "c" = [⟨"b", 3⟩] := by decide +kernel
  rw [hrun] at hothers
  rw [if_pos (by decide +kernel)] at hkept
  obtain ⟨-, k, hshortest, hk⟩ := hkept
  have hzero : k = 0 := by
    by_contra hne
    exact hshortest.least 0 (Nat.pos_of_ne_zero hne) hfits
  have hsame : others tenOfTwelve "c" = [⟨"a", 3⟩, ⟨"b", 3⟩] := by decide +kernel
  change others t.1 "c" = [⟨"b", 3⟩] at hothers
  change others t.1 "c" = (others tenOfTwelve "c").drop k at hk
  rw [hothers, hzero, hsame] at hk
  exact absurd hk (by decide)

end EasyHttp.ReplacedEntry
