import EasyHttp.Cache.Reopening
import EasyHttp.Library.Recency
import Mathlib

/-!
# The list of a cache and the times in its rows

An entry has its place in the list and the time of its last access in its row.

* `Follows`: every entry has a row of its size, and the list is in the order of the times;
* `Moved`: only the place of one entry is another;
* `follows_used`, `follows_written`, `follows_dropped`: the changes that keep `Follows`.
-/

namespace EasyHttp.ListOrder

open LruCacheByDataSizeStrategy LruOperations LruCapacity Recency

variable {lru lru' lru'' : LruCacheByDataSizeStrategy HttpCacheInfo} {disk disk' : Disk}
  {key k : String} {it : ℕ} {info old : HttpCacheInfo} {row : Row} {size : UInt64}

/-- The keys of the list, the one used last first. -/
def keysOf (lru : LruCacheByDataSizeStrategy HttpCacheInfo) : List String :=
  lru.lruList.values.map (·.key)

/-- The size of the entry of a key. -/
def sizeAt (lru : LruCacheByDataSizeStrategy HttpCacheInfo) (k : String) : Option UInt64 :=
  (lru.entry k).map (·.dataSize)

/-- The second in which the key was used last, by its row. -/
def accessedAt (disk : Disk) (k : String) : ℤ :=
  ((disk.row k).map fun row => row.lastAccessedAtEpoch.toInt).getD 0

/-- The size of an entry and its row. A row without an entry is one too large for the cache. -/
def SizesMatch (maxSize : UInt64) : Option UInt64 → Option Row → Prop
  | some size, some row => row.responseBodySize = size
  | some _, none => False
  | none, some row => maxSize < row.responseBodySize ∧
      maxSize.toNat + row.responseBodySize.toNat < 2 ^ 64
  | none, none => True

/-- The list is what the rows say. -/
structure Follows (lru : LruCacheByDataSizeStrategy HttpCacheInfo) (disk : Disk) : Prop where
  bounded : Bounded lru.maxSize lru
  sizes_match : ∀ k, SizesMatch lru.maxSize (sizeAt lru k) (disk.row k)
  ordered : Ordered (accessedAt disk) (keysOf lru)

/-- The entry of the key is the one used last now. Of all entries the sizes are as before. -/
structure Moved (key : String) (lru lru' : LruCacheByDataSizeStrategy HttpCacheInfo) : Prop where
  keys_eq : keysOf lru' = touch key (keysOf lru)
  sizeAt_eq : sizeAt lru' = sizeAt lru
  maxSize_eq : lru'.maxSize = lru.maxSize
  bounded : Bounded lru.maxSize lru → Bounded lru'.maxSize lru'

/-! ## The list -/

theorem sizeAt_of_entry (h : lru.entry key = some info) : sizeAt lru key = some info.dataSize := by
  unfold sizeAt
  rw [h]
  rfl

/-- The keys but one. -/
theorem map_filter_key (infos : List HttpCacheInfo) (key : String) :
    (infos.filter fun info => CacheInfo.getKey info ≠ key).map (·.key) =
      (infos.map (·.key)).filter (· ≠ key) := by
  rw [List.filter_map]
  rfl

/-- What is put in goes to the front. -/
theorem keysOf_push (hwf : lru.Wf) (hkey : info.key = key) :
    keysOf (lru.push key info) = touch key (keysOf lru) := by
  unfold keysOf
  rw [hwf.values_push, List.map_cons, map_filter_key, hkey]
  rfl

/-- What leaves changes the order of nothing else. -/
theorem keysOf_drop (hwf : lru.Wf) :
    keysOf (lru.drop key) = (keysOf lru).filter (· ≠ key) := by
  unfold keysOf
  rw [hwf.values_drop, map_filter_key]

/-- What is put in has its own size. -/
theorem sizeAt_push (hwf : lru.Wf) (hkey : info.key = key) :
    sizeAt (lru.push key info) = Function.update (sizeAt lru) key (some info.dataSize) := by
  funext k
  unfold sizeAt
  rw [hwf.entry_push hkey]
  by_cases hk : k = key
  · subst hk
    rw [Function.update_self, Function.update_self]
    rfl
  · rw [Function.update_of_ne hk, Function.update_of_ne hk]

/-- What leaves has none. -/
theorem sizeAt_drop (hwf : lru.Wf) :
    sizeAt (lru.drop key) = Function.update (sizeAt lru) key none := by
  funext k
  unfold sizeAt
  rw [hwf.entry_drop]
  by_cases hk : k = key
  · subst hk
    rw [Function.update_self, Function.update_self]
    rfl
  · rw [Function.update_of_ne hk, Function.update_of_ne hk]

/-! ## Entries moved -/

theorem Moved.trans (h : Moved key lru lru') (h' : Moved key lru' lru'') : Moved key lru lru'' where
  keys_eq := by rw [h'.keys_eq, h.keys_eq, touch_touch]
  sizeAt_eq := h'.sizeAt_eq.trans h.sizeAt_eq
  maxSize_eq := h'.maxSize_eq.trans h.maxSize_eq
  bounded := fun hbounded => h'.bounded (h.bounded hbounded)

/-- An entry put in again without a change of size is moved. -/
theorem moved_push (hwf : lru.Wf) (hentry : lru.entry key = some old) (hkey : info.key = key)
    (hsize : info.dataSize = old.dataSize) : Moved key lru (lru.push key info) where
  keys_eq := keysOf_push hwf hkey
  sizeAt_eq := by
    rw [sizeAt_push hwf hkey, hsize, ← sizeAt_of_entry hentry, Function.update_eq_self]
  maxSize_eq := maxSize_push
  bounded := by
    intro h
    have hle := h.le
    have hroom : lru.totalSize.toNat + info.dataSize.toNat ≤
        lru.maxSize.toNat + weight lru key := by
      rw [weight_of_entry hentry]
      show _ ≤ _ + old.dataSize.toNat
      rw [hsize]
      omega
    rw [maxSize_push]
    exact h.push hkey hroom

/-- So is one that is looked up. -/
theorem moved_touch (hwf : lru.Wf) (hfind : lru.find key = some (it, info)) :
    Moved key lru (lru.touch key it info) where
  keys_eq := by
    have hkey : info.key = key := (hwf.find_eq_some_iff.mp hfind).2
    have hlist : keysOf (lru.touch key it info) = keysOf (lru.push key info) := by
      unfold keysOf
      rw [(touch_eq hfind).1]
    rw [hlist, keysOf_push hwf hkey]
  sizeAt_eq := by
    funext k
    unfold sizeAt
    rw [hwf.entry_touch hfind]
  maxSize_eq := rfl
  bounded := fun h =>
    ⟨⟨hwf.wf_touch hfind, h.total.trans (sizes_touch hfind).symm⟩, rfl, h.le⟩

/-- An object that is marked in the list, and then moved. -/
theorem moved_assign_push (hwf : lru.Wf) (hfind : lru.find key = some (it, old))
    (hkey : info.key = key) (hsize : info.dataSize = old.dataSize) :
    Moved key lru ((lru.assign it info).push key info) := by
  have hwf' : (lru.assign it info).Wf := hwf.wf_assign hfind hkey
  have hpush := moved_push hwf' (entry_of_find (find_assign hfind info)) hkey rfl
  have hkeys : touch key (keysOf (lru.assign it info)) = touch key (keysOf lru) := by
    have hlist : ((lru.assign it info).unlist key).lruList.values =
        (lru.unlist key).lruList.values := by
      unfold unlist
      rw [find_assign hfind, hfind]
      exact IterList.values_erase_assign lru.lruList it info
    rw [hwf'.values_unlist, hwf.values_unlist] at hlist
    show key :: (keysOf (lru.assign it info)).filter (· ≠ key) = _
    unfold keysOf
    rw [← map_filter_key, hlist, map_filter_key]
    rfl
  refine ⟨hpush.keys_eq.trans hkeys, ?_, hpush.maxSize_eq, fun h => hpush.bounded ?_⟩
  · rw [hpush.sizeAt_eq]
    funext k
    unfold sizeAt
    rw [hwf.entry_assign hfind]
    by_cases hk : k = key
    · subst hk
      rw [Function.update_self, entry_of_find hfind]
      exact congrArg some hsize
    · rw [Function.update_of_ne hk]
  · have hsizes : sizes (lru.assign it info).lruList.values = sizes lru.lruList.values :=
      sizes_assign hfind hsize
    exact ⟨⟨hwf', h.total.trans hsizes.symm⟩, rfl, h.le⟩

/-! ## Changes of the list and the rows -/

/-- The row of another key does not matter. -/
theorem accessedAt_update {new : Option Row}
    (hrow : disk'.row = Function.update disk.row key new) (hk : k ≠ key) :
    accessedAt disk' k = accessedAt disk k := by
  unfold accessedAt
  rw [hrow, Function.update_of_ne hk]

theorem accessedAt_of_row (hrow : disk.row key = some row) :
    accessedAt disk key = row.lastAccessedAtEpoch.toInt := by
  unfold accessedAt
  rw [hrow]
  rfl

theorem accessedAt_of_rows (hrows : disk'.rows = disk.rows) :
    accessedAt disk' = accessedAt disk := by
  funext k
  unfold accessedAt Disk.row
  rw [hrows]

/-- Only the rows matter. -/
theorem follows_of_rows (h : Follows lru disk) (hrows : disk'.rows = disk.rows) :
    Follows lru disk' := by
  have hrow : disk'.row = disk.row := congrArg SortedMap.find? hrows
  refine ⟨h.bounded, ?_, ?_⟩
  · rw [hrow]
    exact h.sizes_match
  · rw [accessedAt_of_rows hrows]
    exact h.ordered

/-- The entry used last is used again. -/
theorem follows_used (h : Follows lru disk) (hmoved : Moved key lru lru')
    (hhead : (keysOf lru).head? = some key) : Follows lru' disk := by
  have hkeys : keysOf lru' = keysOf lru := by
    rw [hmoved.keys_eq, touch_of_head h.ordered.nodup hhead]
  refine ⟨hmoved.bounded h.bounded, fun k => ?_, ?_⟩
  · rw [hmoved.maxSize_eq, hmoved.sizeAt_eq]
    exact h.sizes_match k
  · rw [hkeys]
    exact h.ordered

/-- An entry is used, or is new, and its row is written at the same time. -/
theorem follows_written (h : Follows lru disk)
    (hlater : ∀ k ∈ keysOf lru, accessedAt disk k < disk.nowAtEpoch.toInt)
    (hkeys : keysOf lru' = touch key (keysOf lru))
    (hsize : sizeAt lru' = Function.update (sizeAt lru) key (some row.responseBodySize))
    (hmax : lru'.maxSize = lru.maxSize) (hbounded : Bounded lru'.maxSize lru')
    (hrow : disk'.row = Function.update disk.row key (some row))
    (hnow : row.lastAccessedAtEpoch = disk.nowAtEpoch) : Follows lru' disk' := by
  have hself : accessedAt disk' key = disk.nowAtEpoch.toInt := by
    have hwritten : disk'.row key = some row := by rw [hrow, Function.update_self]
    rw [accessedAt_of_row hwritten, hnow]
  have htime : ∀ k, accessedAt disk' k =
      Function.update (accessedAt disk) key disk.nowAtEpoch.toInt k := by
    intro k
    by_cases hk : k = key
    · subst hk
      rw [Function.update_self, hself]
    · rw [Function.update_of_ne hk, accessedAt_update hrow hk]
  refine ⟨hbounded, fun k => ?_, ?_⟩
  · rw [hmax, hsize, hrow]
    by_cases hk : k = key
    · subst hk
      rw [Function.update_self, Function.update_self]
      rfl
    · rw [Function.update_of_ne hk, Function.update_of_ne hk]
      exact h.sizes_match k
  · rw [hkeys]
    exact (h.ordered.touch hlater).congr fun k _ => htime k

/-- An entry is gone, and its row is. -/
theorem follows_dropped (h : Follows lru disk)
    (hkeys : keysOf lru' = (keysOf lru).filter (· ≠ key))
    (hsize : sizeAt lru' = Function.update (sizeAt lru) key none)
    (hmax : lru'.maxSize = lru.maxSize) (hbounded : Bounded lru'.maxSize lru')
    (hrow : disk'.row = Function.update disk.row key none) : Follows lru' disk' := by
  have hother : ∀ k ∈ keysOf lru', accessedAt disk' k = accessedAt disk k := by
    intro k hk
    rw [hkeys] at hk
    have hne : k ≠ key := by simpa using List.of_mem_filter hk
    exact accessedAt_update hrow hne
  refine ⟨hbounded, fun k => ?_, ?_⟩
  · rw [hmax, hsize, hrow]
    by_cases hk : k = key
    · subst hk
      rw [Function.update_self, Function.update_self]
      trivial
    · rw [Function.update_of_ne hk, Function.update_of_ne hk]
      exact h.sizes_match k
  · have hsub : (keysOf lru').Sublist (keysOf lru) := by
      rw [hkeys]
      exact List.filter_sublist
    exact (h.ordered.sublist hsub).congr hother

/-- A listed key has its row. -/
theorem Follows.exists_row (h : Follows lru disk) (hentry : lru.entry key = some info) :
    ∃ row, disk.row key = some row ∧ row.responseBodySize = info.dataSize := by
  have hmatch := h.sizes_match key
  rw [sizeAt_of_entry hentry] at hmatch
  cases hrow : disk.row key with
  | none =>
    rw [hrow] at hmatch
    exact hmatch.elim
  | some row =>
    rw [hrow] at hmatch
    exact ⟨row, rfl, hmatch⟩

end EasyHttp.ListOrder
