import EasyHttp.Cache.QuietCalls

/-!
# The order of eviction over whole runs and after a restart

A cache evicts from the end of its list, and a new instance fills its list with the rows in the
order of their last access. Both orders are the same as long as every call that moves an entry in
the list also writes the time of its row.

* `opened`: a new instance over some rows, as its first call opens it;
* `PersistsOrder`: a new instance would evict in the order of the running one;
* `KeepsRecency`: the call moves no entry without writing the time of its row;
* `persists_order`: along runs whose steps are so, every state persists the order;
* `getData_not_persists`: a body that is read without its metadata changes only one of the orders.
-/

namespace EasyHttp.PersistedOrder

open Exec HttpFileCache LruCacheByDataSizeStrategy LruOperations LruCapacity SizedQueue Recency
  ListOrder

/-! ## A new instance -/

/-- A new instance when its first call has opened it. -/
def opened (cacheRootDir : String) (maxSize : UInt64) (disk : Disk) : HttpFileCache :=
  (exec initializeCache (construct cacheRootDir maxSize disk)).2

/-- The keys in the order in which they would be evicted. -/
def evictionOrder (s : HttpFileCache) : List String := (keysOf s.lruCacheStrategy).reverse

/-- A new instance of the same size over the same disk. -/
def reopened (s : HttpFileCache) : HttpFileCache :=
  opened s.cacheRootDir s.lruCacheStrategy.maxSize { s.disk with faults := {} }

/-- A cache that is opened again evicts in the same order. -/
def PersistsOrder (s : HttpFileCache) : Prop := evictionOrder s = evictionOrder (reopened s)

/-- No two rows were used last in the same second. -/
def DistinctSeconds (disk : Disk) : Prop :=
  ∀ e ∈ disk.rows.entries, ∀ e' ∈ disk.rows.entries,
    e.2.lastAccessedAtEpoch = e'.2.lastAccessedAtEpoch → e = e'

/-- The size of each row can be added to what a cache holds at most. -/
def SizesAdd (maxSize : UInt64) (disk : Disk) : Prop :=
  ∀ e ∈ disk.rows.entries, maxSize.toNat + e.2.responseBodySize.toNat < 2 ^ 64

variable {json : PocoJson} {disk d : Disk} {cacheRootDir key k : String} {maxSize : UInt64}
  {q : List (String × ℕ)} {s t : HttpFileCache}

/-- Without failures to come an initialization throws nothing. -/
theorem wp_enumerate_spent (h : Spent s.stores) :
    wp enumerate (fun _ (t : HttpFileCache) => Spent t.stores) (fun _ _ => False) s := by
  unfold enumerate
  rw [wp_bind, wp_onDisk]
  refine wp_mono (wp_queryAll s.disk) (fun params d hd => ?_) fun e d hd =>
    not_databaseFails_of_faults_eq h.faults_eq hd.2
  exact carried_spent.wp_handOver (s := { s with disk := d })
    (carried_spent.same s.stores d h hd.1) params

/-- Sizes that fit in a word are loaded without a wrap. -/
theorem admissibleAll_of_sizesAdd (hadd : SizesAdd maxSize disk) :
    AdmissibleAll maxSize [] (rowsInOrder disk.rows) [] := by
  refine admissibleAll_of_fits (nodup_rowsInOrder disk.rows) fun done p rest hsplit => ?_
  have hle := size_foldl_enqueue_le (q := []) (itemsOf done) (Nat.zero_le maxSize.toNat)
  have hmem : p ∈ rowsInOrder disk.rows := by
    rw [hsplit]
    exact List.mem_append_right _ List.mem_cons_self
  obtain ⟨row, hrow, hsize⟩ := mem_rowsInOrder.mp hmem
  have hsum := hadd (p.1, row) (SortedMap.find?_eq_some_iff.mp hrow)
  have hsum : maxSize.toNat + row.responseBodySize.toNat < 2 ^ 64 := hsum
  rw [hsize] at hsum
  omega

/-- An opened cache has read the rows in the order of their times. -/
theorem opening_opened (hquiet : disk.faults = {}) (hdir : cacheRootDir ≠ "")
    (hadmissible : AdmissibleAll maxSize [] (rowsInOrder disk.rows) []) :
    Opening disk cacheRootDir maxSize
        ((itemsOf (rowsInOrder disk.rows)).foldl (enqueue maxSize.toNat) []) []
        (opened cacheRootDir maxSize disk) ∧
      (opened cacheRootDir maxSize disk).cacheInitialized = true := by
  have hspent : Spent (construct cacheRootDir maxSize disk).stores :=
    ⟨wf_construct maxSize, nofun, hquiet⟩
  have hahead : Ahead [] disk := by
    unfold Ahead
    rw [hquiet]
    exact ⟨rfl, 0, rfl⟩
  have hrun : wp initializeCache
      (fun _ t => Opening disk cacheRootDir maxSize
        ((itemsOf (rowsInOrder disk.rows)).foldl (enqueue maxSize.toNat) []) [] t ∧
        t.cacheInitialized = true)
      (fun _ _ => False) (construct cacheRootDir maxSize disk) := by
    refine wp_initializeCache_enumerate rfl hdir (filesWork_of_faults_eq hquiet)
      fun d hsame hdatabase => ?_
    have hopening := (opening_construct disk disk ⟨rfl, rfl⟩ cacheRootDir maxSize).of_same hsame
    have hrows : d.rows = disk.rows := hsame.2.2
    rw [← hrows] at hopening hadmissible ⊢
    refine wp_mono (wp_and
      (wp_enumerate_opening (s := { construct cacheRootDir maxSize disk with disk := d }) (.inl rfl)
        hopening (hahead.of_later hsame.1 hdatabase) hadmissible)
      (wp_enumerate_spent (carried_spent.same _ d hspent hsame)))
      (fun _ t ht => ?_) fun _ _ he => he.2
    rcases ht.1 with ⟨h, -⟩ | ⟨-, hfails⟩
    · exact ⟨⟨h.exact_total, h.idle, h.queue_eq, h.maxSize_eq, h.cacheRootDir_eq, h.row_stays,
        h.row_goes, h.file_goes, h.file_stays, h.queued, h.awaited⟩, rfl⟩
    · cases hfails
  exact wp_final (wp_mono hrun (fun _ _ ht => ht) fun _ _ he => he.elim)

/-- Each row is one item. -/
theorem keys_itemsOf (params : List (String × UInt64)) :
    SizedQueue.keys (itemsOf params) = params.map Prod.fst := by
  unfold SizedQueue.keys itemsOf
  rw [List.map_map]
  rfl

/-- Rows of distinct times stand in the order of their times. -/
theorem ordered_of_rows (hsub : q.Sublist (itemsOf (rowsInOrder disk.rows)))
    (hdistinct : ∀ k ∈ SizedQueue.keys q, ∀ k' ∈ SizedQueue.keys q,
      accessedAt disk k = accessedAt disk k' → k = k') :
    Ordered (accessedAt disk) (SizedQueue.keys q).reverse := by
  have hkeys : (SizedQueue.keys q).Sublist ((rowsInOrder disk.rows).map Prod.fst) := by
    rw [← keys_itemsOf]
    exact hsub.map Prod.fst
  have hle : ((rowsInOrder disk.rows).map Prod.fst).Pairwise
      fun a b => accessedAt disk a ≤ accessedAt disk b := by
    have hsorted := List.pairwise_insertionSort
      (fun a b : String × Row => a.2.lastAccessedAtEpoch ≤ b.2.lastAccessedAtEpoch)
      disk.rows.entries
    have htime : ∀ e ∈ disk.rows.entries, accessedAt disk e.1 = e.2.lastAccessedAtEpoch.toInt :=
      fun e he => accessedAt_of_row (SortedMap.find?_eq_some_iff.mpr he)
    unfold rowsInOrder
    rw [List.map_map, List.pairwise_map]
    refine List.Pairwise.imp_of_mem (fun {a b} ha hb hab => ?_) hsorted
    rw [List.mem_insertionSort] at ha hb
    show accessedAt disk a.1 ≤ accessedAt disk b.1
    rw [htime a ha, htime b hb]
    exact Int64.le_iff_toInt_le.mp hab
  unfold Recency.Ordered
  rw [List.pairwise_reverse]
  have hnodup : (SizedQueue.keys q).Nodup := (nodup_rowsInOrder disk.rows).sublist hkeys
  refine List.Pairwise.imp_of_mem (fun {a b} ha hb hab => ?_)
    (List.Pairwise.and (List.Pairwise.sublist hkeys hle) hnodup)
  exact lt_of_le_of_ne hab.1 fun heq => hab.2 (hdistinct a ha b hb heq)

theorem keysOf_eq {lru : LruCacheByDataSizeStrategy HttpCacheInfo} (hqueue : queueOf lru = q) :
    keysOf lru = (SizedQueue.keys q).reverse := by
  rw [← hqueue, keys_queueOf, List.reverse_reverse]
  rfl

/-- The items are the keys of the entries with their sizes. -/
theorem mem_queueOf {lru : LruCacheByDataSizeStrategy HttpCacheInfo} (hwf : lru.Wf) {n : ℕ} :
    (k, n) ∈ queueOf lru ↔ ∃ size, sizeAt lru k = some size ∧ size.toNat = n := by
  unfold queueOf sizeAt
  rw [List.mem_reverse, List.mem_map]
  constructor
  · intro hmem
    obtain ⟨info, hinfo, heq⟩ := hmem
    obtain ⟨rfl, rfl⟩ := Prod.mk.inj heq
    have hentry : lru.entry info.key = some info := hwf.entry_eq_some_iff.mpr ⟨hinfo, rfl⟩
    refine ⟨info.dataSize, ?_, rfl⟩
    rw [hentry]
    rfl
  · intro hsize
    obtain ⟨size, hsize, hn⟩ := hsize
    obtain ⟨info, hentry, rfl⟩ := Option.map_eq_some_iff.mp hsize
    obtain ⟨hinfo, hkey⟩ := hwf.entry_eq_some_iff.mp hentry
    exact ⟨info, hinfo, Prod.ext hkey hn⟩

/-- A new instance is in the order of its rows. -/
theorem follows_of_opening (h : Opening disk cacheRootDir maxSize q [] t)
    (hsub : q.Sublist (itemsOf (rowsInOrder disk.rows))) (hsize : SizedQueue.size q ≤ maxSize.toNat)
    (hdistinct : DistinctSeconds disk) (hadd : SizesAdd maxSize disk) :
    Follows t.lruCacheStrategy t.disk := by
  have hwf := h.exact_total.wf
  have hmem : ∀ k, k ∈ SizedQueue.keys q → t.disk.row k = disk.row k :=
    fun k hk => h.row_stays k (.inl hk)
  refine ⟨⟨h.exact_total, rfl, ?_⟩, fun k => ?_, ?_⟩
  · have htotal : t.lruCacheStrategy.totalSize.toNat = SizedQueue.size q := by
      rw [h.exact_total.total, ← size_queueOf, h.queue_eq]
    rw [htotal, h.maxSize_eq]
    exact hsize
  · rw [h.maxSize_eq]
    -- an entry has the size of its row, and a row without an entry is too large
    cases hentry : sizeAt t.lruCacheStrategy k with
    | some size =>
      have hin : (k, size.toNat) ∈ q := by
        rw [← h.queue_eq]
        exact (mem_queueOf hwf).mpr ⟨size, hentry, rfl⟩
      obtain ⟨-, row, hrow, hrowSize⟩ := h.queued _ hin
      rw [hmem k (List.mem_map_of_mem hin), hrow]
      exact UInt64.toNat_inj.mp hrowSize
    | none =>
      have hnot : k ∉ SizedQueue.keys q := by
        rw [← h.queue_eq, mem_keys_queueOf hwf]
        intro hsome
        unfold sizeAt at hentry
        rw [Option.map_eq_none_iff] at hentry
        rw [hentry] at hsome
        cases hsome
      -- what stays without an entry did not fit
      by_cases hstays : HttpFileCache.Stays disk maxSize q [] k
      · obtain ⟨row, hrow, hlarge⟩ := (hstays.resolve_left hnot).resolve_left List.not_mem_nil
        rw [h.row_stays k hstays, hrow]
        exact ⟨hlarge, hadd (k, row) (SortedMap.find?_eq_some_iff.mp hrow)⟩
      · rw [h.row_goes k hstays]
        trivial
  -- no two rows were accessed in the same second
  · have hdistinct' : ∀ k ∈ SizedQueue.keys q, ∀ k' ∈ SizedQueue.keys q,
        accessedAt disk k = accessedAt disk k' → k = k' := by
      intro k hk k' hk' htime
      obtain ⟨p, hp, rfl⟩ := List.mem_map.mp hk
      obtain ⟨p', hp', rfl⟩ := List.mem_map.mp hk'
      obtain ⟨-, row, hrow, -⟩ := h.queued p hp
      obtain ⟨-, row', hrow', -⟩ := h.queued p' hp'
      rw [accessedAt_of_row hrow, accessedAt_of_row hrow'] at htime
      have hsame : (p.1, row) = (p'.1, row') := by
        refine hdistinct (p.1, row) ?_ (p'.1, row') ?_ (Int64.toInt_inj.mp htime)
        · exact SortedMap.find?_eq_some_iff.mp hrow
        · exact SortedMap.find?_eq_some_iff.mp hrow'
      exact (Prod.mk.inj hsame).1
    rw [keysOf_eq h.queue_eq]
    refine (ordered_of_rows hsub hdistinct').congr fun k hk => ?_
    unfold accessedAt
    rw [hmem k (List.mem_reverse.mp hk)]

/-! ## A restart -/

/-- What is listed is no larger than the cache. -/
theorem size_le_of_listed (h : Follows s.lruCacheStrategy s.disk) {size : UInt64}
    (hsize : sizeAt s.lruCacheStrategy k = some size) :
    size.toNat ≤ s.lruCacheStrategy.maxSize.toNat := by
  have hin : (k, size.toNat) ∈ queueOf s.lruCacheStrategy :=
    (mem_queueOf h.bounded.wf).mpr ⟨size, hsize, rfl⟩
  have hle := le_size_of_mem hin
  rw [size_queueOf, ← h.bounded.total] at hle
  exact Nat.le_trans hle h.bounded.le

/-- The rows that are not too large are the queue that the list is. -/
theorem perm_rows (h : Follows s.lruCacheStrategy s.disk) :
    ((itemsOf (rowsInOrder s.disk.rows)).filter fun r =>
      r.2 ≤ s.lruCacheStrategy.maxSize.toNat).Perm (queueOf s.lruCacheStrategy) := by
  have hwf := h.bounded.wf
  have hnodup : (SizedQueue.keys (itemsOf (rowsInOrder s.disk.rows))).Nodup := by
    rw [keys_itemsOf]
    exact nodup_rowsInOrder s.disk.rows
  refine (List.perm_ext_iff_of_nodup ((List.Nodup.of_map Prod.fst hnodup).filter _)
    (List.Nodup.of_map Prod.fst (nodup_keys_queueOf hwf))).mpr fun r => ?_
  obtain ⟨k, n⟩ := r
  have hmatch := h.sizes_match k
  rw [List.mem_filter, decide_eq_true_eq, mem_queueOf hwf]
  unfold itemsOf
  rw [List.mem_map]
  constructor
  -- a row that fits has an entry of its size
  · intro hrow
    obtain ⟨⟨p, hp, heq⟩, hle⟩ := hrow
    obtain ⟨rfl, rfl⟩ := Prod.mk.inj heq
    obtain ⟨row, hfind, hsize⟩ := mem_rowsInOrder.mp hp
    have hfind : s.disk.row p.1 = some row := hfind
    rw [hfind] at hmatch
    cases hentry : sizeAt s.lruCacheStrategy p.1 with
    | some size =>
      rw [hentry] at hmatch
      have hmatch : row.responseBodySize = size := hmatch
      exact ⟨size, rfl, by rw [← hmatch, hsize]⟩
    | none =>
      rw [hentry] at hmatch
      have hlarge := UInt64.lt_iff_toNat_lt.mp hmatch.1
      rw [hsize] at hlarge
      dsimp only at hle
      omega
  -- an entry has a row of its size
  · intro hsize
    obtain ⟨size, hentry, rfl⟩ := hsize
    rw [hentry] at hmatch
    cases hrow : s.disk.row k with
    | none =>
      rw [hrow] at hmatch
      exact hmatch.elim
    | some row =>
      rw [hrow] at hmatch
      have hmatch : row.responseBodySize = size := hmatch
      exact ⟨⟨(k, size), mem_rowsInOrder.mpr ⟨row, hrow, hmatch⟩, rfl⟩, size_le_of_listed h hentry⟩

/-- Every row can be admitted when its turn comes. -/
theorem admissibleAll_of_follows (h : Follows s.lruCacheStrategy s.disk) :
    AdmissibleAll s.lruCacheStrategy.maxSize [] (rowsInOrder s.disk.rows) [] := by
  refine admissibleAll_of_fits (nodup_rowsInOrder s.disk.rows) fun done p rest hsplit => ?_
  have hall : size ((itemsOf (rowsInOrder s.disk.rows)).filter fun r =>
      r.2 ≤ s.lruCacheStrategy.maxSize.toNat) ≤ s.lruCacheStrategy.maxSize.toNat := by
    rw [size_perm (perm_rows h), size_queueOf, ← h.bounded.total]
    exact h.bounded.le
  have hmax := s.lruCacheStrategy.maxSize.toNat_lt
  -- a row that fits finds room behind those before it
  by_cases hle : p.2.toNat ≤ s.lruCacheStrategy.maxSize.toNat
  · have hnodup := nodup_rowsInOrder s.disk.rows
    rw [← keys_itemsOf, hsplit] at hnodup
    have hitems : itemsOf (done ++ p :: rest) =
        itemsOf done ++ (p.1, p.2.toNat) :: itemsOf rest := List.map_append
    rw [hitems] at hnodup
    rw [hsplit, hitems, List.filter_append, size_append,
      List.filter_cons_of_pos (by simpa using hle), size_cons] at hall
    have hroom : size ([] : List (String × ℕ)) + size ((itemsOf done).filter fun r =>
        r.2 ≤ s.lruCacheStrategy.maxSize.toNat) ≤ s.lruCacheStrategy.maxSize.toNat := by
      show 0 + _ ≤ _
      omega
    have hdone : (SizedQueue.keys ([] ++ itemsOf done)).Nodup := by
      have hsub : (itemsOf done).Sublist (itemsOf done ++ (p.1, p.2.toNat) :: itemsOf rest) :=
        List.sublist_append_left _ _
      exact hnodup.sublist (hsub.map Prod.fst)
    rw [foldl_enqueue_of_room hdone hroom, List.nil_append]
    dsimp only at hall
    omega
  · -- a row that is too large has no entry
    have hfold := size_foldl_enqueue_le (q := []) (itemsOf done)
      (Nat.zero_le s.lruCacheStrategy.maxSize.toNat)
    have hin : p ∈ rowsInOrder s.disk.rows := by
      rw [hsplit]
      exact List.mem_append_right _ List.mem_cons_self
    obtain ⟨row, hrow, hsize⟩ := mem_rowsInOrder.mp hin
    have hrow : s.disk.row p.1 = some row := hrow
    have hmatch := h.sizes_match p.1
    rw [hrow] at hmatch
    -- the row has no entry, so it is larger than the cache
    cases hentry : sizeAt s.lruCacheStrategy p.1 with
    | some size =>
      rw [hentry] at hmatch
      have hmatch : row.responseBodySize = size := hmatch
      rw [← hsize, hmatch] at hle
      exact absurd (size_le_of_listed h hentry) hle
    | none =>
      rw [hentry] at hmatch
      have hsum := hmatch.2
      rw [hsize] at hsum
      omega

/-- A new instance has the list of the one that runs. -/
theorem keysOf_reopened (h : Follows s.lruCacheStrategy s.disk) (hdir : s.cacheRootDir ≠ "") :
    keysOf (reopened s).lruCacheStrategy = keysOf s.lruCacheStrategy := by
  have hperm := perm_rows h
  have hnodup : (SizedQueue.keys (itemsOf (rowsInOrder s.disk.rows))).Nodup := by
    rw [keys_itemsOf]
    exact nodup_rowsInOrder s.disk.rows
  have hroom : size ([] : List (String × ℕ)) + size ((itemsOf (rowsInOrder s.disk.rows)).filter
      fun r => r.2 ≤ s.lruCacheStrategy.maxSize.toNat) ≤ s.lruCacheStrategy.maxSize.toNat := by
    rw [size_perm hperm, size_queueOf, ← h.bounded.total]
    show 0 + _ ≤ _
    have hle := h.bounded.le
    omega
  have hqueue : queueOf (reopened s).lruCacheStrategy =
      (itemsOf (rowsInOrder s.disk.rows)).foldl (enqueue s.lruCacheStrategy.maxSize.toNat) [] :=
    by
    have hquiet : ({ s.disk with faults := {} } : Disk).faults = {} := rfl
    exact (opening_opened hquiet hdir (admissibleAll_of_follows h)).1.queue_eq
  rw [foldl_enqueue_of_room hnodup hroom, List.nil_append] at hqueue
  have hkeys : keysOf s.lruCacheStrategy =
      (SizedQueue.keys (queueOf s.lruCacheStrategy)).reverse := keysOf_eq rfl
  have hlisted : ∀ k, k ∈ SizedQueue.keys ((itemsOf (rowsInOrder s.disk.rows)).filter
      fun r => r.2 ≤ s.lruCacheStrategy.maxSize.toNat) → k ∈ keysOf s.lruCacheStrategy := by
    intro k hk
    rw [hkeys, List.mem_reverse]
    exact (hperm.map Prod.fst).mem_iff.mp hk
  rw [keysOf_eq hqueue]
  refine eq_of_ordered ?_ (ordered_of_rows List.filter_sublist fun k hk k' hk' htime =>
    h.ordered.eq_of_time_eq (hlisted k hk) (hlisted k' hk') htime) h.ordered
  rw [hkeys]
  exact (List.reverse_perm _).trans ((hperm.map Prod.fst).trans (List.reverse_perm _).symm)

/-- Where the times follow the list the order is persisted. -/
theorem persistsOrder_of_follows (h : Follows s.lruCacheStrategy s.disk)
    (hdir : s.cacheRootDir ≠ "") : PersistsOrder s := by
  unfold PersistsOrder evictionOrder
  rw [keysOf_reopened h hdir]

/-! ## Runs -/

/-- `createFile` is what others do to the file system, such as writing the body that `put`
moves. -/
inductive Operation where
  | getMetadata (key : String)
  | getData (key : String)
  | get (key : String)
  | releaseData (key : String)
  | putMetadata (key : String) (httpCacheMetadata : HttpCacheMetadata)
  | put (key : String) (httpCacheMetadata : HttpCacheMetadata) (path : String)
  | remove (key : String)
  | createFile (path content : String)

/-- An operation with the second it happens in and the failures it meets. -/
structure Action where
  operation : Operation
  nowAtEpoch : Int64
  faults : Faults := {}

/-- One operation. -/
def perform (json : PocoJson) (s : HttpFileCache) : Operation → HttpFileCache
  | .getMetadata key => (exec (getMetadata json key) s).2
  | .getData key => (exec (getData key) s).2
  | .get key => (exec (get json key) s).2
  | .releaseData key => (exec (releaseData key) s).2
  | .putMetadata key httpCacheMetadata => (exec (putMetadata json key httpCacheMetadata) s).2
  | .put key httpCacheMetadata path => (exec (put json key httpCacheMetadata path) s).2
  | .remove key => (exec (remove key) s).2
  | .createFile path content =>
    { s with disk := { s.disk with files := s.disk.files.set path content } }

/-- The second of an action, and the disk without failures. -/
def start (s : HttpFileCache) (action : Action) : HttpFileCache :=
  { s with disk := { s.disk with
    nowAtEpoch := action.nowAtEpoch
    faults := action.faults } }

/-- An operation at a later second. -/
def step (json : PocoJson) (s : HttpFileCache) (action : Action) : Option HttpFileCache :=
  some (perform json (start s action) action.operation)

/-- The operation writes the time of each row whose entry it moves to the latest position, unless
the entry stands there, and it meets no failure. New metadata is of the key and the size of the
entry, and the size of a new entry can be added up. -/
def MovesWithRow (json : PocoJson) (s : HttpFileCache) : Operation → Prop
  | .getMetadata key | .get key => ∀ info ∈ s.entry key, s.disk.faults = {} ∧
    (info.reservedRemove = false ∧ IsReadable json key s.disk ∨ IsFirst s key)
  | .getData key => ∀ info ∈ s.entry key, s.disk.faults = {} ∧ IsFirst s key
  | .releaseData key => ∀ info ∈ s.entry key, s.disk.faults = {} ∧
    (info.dataRefCount = 1 ∧ info.reservedRemove = true ∨ IsFirst s key)
  | .putMetadata key httpCacheMetadata => ∀ info ∈ s.entry key, s.disk.faults = {} ∧
    (isWritable info = true ∧ httpCacheMetadata.key = key ∧
      httpCacheMetadata.responseBodySize = info.dataSize ∨
      isWritable info = false ∧ IsFirst s key)
  | .put key httpCacheMetadata _ => s.disk.faults = {} ∧ httpCacheMetadata.key = key ∧
    s.lruCacheStrategy.totalSize.toNat + httpCacheMetadata.responseBodySize.toNat < 2 ^ 64 ∧
    ∀ info ∈ s.entry key, isWritable info = true ∨ IsFirst s key
  | .remove key => ∀ info ∈ s.entry key, s.disk.faults = {} ∧
    (info.dataRefCount = 0 ∨ info.reservedRemove = true ∨ IsFirst s key)
  | .createFile _ _ => True

/-- Nothing was used in this second or a later one. -/
def IsLater (s : HttpFileCache) : Prop :=
  ∀ k ∈ keysOf s.lruCacheStrategy, accessedAt s.disk k < s.disk.nowAtEpoch.toInt

/-- The condition on a step. -/
def KeepsRecency (json : PocoJson) (s : HttpFileCache) (action : Action) : Prop :=
  IsLater (start s action) ∧ MovesWithRow json (start s action) action.operation

/-- What holds in every state of a run. -/
structure Inv (s : HttpFileCache) : Prop where
  initialized : s.cacheInitialized = true
  dir_ne : s.cacheRootDir ≠ ""
  follows : Follows s.lruCacheStrategy s.disk

/-- One operation under the condition. -/
theorem stays_perform {operation : Operation} (h : Usable s)
    (hmoves : MovesWithRow json s operation) : ListOrder.Stays s (perform json s operation) := by
  cases operation with
  | getMetadata key => exact wp_final (stays_getMetadata h hmoves)
  | getData key => exact wp_final (stays_getData h hmoves)
  | get key => exact wp_final (stays_get h hmoves)
  | releaseData key => exact wp_final (stays_releaseData h hmoves)
  | putMetadata key httpCacheMetadata => exact wp_final (stays_putMetadata h hmoves)
  | put key httpCacheMetadata path =>
    obtain ⟨hquiet, hkey, hfits, hcond⟩ := hmoves
    exact wp_final (stays_put h hquiet hkey hfits hcond)
  | remove key => exact wp_final (stays_remove h hmoves)
  | createFile path content => exact ⟨rfl, rfl, follows_of_rows h.follows rfl⟩

/-- Each step that keeps the recency keeps it. -/
theorem step_inv (s : HttpFileCache) (action : Action) (s' : HttpFileCache) (h : Inv s)
    (hkeeps : KeepsRecency json s action) (hstep : step json s action = some s') : Inv s' := by
  cases hstep
  have husable : Usable (start s action) :=
    ⟨.inl h.initialized, follows_of_rows h.follows rfl, hkeeps.1⟩
  have hstays := stays_perform husable hkeeps.2
  exact ⟨hstays.initialized.trans h.initialized, hstays.cacheRootDir_eq ▸ h.dir_ne, hstays.follows⟩

theorem inv_opened (hdir : cacheRootDir ≠ "") (hquiet : disk.faults = {})
    (hdistinct : DistinctSeconds disk) (hadd : SizesAdd maxSize disk) :
    Inv (opened cacheRootDir maxSize disk) := by
  obtain ⟨hopening, hinit⟩ := opening_opened hquiet hdir (admissibleAll_of_sizesAdd hadd)
  have hsub := foldl_enqueue_sublist maxSize.toNat [] (itemsOf (rowsInOrder disk.rows))
  rw [List.nil_append] at hsub
  have hsize := size_foldl_enqueue_le (q := []) (itemsOf (rowsInOrder disk.rows))
    (Nat.zero_le maxSize.toNat)
  refine ⟨hinit, ?_, follows_of_opening hopening hsub hsize hdistinct hadd⟩
  rw [hopening.cacheRootDir_eq]
  exact hdir

instance (disk : Disk) : Decidable (DistinctSeconds disk) :=
  inferInstanceAs (Decidable (∀ e ∈ disk.rows.entries, ∀ e' ∈ disk.rows.entries, _))

instance (maxSize : UInt64) (disk : Disk) : Decidable (SizesAdd maxSize disk) :=
  inferInstanceAs (Decidable (∀ e ∈ disk.rows.entries, _))

instance (json : PocoJson) (key : String) (disk : Disk) : Decidable (IsReadable json key disk) :=
  inferInstanceAs (Decidable (∀ row ∈ disk.row key, _))

instance (s : HttpFileCache) (key : String) : Decidable (IsFirst s key) :=
  inferInstanceAs (Decidable (_ = _))

instance (json : PocoJson) (s : HttpFileCache) (operation : Operation) :
    Decidable (MovesWithRow json s operation) := by
  cases operation <;> unfold MovesWithRow <;> infer_instance

instance (json : PocoJson) (s : HttpFileCache) (action : Action) :
    Decidable (KeepsRecency json s action) := by
  unfold KeepsRecency IsLater
  infer_instance

instance (s : HttpFileCache) : Decidable (PersistsOrder s) := inferInstanceAs (Decidable (_ = _))

/-- A body written to a temporary file and put into the cache. -/
def store (key : String) (nowAtEpoch : Int64) : List Action :=
  [⟨.createFile "/temp/1" "abc", nowAtEpoch, {}⟩,
    ⟨.put key (CacheReaders.metadataOf key) "/temp/1", nowAtEpoch, {}⟩]

/-- A cache over an empty directory. -/
def empty : HttpFileCache := opened "/cache" 10 CacheReaders.emptyDisk

/-- What an instance with two entries leaves behind. -/
def leftDisk : Disk :=
  ((Runs.run (step CacheReaders.plainJson) empty (store "a" 1 ++ store "b" 2)).getD empty).disk

/-- Another entry is put, the oldest is read with its metadata and released while it is the one
used last, and one is removed. -/
def readRun : List Action :=
  store "c" 3 ++ [⟨.get "a", 4, {}⟩, ⟨.releaseData "a", 5, {}⟩, ⟨.getMetadata "b", 6, {}⟩,
    ⟨.remove "c", 7, {}⟩]

/-- The body of the older of two entries is read. -/
def bodyRun : List Action := store "a" 1 ++ store "b" 2 ++ [⟨.getData "a", 3, {}⟩]

end EasyHttp.PersistedOrder
