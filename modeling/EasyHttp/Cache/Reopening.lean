import EasyHttp.Cache.OrderedRemoval

/-!
# The rows of a cache that is opened again

When a cache is opened over the rows of an earlier one, its list is the queue to which the rows
were admitted, in the order of their last access.

* `Opening`: what holds while rows are still to come: rows, bodies and entries fit together;
* `wp_onEnumerate_opening`: one row;
* `wp_handOver_opening`: some rows, one of which may fail to be read;
* `wp_initializeCache_opening`: a whole initialization, of a cache to which some of the rows were
  handed over before.
-/

namespace EasyHttp.HttpFileCache

open Exec LruCacheByDataSizeStrategy LruOperations LruCapacity SizedQueue

/-- The row and the size of each key as items of a queue. -/
def itemsOf (params : List (String × UInt64)) : List (String × ℕ) :=
  params.map fun p => (p.1, p.2.toNat)

/-- What stays of the rows: those in the queue, those still to come, and those that are too large
for the cache, which are passed over. -/
def Stays (disk : Disk) (maxSize : UInt64) (q : List (String × ℕ))
    (rest : List (String × UInt64)) (k : String) : Prop :=
  k ∈ SizedQueue.keys q ∨ k ∈ rest.map Prod.fst ∨
    ∃ row, disk.row k = some row ∧ maxSize < row.responseBodySize

/-- The rows of `rest` are still to be handed over to a cache whose list is the queue `q`; the
disk was `disk` at first. -/
structure Opening (disk : Disk) (cacheRootDir : String) (maxSize : UInt64)
    (q : List (String × ℕ)) (rest : List (String × UInt64)) (s : HttpFileCache) : Prop where
  exact_total : Exact s.lruCacheStrategy
  idle : NobodyReads s.lruCacheStrategy
  queue_eq : queueOf s.lruCacheStrategy = q
  maxSize_eq : s.lruCacheStrategy.maxSize = maxSize
  cacheRootDir_eq : s.cacheRootDir = cacheRootDir
  row_stays : ∀ k, Stays disk maxSize q rest k → s.disk.row k = disk.row k
  row_goes : ∀ k, ¬Stays disk maxSize q rest k → s.disk.row k = none
  file_goes : ∀ k, (disk.row k).isSome → ¬Stays disk maxSize q rest k →
    s.disk.file (makeCachedFilename cacheRootDir k) = none
  file_stays : ∀ p, (∀ k, (disk.row k).isSome → ¬Stays disk maxSize q rest k →
    p ≠ makeCachedFilename cacheRootDir k) → s.disk.file p = disk.file p
  queued : ∀ p ∈ q, p.2 ≤ maxSize.toNat ∧
    ∃ row, disk.row p.1 = some row ∧ row.responseBodySize.toNat = p.2
  awaited : ∀ p ∈ rest, ∃ row, disk.row p.1 = some row ∧ row.responseBodySize = p.2

variable {pending : List Fault} {disk d : Disk} {cacheRootDir key : String} {maxSize size : UInt64}
  {q : List (String × ℕ)} {params rest later : List (String × UInt64)} {s t u : HttpFileCache}

/-! ## One row -/

/-- What the cache keeps as long as nothing fails, whatever rows are handed over. -/
structure Carried (I : Stores → Prop) : Prop where
  spent : ∀ p, I p → Spent p
  same : ∀ p d, I p → Disk.Same p.2 d → I (p.1, d)
  remove : ∀ cacheRootDir key p, I p →
    wp (HttpLruCacheStrategy.remove (listener cacheRootDir) key) (fun _ p' => I p')
      (fun _ _ => False) p
  push : ∀ p key info, I p → info.key = key → info.dataRefCount = 0 ∧ info.reservedRemove = false →
    I (p.1.push key info, p.2)

section
variable {I : Stores → Prop} {p : Stores}

/-- What removals carry on `makeSpaceFor` does. -/
theorem Carried.wp_makeSpaceFor (hI : Carried I) (h : I p) (requestSize : UInt64)
    (updatedKey : String) :
    wp (makeSpaceFor (HttpLruCacheStrategy.virtuals (listener cacheRootDir)) requestSize updatedKey)
      (fun _ p' => I p') (fun _ _ => False) p :=
  wp_makeSpaceFor_each (hI.spent p h).wf requestSize
    (fun key _ p' _ _ _ hp' => hI.remove cacheRootDir key p' hp') h

/-- A new entry may be pushed or not. -/
theorem Carried.wp_add (hI : Carried I) {info : HttpCacheInfo} (h : I s.stores)
    (hkey : info.key = key) (hinfo : info.dataRefCount = 0 ∧ info.reservedRemove = false) :
    wp (lru (HttpLruCacheStrategy.add · key info)) (fun _ t => I t.stores)
      (fun _ _ => False) s := by
  refine wp_add_unlisted ?_
  rw [wp_lru]
  have hspace : wp (spaceFor (HttpLruCacheStrategy.virtuals (listener s.cacheRootDir)) key info)
      (fun _ p => I p) (fun _ _ => False) s.stores := by
    unfold spaceFor
    rw [wp_bind, wp_getState]
    split
    · split
      · exact hI.wp_makeSpaceFor h _ _
      · exact h
    · exact hI.wp_makeSpaceFor h _ _
  unfold addOrUpdate
  rw [wp_bind]
  refine wp_mono hspace (fun ret p hp => ?_) fun _ _ he => he
  cases ret with
  | false => exact hp
  | true => exact hI.push p key info hp hkey hinfo

/-- So does `makeSpace`. -/
theorem Carried.wp_makeSpace (hI : Carried I) (h : I s.stores) (requestSize : UInt64) :
    wp (lru (HttpLruCacheStrategy.makeSpace · requestSize)) (fun _ t => I t.stores)
      (fun _ _ => False) s := by
  rw [wp_lru]
  exact hI.wp_makeSpaceFor h requestSize ""

/-- So does the loading of a row. -/
theorem Carried.wp_onEnumerate (hI : Carried I) (h : I s.stores) (key : String) (size : UInt64) :
    wp (onEnumerate key size) (fun _ t => I t.stores) (fun _ _ => False) s := by
  unfold onEnumerate
  rw [wp_bind]
  refine wp_mono (hI.wp_makeSpace h size) (fun ret t ht => ?_) fun _ _ he => he
  cases ret with
  | false => exact ht
  | true =>
    show wp (newHttpCacheInfo key size >>= _) _ _ t
    unfold newHttpCacheInfo
    rw [wp_bind, wp_bind, wp_getState, wp_bind, wp_modifyState, wp_pure, wp_bind]
    exact wp_mono (hI.wp_add ht rfl ⟨rfl, rfl⟩) (fun _ _ hu => hu) fun _ _ he => he

/-- The body of the loop of `enumerate`. -/
def handOver (param : String × UInt64) : CacheExec Unit := do
  onDisk Disk.databaseCall
  let _ ← onEnumerate param.1 param.2

/-- And of all rows. -/
theorem Carried.wp_handOver (hI : Carried I) (h : I s.stores) (params : List (String × UInt64)) :
    wp (forEach handOver params) (fun _ (t : HttpFileCache) => I t.stores)
      (fun _ _ => False) s := by
  refine wp_forEach (I := fun _ (t : HttpFileCache) => I t.stores) (fun param rest t ht => ?_) h
  unfold handOver
  rw [wp_bind, wp_onDisk]
  have hfaults : t.disk.faults = {} := (hI.spent _ ht).faults_eq
  refine wp_mono (Disk.wp_databaseCall t.disk) (fun _ d hd => ?_) fun e d hd =>
    not_databaseFails_of_faults_eq hfaults hd.2.1
  rw [wp_bind]
  exact wp_mono (hI.wp_onEnumerate (s := { t with disk := d }) (hI.same _ d ht hd.1) _ _)
    (fun _ _ hu => hu) fun _ _ he => he

end

/-- When the failure is over it stays so. -/
theorem carried_spent : Carried Spent where
  spent := fun _ h => h
  same := fun _ _ h hsame => ⟨h.wf, h.idle, Disk.Later.faults_eq hsame.1 h.faults_eq⟩
  remove := fun _ _ _ h => wp_remove_spent h
  push := by
    intro p key info h hkey hinfo
    refine ⟨h.wf.wf_push hkey, fun i hi => ?_, h.faults_eq⟩
    have hi : i ∈ (p.1.push key info).lruList.values := hi
    rw [h.wf.values_push] at hi
    rcases List.mem_cons.mp hi with rfl | hold
    · exact hinfo
    · exact h.idle i (List.mem_of_mem_filter hold)

/-- With room enough nothing is removed. -/
theorem wp_makeSpace_room (hroom : s.lruCacheStrategy.totalSize.toNat + size.toNat ≤
      s.lruCacheStrategy.maxSize.toNat) :
    wp (lru (HttpLruCacheStrategy.makeSpace · size)) (fun ret t => ret = true ∧ t = s)
      (fun _ _ => False) s := by
  have hspace : s.lruCacheStrategy.totalSize + size ≤ s.lruCacheStrategy.maxSize := by
    have hlt := s.lruCacheStrategy.maxSize.toNat_lt
    rw [UInt64.le_iff_toNat_le, UInt64.toNat_add]
    omega
  rw [wp_lru]
  exact (wp_makeSpaceFor_space hspace).mpr ⟨rfl, rfl⟩

/-- An entry for which there is room is pushed, and so is one in the place of an older one of its
size. -/
theorem wp_add_room {info : HttpCacheInfo}
    (hroom : s.entry key = none → s.lruCacheStrategy.totalSize.toNat + info.dataSize.toNat ≤
      s.lruCacheStrategy.maxSize.toNat)
    (hsize : ∀ old, s.entry key = some old → old.dataSize = info.dataSize) :
    wp (lru (HttpLruCacheStrategy.add · key info))
      (fun _ t => t = { s with lruCacheStrategy := s.lruCacheStrategy.push key info })
      (fun _ _ => False) s := by
  refine wp_add_unlisted ?_
  cases hentry : s.entry key with
  | none =>
    refine wp_addOrUpdate_new hentry ?_
    refine wp_mono (wp_makeSpace_room (hroom hentry)) (fun _ t ht => ?_) fun _ _ he => he
    obtain ⟨rfl, rfl⟩ := ht
    rfl
  | some old =>
    obtain ⟨it, hfind⟩ := find_of_entry hentry
    rw [wp_lru]
    unfold wp
    have hfind : s.stores.1.find key = some (it, old) := hfind
    rw [HttpLruCacheStrategy.exec_addOrUpdate_own hfind (hsize old hentry).symm]
    rfl

/-- A new entry goes to the end of the queue. -/
theorem queueOf_push {list : LruCacheByDataSizeStrategy HttpCacheInfo} {info : HttpCacheInfo}
    (hwf : list.Wf) (hkey : info.key = key) : queueOf (list.push key info) =
      (queueOf list).filter (fun p => p.1 ≠ key) ++ [(key, info.dataSize.toNat)] := by
  unfold queueOf
  rw [hwf.values_push, List.map_cons, List.reverse_cons, hkey, List.filter_reverse, List.filter_map]
  rfl

/-- Each entry has its row. -/
theorem Opening.row_isSome (h : Opening disk cacheRootDir maxSize q rest s) {k : String}
    (hentry : (s.entry k).isSome) : (s.disk.row k).isSome := by
  have hmem : k ∈ SizedQueue.keys q := by
    rw [← h.queue_eq]
    exact (mem_keys_queueOf h.exact_total.wf).mpr hentry
  obtain ⟨p, hp, hkey⟩ := List.mem_map.mp hmem
  obtain ⟨-, row, hrow, -⟩ := h.queued p hp
  rw [h.row_stays k (.inl hmem), ← hkey, hrow]
  rfl

/-- A row that is too large is passed over. -/
theorem Opening.passed (h : Opening disk cacheRootDir maxSize q ((key, size) :: rest) s)
    (hlarge : maxSize < size) : Opening disk cacheRootDir maxSize q rest s := by
  obtain ⟨row, hrow, hsize⟩ := h.awaited (key, size) List.mem_cons_self
  have hstays : ∀ k, Stays disk maxSize q ((key, size) :: rest) k ↔
      Stays disk maxSize q rest k := by
    intro k
    unfold Stays
    rw [List.map_cons, List.mem_cons]
    constructor
    · rintro (hq | (hk | hrest) | hbig)
      · exact .inl hq
      · refine .inr (.inr ⟨row, ?_, ?_⟩)
        · rw [hk]
          exact hrow
        · rw [hsize]
          exact hlarge
      · exact .inr (.inl hrest)
      · exact .inr (.inr hbig)
    · rintro (hq | hrest | hbig)
      · exact .inl hq
      · exact .inr (.inl (.inr hrest))
      · exact .inr (.inr hbig)
  exact ⟨h.exact_total, h.idle, h.queue_eq, h.maxSize_eq, h.cacheRootDir_eq,
    fun k hk => h.row_stays k ((hstays k).mpr hk),
    fun k hk => h.row_goes k fun hold => hk ((hstays k).mp hold),
    fun k hrow hk => h.file_goes k hrow fun hold => hk ((hstays k).mp hold),
    fun p hp => h.file_stays p fun k hrow hk => hp k hrow fun hold => hk ((hstays k).mpr hold),
    h.queued, fun p hp => h.awaited p (List.mem_cons_of_mem _ hp)⟩

/-- When a row is admitted, those that stayed so far are the ones that stay and the ones that are
taken for it. -/
theorem stays_cons_iff (hle : size.toNat ≤ maxSize.toNat) (k : String) :
    Stays disk maxSize q ((key, size) :: rest) k ↔
      Stays disk maxSize (enqueue maxSize.toNat q (key, size.toNat)) rest k ∨
      k ∈ (SizedQueue.keys (oldest (excess maxSize.toNat q (key, size.toNat)) q)).reverse := by
  have hadmitted := mem_keys_enqueue (q := q) (p := (key, size.toNat)) hle (k := k)
  have hsplit := mem_keys_iff (excess maxSize.toNat q (key, size.toNat)) q (k := k)
  have hcons : k ∈ ((key, size) :: rest).map Prod.fst ↔ k = key ∨ k ∈ rest.map Prod.fst :=
    List.mem_cons
  -- a row stays if it is queued, still to come, or too large
  unfold Stays
  rw [hadmitted, hsplit, hcons, List.mem_reverse]
  constructor
  · rintro ((hold | hkept) | (hnew | hrest) | hbig)
    · exact .inr hold
    · exact .inl (.inl (.inr hkept))
    · exact .inl (.inl (.inl hnew))
    · exact .inl (.inr (.inl hrest))
    · exact .inl (.inr (.inr hbig))
  · rintro (((hnew | hkept) | hrest | hbig) | hold)
    · exact .inr (.inl (.inl hnew))
    · exact .inl (.inr hkept)
    · exact .inr (.inl (.inr hrest))
    · exact .inr (.inr hbig)
    · exact .inl (.inl hold)

/-- A queued row that is taken does not stay, if it is neither the row at hand nor still to
come. -/
theorem Opening.not_stays_of_taken (h : Opening disk cacheRootDir maxSize q ((key, size) :: rest) s)
    (hle : size.toNat ≤ maxSize.toNat) {k : String} (hqueued : k ∈ SizedQueue.keys q)
    (hne : k ≠ key) (hrest : k ∉ rest.map Prod.fst)
    (hk : k ∈ SizedQueue.keys (oldest (excess maxSize.toNat q (key, size.toNat)) q)) :
    ¬Stays disk maxSize (enqueue maxSize.toNat q (key, size.toNat)) rest k := by
  have hnodup : (SizedQueue.keys q).Nodup := by
    rw [← h.queue_eq]
    exact nodup_keys_queueOf h.exact_total.wf
  intro hstay
  unfold Stays at hstay
  rw [mem_keys_enqueue (p := (key, size.toNat)) hle] at hstay
  rcases hstay with (heq | hkept) | hin | ⟨row, hrow, hbig⟩
  · exact hne heq
  -- a key is queued once
  · exact not_mem_keys_oldest hnodup hkept hk
  · exact hrest hin
  -- nothing that is queued is too large
  · obtain ⟨p, hp, hkey⟩ := List.mem_map.mp hqueued
    obtain ⟨hp2, row', hrow', hsize'⟩ := h.queued p hp
    rw [hkey, hrow] at hrow'
    cases hrow'
    rw [UInt64.lt_iff_toNat_lt] at hbig
    omega

/-- The list after the oldest entries were taken and the new one was pushed: its total is exact,
and it is the queue with the new item. -/
theorem Opening.pushed (h : Opening disk cacheRootDir maxSize q ((key, size) :: rest) s)
    {info : HttpCacheInfo} (hkey : info.key = key) (hsize : info.dataSize = size)
    (hle : size.toNat ≤ maxSize.toNat) (hfits : SizedQueue.size q + size.toNat < 2 ^ 64)
    (htakes : Takes s.cacheRootDir (SizedQueue.keys
      (oldest (excess maxSize.toNat q (key, size.toNat)) q)).reverse s.stores t.stores) :
    Exact (t.lruCacheStrategy.push key info) ∧
      queueOf (t.lruCacheStrategy.push key info) = enqueue maxSize.toNat q (key, size.toNat) := by
  have hwf : t.lruCacheStrategy.Wf := htakes.exact_total.wf
  have hqueue : queueOf t.lruCacheStrategy =
      dropOldest (excess maxSize.toNat q (key, size.toNat)) q := by
    have hold : q = queueOf s.stores.1 := h.queue_eq.symm
    rw [hold] at htakes ⊢
    exact queueOf_takes h.exact_total.wf htakes
  constructor
  · have hexact : t.lruCacheStrategy.totalSize.toNat = sizes t.lruCacheStrategy.lruList.values :=
      htakes.exact_total.total
    have hsmaller := size_sublist (dropOldest_sublist (excess maxSize.toNat q (key, size.toNat)) q)
    rw [← hqueue, size_queueOf, ← hexact] at hsmaller
    refine (htakes.exact_total.push hkey ?_).1
    show t.lruCacheStrategy.totalSize.toNat + info.dataSize.toNat < _
    rw [hsize]
    omega
  · rw [queueOf_push hwf hkey, hsize, enqueue_of_le hle, hqueue]

/-- A row whose entry is pushed once the oldest entries were taken. -/
theorem Opening.admitted (h : Opening disk cacheRootDir maxSize q ((key, size) :: rest) s)
    (info : HttpCacheInfo) (hkey : info.key = key) (hsize : info.dataSize = size)
    (hinfo : info.dataRefCount = 0 ∧ info.reservedRemove = false) (hle : size ≤ maxSize)
    (hfits : SizedQueue.size q + size.toNat < 2 ^ 64)
    (hfree : (∀ k ∈ SizedQueue.keys q, k ≠ key ∧ k ∉ rest.map Prod.fst) ∨
      SizedQueue.size q + size.toNat ≤ maxSize.toNat)
    (htakes : Takes s.cacheRootDir (SizedQueue.keys
      (oldest (excess maxSize.toNat q (key, size.toNat)) q)).reverse s.stores t.stores)
    (hdir : t.cacheRootDir = s.cacheRootDir) :
    Opening disk cacheRootDir maxSize (enqueue maxSize.toNat q (key, size.toNat)) rest
      { t with lruCacheStrategy := t.lruCacheStrategy.push key info } := by
  have hle' : size.toNat ≤ maxSize.toNat := UInt64.le_iff_toNat_le.mp hle
  have hwf : t.lruCacheStrategy.Wf := htakes.exact_total.wf
  obtain ⟨hpush, henqueue⟩ := h.pushed hkey hsize hle' hfits htakes
  have hstays : ∀ k, Stays disk maxSize q ((key, size) :: rest) k ↔ _ := stays_cons_iff hle'
  -- what is taken is neither the row at hand nor still to come, so it does not stay
  have hgone : ∀ k, k ∈ (SizedQueue.keys
      (oldest (excess maxSize.toNat q (key, size.toNat)) q)).reverse → k ∈ SizedQueue.keys q ∧
        ¬Stays disk maxSize (enqueue maxSize.toNat q (key, size.toNat)) rest k := by
    intro k hk
    rw [List.mem_reverse] at hk
    have hq : k ∈ SizedQueue.keys q := ((oldest_sublist _ q).map Prod.fst).mem hk
    rcases hfree with hfree | hroom
    · exact ⟨hq, h.not_stays_of_taken hle' hq (hfree k hq).1 (hfree k hq).2 hk⟩
    · rw [excess_eq_zero hroom, oldest_zero] at hk
      exact absurd hk List.not_mem_nil
  refine ⟨hpush, fun i hi => ?_, henqueue,
    maxSize_push.trans (htakes.maxSize_eq.trans h.maxSize_eq), hdir.trans h.cacheRootDir_eq,
    fun k hk => ?_, fun k hk => ?_, fun k hrow hk => ?_,
    fun p hp => ?_, fun p hp => ?_, fun p hp => h.awaited p (List.mem_cons_of_mem _ hp)⟩
  -- nothing in the list is read
  · have hi : i ∈ (t.lruCacheStrategy.push key info).lruList.values := hi
    rw [hwf.values_push] at hi
    rcases List.mem_cons.mp hi with rfl | hold
    · exact hinfo
    · exact htakes.idle h.idle i (List.mem_of_mem_filter hold)
  · have hrow : t.disk.row k = _ := htakes.row_eq k
    show t.disk.row k = _
    rw [hrow, if_neg fun hold => (hgone k hold).2 hk]
    exact h.row_stays k ((hstays k).mpr (.inl hk))
  -- the rows that were taken are gone, with their files
  · have hrow : t.disk.row k = _ := htakes.row_eq k
    show t.disk.row k = _
    rw [hrow]
    by_cases hold : k ∈ (SizedQueue.keys
      (oldest (excess maxSize.toNat q (key, size.toNat)) q)).reverse
    · rw [if_pos hold]
    · rw [if_neg hold]
      exact h.row_goes k fun hk' => ((hstays k).mp hk').elim hk hold
  · have hfile : t.disk.file (makeCachedFilename cacheRootDir k) = _ := htakes.file_eq _
    show t.disk.file _ = _
    rw [hfile]
    by_cases hold : k ∈ (SizedQueue.keys
      (oldest (excess maxSize.toNat q (key, size.toNat)) q)).reverse
    · rw [if_pos ⟨k, hold, by rw [h.cacheRootDir_eq]⟩]
    · split
      · rfl
      · exact h.file_goes k hrow fun hk' => ((hstays k).mp hk').elim hk hold
  · have hfile : t.disk.file p = _ := htakes.file_eq p
    show t.disk.file p = _
    rw [hfile, if_neg]
    · exact h.file_stays p fun k hrow hk => hp k hrow fun hk' => hk ((hstays k).mpr (.inl hk'))
    -- only body files of keys that were taken have gone
    · rintro ⟨k, hold, rfl⟩
      obtain ⟨e, he, hkey⟩ := List.mem_map.mp (hgone k hold).1
      obtain ⟨-, row, hrow, -⟩ := h.queued e he
      refine hp k ?_ (hgone k hold).2 (by rw [h.cacheRootDir_eq])
      rw [← hkey, hrow]
      rfl
  · rw [enqueue_of_le hle'] at hp
    -- each queued item has the size of its row
    rcases List.mem_append.mp hp with hold | hnew
    · exact h.queued p ((dropOldest_sublist _ q).mem (List.mem_of_mem_filter hold))
    · obtain ⟨row, hrow, hrowSize⟩ := h.awaited (key, size) List.mem_cons_self
      rw [List.mem_singleton.mp hnew]
      exact ⟨hle', row, hrow, by rw [hrowSize]⟩

/-- What a row needs to be handed over: its size can be added, and what may be taken for it is
not still to come. -/
def Admissible (maxSize : UInt64) (q : List (String × ℕ)) (p : String × UInt64)
    (rest : List (String × UInt64)) : Prop :=
  SizedQueue.size q + p.2.toNat < 2 ^ 64 ∧ (maxSize < p.2 ∨
    (∀ k ∈ SizedQueue.keys q, k ≠ p.1 ∧ k ∉ rest.map Prod.fst) ∨
    SizedQueue.size q + p.2.toNat ≤ maxSize.toNat)

/-- The oldest entries are taken, as many as the row needs. -/
theorem Opening.wp_makeSpace (hpending : OneFailure pending)
    (h : Opening disk cacheRootDir maxSize q rest s) (hahead : Ahead pending s.disk)
    (hfits : SizedQueue.size q + size.toNat < 2 ^ 64) (hle : size ≤ maxSize) (key : String) :
    wp (HttpLruCacheStrategy.makeSpace (listener s.cacheRootDir) size)
      (fun ret p => ret = true ∧ Outcome pending (Takes s.cacheRootDir (SizedQueue.keys
        (oldest (excess maxSize.toNat q (key, size.toNat)) q)).reverse s.stores p) p)
      (fun _ _ => False) s.stores := by
  have htotal : s.lruCacheStrategy.totalSize.toNat = SizedQueue.size q := by
    rw [← h.queue_eq, size_queueOf, h.exact_total.total]
  have hmax : s.stores.1.maxSize = maxSize := h.maxSize_eq
  have hqueue : queueOf s.stores.1 = q := h.queue_eq
  have hfits' : s.stores.1.totalSize.toNat + size.toNat < 2 ^ 64 := by
    show s.lruCacheStrategy.totalSize.toNat + _ < _
    rw [htotal]
    exact hfits
  have hrows : ∀ k, (s.stores.1.entry k).isSome → (s.stores.2.row k).isSome := fun k hk =>
    h.row_isSome hk
  have hspace : wp (HttpLruCacheStrategy.makeSpace (listener s.cacheRootDir) size) _ _ s.stores :=
    wp_makeSpace_queue hpending hahead h.exact_total h.idle hrows hfits' (by rw [hmax]; exact hle)
      key
  rw [hmax, hqueue] at hspace
  exact hspace

/-- Then there is room for it. -/
theorem Opening.room (h : Opening disk cacheRootDir maxSize q rest s) {p : Stores}
    (hle : size ≤ maxSize) (htakes : Takes s.cacheRootDir (SizedQueue.keys
      (oldest (excess maxSize.toNat q (key, size.toNat)) q)).reverse s.stores p) :
    p.1.totalSize.toNat + size.toNat ≤ p.1.maxSize.toNat := by
  have hdropped : queueOf p.1 = dropOldest (excess maxSize.toNat q (key, size.toNat)) q := by
    have hqueue : q = queueOf s.stores.1 := h.queue_eq.symm
    rw [hqueue] at htakes ⊢
    exact queueOf_takes h.exact_total.wf htakes
  have hroom := size_dropOldest_excess (q := q) (p := (key, size.toNat))
    (UInt64.le_iff_toNat_le.mp hle)
  have hmax : p.1.maxSize = maxSize := htakes.maxSize_eq.trans h.maxSize_eq
  rw [← hdropped, size_queueOf, ← htakes.exact_total.total] at hroom
  rw [hmax]
  exact hroom

/-- A row that is loaded is one put in a queue. -/
theorem wp_onEnumerate_opening (hpending : OneFailure pending)
    (h : Opening disk cacheRootDir maxSize q ((key, size) :: rest) s)
    (hahead : Ahead pending s.disk) (hadmissible : Admissible maxSize q (key, size) rest) :
    wp (onEnumerate key size)
      (fun _ t => Outcome pending (Opening disk cacheRootDir maxSize
        (enqueue maxSize.toNat q (key, size.toNat)) rest t) t.stores)
      (fun _ _ => False) s := by
  obtain ⟨hfits, hfree⟩ := hadmissible
  unfold onEnumerate
  rw [wp_bind, wp_lru]
  -- a row that is too large for the cache is passed over
  by_cases hlarge : maxSize < size
  · have htotal : s.lruCacheStrategy.totalSize.toNat = SizedQueue.size q := by
      rw [← h.queue_eq, size_queueOf, h.exact_total.total]
    have hfits' : s.stores.1.totalSize.toNat + size.toNat < 2 ^ 64 := by
      show s.lruCacheStrategy.totalSize.toNat + _ < _
      rw [htotal]
      exact hfits
    have hlarge' : s.stores.1.maxSize < size := by
      show s.lruCacheStrategy.maxSize < size
      rw [h.maxSize_eq]
      exact hlarge
    refine wp_mono (wp_makeSpace_large h.exact_total h.idle hfits' hlarge') (fun ret p hp => ?_)
      fun _ _ he => he
    obtain ⟨rfl, rfl⟩ := hp
    rw [enqueue_of_lt (UInt64.lt_iff_toNat_lt.mp hlarge)]
    exact .inl ⟨h.passed hlarge, hahead⟩
  have hle : size ≤ maxSize := by
    rw [UInt64.lt_iff_toNat_lt] at hlarge
    rw [UInt64.le_iff_toNat_le]
    omega
  -- room is made by taking the oldest items
  refine wp_mono (h.wp_makeSpace hpending hahead hfits hle key) (fun ret p hp => ?_)
    fun _ _ he => he
  obtain ⟨rfl, hp⟩ := hp
  show wp (newHttpCacheInfo key size >>= _) _ _ (s.withStores p)
  unfold newHttpCacheInfo
  rw [wp_bind, wp_bind, wp_getState, wp_bind, wp_modifyState, wp_pure, wp_bind]
  rcases hp with ⟨htakes, hahead'⟩ | ⟨hspent, hfails⟩
  -- the entry is added behind the others
  · have hadmitted := h.admitted (t := { s.withStores p with nextSerial := s.nextSerial + 1 })
      { key := key, dataSize := size, serial := s.nextSerial } rfl rfl ⟨rfl, rfl⟩ hle hfits
      (hfree.resolve_left hlarge) htakes rfl
    refine wp_mono (wp_add_room (fun _ => h.room hle htakes) fun old hold => ?_) (fun _ u hu => ?_)
      fun _ _ he => he
    · -- both are the size of the row
      have hold : p.1.entry key = some old := hold
      obtain ⟨hmem, hkey⟩ := htakes.exact_total.wf.entry_eq_some_iff.mp hold
      rw [htakes.values_eq] at hmem
      have hkey : old.key = key := hkey
      have hqueued : (key, old.dataSize.toNat) ∈ q := by
        rw [← h.queue_eq]
        unfold queueOf
        rw [List.mem_reverse, List.mem_map]
        exact ⟨old, List.mem_of_mem_filter hmem, by rw [hkey]⟩
      obtain ⟨-, row, hrow, hrowSize⟩ := h.queued _ hqueued
      obtain ⟨row', hrow', hrowSize'⟩ := h.awaited (key, size) List.mem_cons_self
      have hrow : disk.row key = some row := hrow
      have hrow' : disk.row key = some row' := hrow'
      rw [hrow] at hrow'
      cases hrow'
      exact UInt64.toNat_inj.mp (hrowSize.symm.trans (congrArg UInt64.toNat hrowSize'))
    · rw [hu, wp_pure]
      exact .inl ⟨hadmitted, hahead'⟩
  -- the failure has come, and only the list goes on
  · refine wp_mono (carried_spent.wp_add hspent rfl ⟨rfl, rfl⟩) (fun _ u hu => ?_)
      fun _ _ he => he
    exact .inr ⟨hu, hfails⟩

/-! ## Some rows -/

/-- Nothing but the failures to come is changed. -/
theorem Opening.of_same (h : Opening disk cacheRootDir maxSize q rest s)
    (hsame : Disk.Same s.disk d) :
    Opening disk cacheRootDir maxSize q rest { s with disk := d } := by
  refine ⟨h.exact_total, h.idle, h.queue_eq, h.maxSize_eq, h.cacheRootDir_eq, fun k hk => ?_,
    fun k hk => ?_, fun k hrow hk => ?_, fun p hp => ?_, h.queued, h.awaited⟩
  · exact (congrFun hsame.row k).trans (h.row_stays k hk)
  · exact (congrFun hsame.row k).trans (h.row_goes k hk)
  · exact (congrFun hsame.file _).trans (h.file_goes k hrow hk)
  · exact (congrFun hsame.file p).trans (h.file_stays p hp)

/-- Each of some rows is admissible when its turn comes, with `later` still to come after them. -/
def AdmissibleAll (maxSize : UInt64) (q : List (String × ℕ)) (params later :
    List (String × UInt64)) : Prop :=
  ∀ done p rest, params = done ++ p :: rest →
    Admissible maxSize ((itemsOf done).foldl (enqueue maxSize.toNat) q) p (rest ++ later)

theorem AdmissibleAll.tail {p : String × UInt64}
    (h : AdmissibleAll maxSize q (p :: params) later) :
    AdmissibleAll maxSize (enqueue maxSize.toNat q (p.1, p.2.toNat)) params later :=
  fun done r rest heq => h (p :: done) r rest (congrArg (p :: ·) heq)

/-- The rows are admitted one after another, up to one that cannot be read. -/
theorem wp_handOver_opening (hpending : OneFailure pending)
    (h : Opening disk cacheRootDir maxSize q (params ++ later) s)
    (hahead : Ahead pending s.disk) (hadmissible : AdmissibleAll maxSize q params later) :
    wp (forEach handOver params)
      (fun _ t => Outcome pending (Opening disk cacheRootDir maxSize
        ((itemsOf params).foldl (enqueue maxSize.toNat) q) later t) t.stores)
      (fun _ t => ∃ done rest, params = done ++ rest ∧ t.disk.faults = {} ∧
        Opening disk cacheRootDir maxSize ((itemsOf done).foldl (enqueue maxSize.toNat) q)
          (rest ++ later) t) s := by
  induction params generalizing q s with
  | nil => exact .inl ⟨h, hahead⟩
  | cons p params ih =>
    obtain ⟨key, size⟩ := p
    show wp (handOver (key, size) >>= fun _ => forEach handOver params) _ _ s
    unfold handOver
    rw [wp_bind, wp_bind, wp_onDisk]
    refine wp_mono (wp_databaseCall_ahead hpending hahead) (fun _ d hd => ?_) fun e d hd => ?_
    · rw [wp_bind]
      refine wp_mono (wp_onEnumerate_opening hpending (h.of_same hd.1) hd.2
        (hadmissible [] (key, size) params rfl)) (fun _ t ht => ?_) fun _ _ he => he.elim
      rw [wp_pure]
      rcases ht with ⟨hopening, hahead'⟩ | ⟨hspent, hfails⟩
      · refine wp_mono (ih hopening hahead' hadmissible.tail) (fun _ _ hu => hu) fun e u hu => ?_
        obtain ⟨done, rest, hsplit, hfaults, hu⟩ := hu
        exact ⟨(key, size) :: done, rest, congrArg ((key, size) :: ·) hsplit, hfaults, hu⟩
      · exact wp_mono (carried_spent.wp_handOver hspent params)
          (fun _ _ hu => .inr ⟨hu, hfails⟩) fun _ _ he => he.elim
    · exact ⟨[], (key, size) :: params, rfl, hd.2.1, h.of_same hd.1⟩

/-! ## The order of the rows -/

section
variable {α : Type} {r : α → α → Prop} [DecidableRel r] [IsTrans α r]

/-- Leaving out commutes with inserting in order. -/
theorem filter_orderedInsert (f : α → Bool) (a : α) {l : List α} (hl : l.Pairwise r) :
    (l.orderedInsert r a).filter f =
      if f a then (l.filter f).orderedInsert r a else l.filter f := by
  induction l with
  | nil => cases hf : f a <;> simp [List.orderedInsert, hf]
  | cons b l ih =>
    obtain ⟨hb, hrest⟩ := List.pairwise_cons.mp hl
    by_cases hab : r a b
    · -- the new element stands before all the others, with or without those left out
      have hfirst : ∀ c ∈ (b :: l).filter f, r a c := by
        intro c hc
        rcases List.mem_cons.mp (List.mem_of_mem_filter hc) with rfl | hmem
        · exact hab
        · exact trans_of r hab (hb c hmem)
      have hinsert : ((b :: l).filter f).orderedInsert r a = a :: (b :: l).filter f := by
        cases hlist : (b :: l).filter f with
        | nil => rfl
        | cons c l' =>
          rw [hlist] at hfirst
          exact if_pos (hfirst c List.mem_cons_self)
      rw [List.orderedInsert, if_pos hab, hinsert, List.filter_cons]
    · rw [List.orderedInsert, if_neg hab, List.filter_cons, ih hrest, List.filter_cons]
      cases hfb : f b <;> cases hfa : f a <;> simp [hab]

/-- The sort is stable. -/
theorem filter_insertionSort [Std.Total r] (f : α → Bool) (l : List α) :
    (l.insertionSort r).filter f = (l.filter f).insertionSort r := by
  induction l with
  | nil => rfl
  | cons a l ih =>
    rw [List.insertionSort_cons, filter_orderedInsert f a (List.pairwise_insertionSort r l), ih,
      List.filter_cons]
    cases f a <;> rfl

end

/-- Key and size of every row, in the order of the query. -/
def rowsInOrder (rows : SortedMap String Row) : List (String × UInt64) :=
  (rows.entries.insertionSort fun a b => a.2.lastAccessedAtEpoch ≤ b.2.lastAccessedAtEpoch).map
    fun e => (e.1, e.2.responseBodySize)

/-- The ordered rows are all rows. -/
theorem perm_rowsInOrder (rows : SortedMap String Row) :
    (rowsInOrder rows).Perm (rows.entries.map fun e => (e.1, e.2.responseBodySize)) :=
  (List.perm_insertionSort _ _).map _

/-- Each once. -/
theorem nodup_rowsInOrder (rows : SortedMap String Row) :
    ((rowsInOrder rows).map Prod.fst).Nodup := by
  have hkeys := (perm_rowsInOrder rows).map Prod.fst
  rw [List.map_map] at hkeys
  exact hkeys.nodup_iff.mpr rows.nodup_keys

/-- With its size. -/
theorem mem_rowsInOrder {p : String × UInt64} {rows : SortedMap String Row} :
    p ∈ rowsInOrder rows ↔ ∃ row, rows.find? p.1 = some row ∧ row.responseBodySize = p.2 := by
  rw [(perm_rowsInOrder rows).mem_iff, List.mem_map]
  constructor
  · rintro ⟨e, he, rfl⟩
    exact ⟨e.2, SortedMap.find?_eq_some_iff.mpr he, rfl⟩
  · rintro ⟨row, hrow, hsize⟩
    exact ⟨(p.1, row), SortedMap.find?_eq_some_iff.mp hrow, Prod.ext rfl hsize⟩

/-- The order changes nothing about their size. -/
theorem size_rowsInOrder (rows : SortedMap String Row) :
    SizedQueue.size (itemsOf (rowsInOrder rows)) =
      (rows.entries.map fun e => e.2.responseBodySize.toNat).sum := by
  unfold itemsOf SizedQueue.size
  rw [List.map_map, ((perm_rowsInOrder rows).map _).sum_eq, List.map_map]
  rfl

/-- Rows that are left out leave the others in order. -/
theorem filter_rowsInOrder {rows rows' : SortedMap String Row} {f : String → Bool}
    (hfind : ∀ k, rows'.find? k = if f k then rows.find? k else none) :
    rowsInOrder rows' = (rowsInOrder rows).filter fun p => f p.1 := by
  have hentries : rows'.entries = rows.entries.filter fun e => f e.1 := by
    refine SortedMap.eq_of_perm_of_sorted ?_ rows'.sorted (rows.sorted_filter f)
    refine (List.perm_ext_iff_of_nodup (List.Nodup.of_map _ rows'.nodup_keys)
      ((List.Nodup.of_map _ rows.nodup_keys).filter _)).mpr fun e => ?_
    have hiff : e ∈ rows'.entries ↔ rows'.find? e.1 = some e.2 := SortedMap.find?_eq_some_iff.symm
    have hiff' : e ∈ rows.entries ↔ rows.find? e.1 = some e.2 := SortedMap.find?_eq_some_iff.symm
    rw [List.mem_filter, hiff, hiff', hfind]
    cases f e.1 <;> simp
  have hstable := filter_insertionSort
    (r := fun a b : String × Row => a.2.lastAccessedAtEpoch ≤ b.2.lastAccessedAtEpoch)
    (fun e => f e.1) rows.entries
  unfold rowsInOrder
  rw [hentries, ← hstable, List.filter_map]
  rfl

/-! ## A whole initialization -/

/-- The query gives the rows in order, or meets the failure. -/
theorem wp_queryAll_ahead (hpending : OneFailure pending) (hahead : Ahead pending disk) :
    wp HttpCacheDatabase.queryAll
      (fun params d => params = rowsInOrder disk.rows ∧ Disk.Same disk d ∧ Ahead pending d)
      (fun _ d => Disk.Same disk d ∧ d.faults = {}) disk := by
  unfold HttpCacheDatabase.queryAll
  rw [wp_bind]
  refine wp_mono (wp_databaseCall_ahead hpending hahead) (fun _ d hd => ?_) fun _ _ hd =>
    ⟨hd.1, hd.2.1⟩
  rw [wp_bind, wp_getState, wp_pure, hd.1.2.2]
  exact ⟨rfl, hd⟩

/-- The flag is as before. -/
def SameFlag (s t : HttpFileCache) : Prop := t.cacheInitialized = s.cacheInitialized

instance : Std.Refl SameFlag := ⟨fun _ => rfl⟩

instance : IsTrans HttpFileCache SameFlag := ⟨fun _ _ _ hst htu => htu.trans hst⟩

theorem sameFlag_enumerate : Keeps SameFlag enumerate := by
  have hdisk : ∀ {α : Type} (x : DiskExec α), Keeps SameFlag (onDisk x) := fun _ _ => rfl
  have hlru : ∀ {α : Type} (x : LruListener CacheException Disk HttpCacheInfo →
      LruExec CacheException Disk HttpCacheInfo α), Keeps SameFlag (lru x) :=
    fun _ => keeps_bind keeps_getState fun _ _ => rfl
  unfold enumerate onEnumerate newHttpCacheInfo
  refine keeps_bind (hdisk _) fun params => keeps_forEach (fun param => ?_) params
  refine keeps_bind (hdisk _) fun _ => keeps_bind ?_ fun _ => keeps_pure _
  refine keeps_bind (hlru _) fun ret => ?_
  split
  · refine keeps_bind ?_ fun _ => keeps_bind (hlru _) fun _ => keeps_pure _
    exact keeps_bind keeps_getState fun _ => keeps_bind (keeps_modifyState fun _ => rfl)
      fun _ => keeps_pure _
  · exact keeps_pure _

/-- So an enumeration fills the queue, up to a failure. -/
theorem wp_enumerate_opening (hpending : OneFailure pending)
    (h : Opening disk cacheRootDir maxSize q (rowsInOrder s.disk.rows) s)
    (hahead : Ahead pending s.disk)
    (hadmissible : AdmissibleAll maxSize q (rowsInOrder s.disk.rows) []) :
    wp enumerate
      (fun _ t => Outcome pending (Opening disk cacheRootDir maxSize
        ((itemsOf (rowsInOrder s.disk.rows)).foldl (enqueue maxSize.toNat) q) [] t) t.stores)
      (fun _ t => ∃ done rest, rowsInOrder s.disk.rows = done ++ rest ∧ t.disk.faults = {} ∧
        Opening disk cacheRootDir maxSize ((itemsOf done).foldl (enqueue maxSize.toNat) q) rest t)
      s := by
  unfold enumerate
  rw [wp_bind, wp_onDisk]
  refine wp_mono (wp_queryAll_ahead hpending hahead) (fun params d hd => ?_) fun _ d hd => ?_
  · obtain ⟨rfl, hsame, hahead'⟩ := hd
    have hopening : Opening disk cacheRootDir maxSize q (rowsInOrder s.disk.rows ++ [])
        { s with disk := d } := by
      rw [List.append_nil]
      exact h.of_same hsame
    refine wp_mono (wp_handOver_opening hpending hopening hahead' hadmissible)
      (fun _ _ ht => ht) fun e t ht => ?_
    obtain ⟨done, rest, hsplit, hfaults, ht⟩ := ht
    rw [List.append_nil] at ht
    exact ⟨done, rest, hsplit, hfaults, ht⟩
  · exact ⟨[], _, rfl, hd.2, h.of_same hd.1⟩

/-- The directory is there or can be created, and the rows are read. -/
theorem wp_initializeCache_enumerate {P : HttpFileCache → Prop}
    {E : CacheException → HttpFileCache → Prop} (hinit : s.cacheInitialized = false)
    (hdir : s.cacheRootDir ≠ "") (hfiles : s.disk.FilesWork)
    (h : ∀ d, Disk.Same s.disk d → SameDatabaseFaults s.disk d →
      wp enumerate (fun _ t => P { t with cacheInitialized := true }) E { s with disk := d }) :
    wp initializeCache (fun _ t => P t) E s := by
  unfold initializeCache
  rw [wp_bind, wp_getState, hinit]
  show wp (getState >>= _) _ _ s
  rw [wp_bind, wp_getState, wp_bind, wp_onDisk]
  refine wp_mono (wp_and (wp_createDirsIfAbsent s.disk s.cacheRootDir)
    (wp_of_keeps (sameDatabaseFaults_createDirsIfAbsent s.cacheRootDir) s.disk))
    (fun created d hd => ?_) fun _ _ he => he.1.elim
  obtain ⟨⟨hsame, hcreated⟩, hdatabase⟩ := hd
  have htrue : created = true := hcreated hfiles hdir
  subst htrue
  show wp (enumerate >>= _) _ _ { s with disk := d }
  rw [wp_bind]
  exact h d hsame hdatabase

/-- And so does an initialisation. -/
theorem wp_initializeCache_opening (hpending : OneFailure pending)
    (h : Opening disk cacheRootDir maxSize q (rowsInOrder s.disk.rows) s)
    (hahead : Ahead pending s.disk) (hinit : s.cacheInitialized = false)
    (hdir : cacheRootDir ≠ "")
    (hadmissible : AdmissibleAll maxSize q (rowsInOrder s.disk.rows) []) :
    wp initializeCache
      (fun _ t => Outcome pending (Opening disk cacheRootDir maxSize
        ((itemsOf (rowsInOrder s.disk.rows)).foldl (enqueue maxSize.toNat) q) [] t) t.stores)
      (fun _ t => t.cacheInitialized = false ∧ t.disk.faults = {} ∧
        ∃ done rest, rowsInOrder s.disk.rows = done ++ rest ∧
          Opening disk cacheRootDir maxSize ((itemsOf done).foldl (enqueue maxSize.toNat) q) rest t)
      s := by
  refine wp_initializeCache_enumerate hinit (by rw [h.cacheRootDir_eq]; exact hdir)
    hahead.filesWork fun d hsame hdatabase => ?_
  have hrows : d.rows = s.disk.rows := hsame.2.2
  rw [← hrows] at h hadmissible ⊢
  refine wp_mono (wp_and (wp_enumerate_opening (s := { s with disk := d }) hpending
    (h.of_same hsame) (hahead.of_later hsame.1 hdatabase) hadmissible)
    (wp_of_keeps sameFlag_enumerate _)) (fun _ t ht => ?_) fun e t ht => ?_
  · refine ht.1.mono fun hopening => ?_
    exact ⟨hopening.exact_total, hopening.idle, hopening.queue_eq, hopening.maxSize_eq,
      hopening.cacheRootDir_eq, hopening.row_stays, hopening.row_goes, hopening.file_goes,
      hopening.file_stays, hopening.queued, hopening.awaited⟩
  · obtain ⟨⟨done, rest, hsplit, hfaults, hopening⟩, hflag⟩ := ht
    exact ⟨hflag.trans hinit, hfaults, done, rest, hsplit, hopening⟩

/-- A new cache over some rows. -/
theorem opening_construct (disk d : Disk) (hsame : d.files = disk.files ∧ d.rows = disk.rows)
    (cacheRootDir : String) (maxSize : UInt64) :
    Opening disk cacheRootDir maxSize [] (rowsInOrder disk.rows)
      (construct cacheRootDir maxSize d) := by
  have hrow : d.row = disk.row := congrArg SortedMap.find? hsame.2
  have hfile : d.file = disk.file := congrArg SortedMap.find? hsame.1
  have hstays : ∀ k, (disk.row k).isSome →
      Stays disk maxSize [] (rowsInOrder disk.rows) k := by
    intro k hk
    obtain ⟨row, hrow⟩ := Option.isSome_iff_exists.mp hk
    have hmem : (k, row.responseBodySize) ∈ rowsInOrder disk.rows :=
      mem_rowsInOrder.mpr ⟨row, hrow, rfl⟩
    exact .inr (.inl (List.mem_map_of_mem hmem))
  refine ⟨(bounded_construct maxSize).toExact, nofun, rfl, rfl, rfl, fun k _ => ?_, fun k hk => ?_,
    fun k hk hnot => absurd (hstays k hk) hnot, fun p _ => ?_, nofun,
    fun p hp => mem_rowsInOrder.mp hp⟩
  · exact congrFun hrow k
  · have hnone : disk.row k = none := by
      rw [← Option.not_isSome_iff_eq_none]
      exact fun hsome => hk (hstays k hsome)
    exact (congrFun hrow k).trans hnone
  · exact congrFun hfile p

/-- The rows of a new cache are admissible in their order, if their sizes can be added up. -/
theorem admissibleAll_of_fits {params : List (String × UInt64)}
    (hnodup : (params.map Prod.fst).Nodup)
    (hfits : ∀ done p rest, params = done ++ p :: rest →
      SizedQueue.size ((itemsOf done).foldl (enqueue maxSize.toNat) []) + p.2.toNat < 2 ^ 64) :
    AdmissibleAll maxSize [] params [] := by
  intro done p rest hsplit
  have hsub := foldl_enqueue_sublist maxSize.toNat [] (itemsOf done)
  rw [List.nil_append] at hsub
  refine ⟨hfits done p rest hsplit, .inr (.inl fun k hk => ?_)⟩
  subst hsplit
  -- what was admitted before has another key
  have hdone : k ∈ done.map Prod.fst := by
    have hmem := (hsub.map Prod.fst).mem hk
    unfold itemsOf at hmem
    rw [List.map_map] at hmem
    exact hmem
  rw [List.map_append] at hnodup
  have hne := (List.nodup_append.mp hnodup).2.2 k hdone
  rw [List.append_nil]
  exact ⟨hne p.1 List.mem_cons_self, fun hin => hne k (List.mem_cons_of_mem _ hin) rfl⟩

/-- Different keys whose sizes fit in a word are loaded without a wrap. -/
theorem admissibleAll_of_nodup {params : List (String × UInt64)}
    (hnodup : (params.map Prod.fst).Nodup)
    (hfits : SizedQueue.size (itemsOf params) < 2 ^ 64) : AdmissibleAll maxSize [] params [] := by
  refine admissibleAll_of_fits hnodup fun done p rest hsplit => ?_
  have hsub := foldl_enqueue_sublist maxSize.toNat [] (itemsOf done)
  have hle := size_sublist hsub
  subst hsplit
  unfold itemsOf at hfits hle ⊢
  rw [List.map_append, size_append, List.map_cons, size_cons] at hfits
  rw [List.nil_append] at hle
  dsimp only at hfits
  omega

end EasyHttp.HttpFileCache
