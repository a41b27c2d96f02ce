import EasyHttp.Cache.PutRetrieval
import EasyHttp.Cache.RefusedEvictions

/-!
# Rows without an entry

After a cache has been opened over the rows of an earlier one, each row should have its entry,
and what there is no room for should be gone.

* `NoOrphans`: so it is;
* `noOrphans_iff`: where nothing fails, it is so as long as no row alone is larger than the
  capacity; whatever may fail, as long as no row has to go at all;
* `orphan_of_largeRow`: a row larger than the capacity stays, and has no entry.
-/

namespace EasyHttp.HttpFileCache

open Exec LruCacheByDataSizeStrategy LruOperations LruCapacity

/-- Every row that is left of those on `disk` has its entry, every row that is gone has taken its
body file with it, and the rows are within the capacity. -/
structure NoOrphans (disk : Disk) (s : HttpFileCache) : Prop where
  listed : ∀ k, (s.disk.row k).isSome → (s.entry k).isSome
  deleted : ∀ k, (disk.row k).isSome → s.disk.row k = none →
    s.disk.file (makeCachedFilename s.cacheRootDir k) = none
  total_le : rowSizes s.disk.rows ≤ s.lruCacheStrategy.maxSize.toNat

/-- Only the rows of the disk count. -/
theorem noOrphans_withFaults {disk : Disk} {s : HttpFileCache} (faults : Faults) :
    NoOrphans { disk with faults := faults } s ↔ NoOrphans disk s :=
  ⟨fun h => ⟨h.listed, h.deleted, h.total_le⟩, fun h => ⟨h.listed, h.deleted, h.total_le⟩⟩

/-- A cache that is created over `disk` is initialized, and is `t` then. -/
def Opens (cacheRootDir : String) (maxSize : UInt64) (disk : Disk) (t : HttpFileCache) : Prop :=
  exec initializeCache (construct cacheRootDir maxSize disk) = (.ok (), t) ∧
    t.cacheInitialized = true

variable {disk : Disk} {cacheRootDir key k : String} {maxSize size : UInt64}
  {q : List (String × ℕ)} {params : List (String × UInt64)} {s t c : HttpFileCache} {row : Row}
  {n : ℕ}

/-! ## A row larger than the capacity -/

/-- The row is there, and is not listed. -/
def IsOrphan (k : String) (row : Row) (s : HttpFileCache) : Prop :=
  s.entry k = none ∧ s.disk.row k = some row

/-- An orphan stays one while other entries are lost. -/
theorem IsOrphan.lost {keep : String → Prop} (h : IsOrphan k row s) (hlost : Lost keep s t)
    (hk : keep k) : IsOrphan k row t := by
  have hstored := hlost.storedIn_eq hk
  exact ⟨(congrArg Prod.fst hstored).trans h.1, (congrArg (fun p => p.2.1) hstored).trans h.2⟩

/-- Whatever fails, the row of a key stays without an entry if it is too large. -/
theorem wp_onEnumerate_orphan (h : Enumerating n c ((key, size) :: params) s)
    (horphan : IsOrphan k row s) (hlarge : key = k → c.lruCacheStrategy.maxSize < size) :
    wp (onEnumerate key size) (fun _ t => IsOrphan k row t) (fun _ _ => True) s := by
  have hadds : Adds64 s.lruCacheStrategy size.toNat := by
    refine h.adds.mono ?_
    unfold sizeOf
    rw [List.map_cons, List.sum_cons]
    dsimp only
    omega
  unfold onEnumerate
  rw [wp_bind]
  refine wp_mono (wp_makeSpace_loses hadds.exact_total.wf size) (fun ret t ht => ?_)
    fun _ _ _ => trivial
  obtain ⟨hlost, hanswer⟩ := ht
  have horphan' := horphan.lost hlost horphan.1
  -- the row does not fit, and the orphan stays
  cases ret with
  | false => exact horphan'
  | true =>
    -- the row of the orphan is too large for any room
    have hne : k ≠ key := by
      intro hk
      have hroom := (hanswer hadds).mp rfl
      have hlt := UInt64.lt_iff_toNat_lt.mp (hlarge hk.symm)
      unfold RoomBesideHeld at hroom
      rw [h.within.maxSize_eq] at hroom
      omega
    show wp (newHttpCacheInfo key size >>= _) _ _ t
    unfold newHttpCacheInfo
    rw [wp_bind, wp_bind, wp_getState, wp_bind, wp_modifyState, wp_pure, wp_bind]
    have hwf : t.lruCacheStrategy.Wf := hlost.loses.wf
    refine wp_add_unlisted (wp_mono (wp_addOrUpdate_loses hwf) (fun ret v hv => ?_)
      fun _ _ _ => trivial)
    obtain ⟨u, hu, hpushed, -⟩ := hv
    have horphan'' : IsOrphan k row u := by
      have hstart : IsOrphan k row { t with nextSerial := t.nextSerial + 1 } := horphan'
      exact hstart.lost hu (.inl horphan'.1)
    -- the entry could not be added, or it has another key
    cases ret with
    | false =>
      rw [if_neg Bool.false_ne_true] at hpushed
      rw [hpushed]
      exact horphan''
    | true =>
      have hwf' : u.lruCacheStrategy.Wf := hu.loses.wf
      rw [if_pos rfl] at hpushed
      rw [hpushed, wp_pure]
      refine ⟨?_, horphan''.2⟩
      have hentry : (u.lruCacheStrategy.push key ⟨key, size, false, 0, t.nextSerial⟩).entry =
        Function.update u.lruCacheStrategy.entry key _ := hwf'.entry_push rfl
      refine (congrFun hentry k).trans ?_
      rw [Function.update_of_ne hne]
      exact horphan''.1

/-- No row is loaded that is larger than the cache. -/
theorem wp_enumerate_orphan (hadds : Adds64 s.lruCacheStrategy (rowSizes s.disk.rows))
    (horphan : IsOrphan k row s)
    (hlarge : s.lruCacheStrategy.maxSize < row.responseBodySize) :
    wp enumerate (fun _ t => IsOrphan k row t) (fun _ _ => True) s := by
  unfold enumerate
  rw [wp_bind, wp_onDisk]
  refine wp_mono (wp_queryAll s.disk) (fun params d hd => ?_) fun _ _ _ => trivial
  obtain ⟨hsame, hperm⟩ := hd
  have hsizes : sizeOf params = rowSizes s.disk.rows := by
    unfold sizeOf rowSizes
    rw [(hperm.map _).sum_eq, List.map_map]
    rfl
  -- the size that is handed over for the key is that of its row
  have hparam : ∀ p ∈ params, p.1 = k → s.lruCacheStrategy.maxSize < p.2 := by
    intro p hp hk
    obtain ⟨e, he, rfl⟩ := List.mem_map.mp (hperm.mem_iff.mp hp)
    have hfound : s.disk.row e.1 = some e.2 := SortedMap.find?_eq_some_iff.mpr he
    have hk : e.1 = k := hk
    rw [hk, horphan.2] at hfound
    cases hfound
    exact hlarge
  have hstart : Enumerating 0 s params { s with disk := d } ∧
      IsOrphan k row { s with disk := d } ∧
      ∀ p ∈ params, p.1 = k → s.lruCacheStrategy.maxSize < p.2 := by
    refine ⟨⟨within_of_same hsame, ?_⟩, ⟨horphan.1, ?_⟩, hparam⟩
    · rw [hsizes]
      exact hadds
    · exact (congrFun hsame.row k).trans horphan.2
  -- the invariant of the loop: the orphan has neither an entry nor a removal
  refine wp_mono (wp_forEach (I := fun params t => Enumerating 0 s params t ∧ IsOrphan k row t ∧
    ∀ p ∈ params, p.1 = k → s.lruCacheStrategy.maxSize < p.2) (E := fun _ _ => True)
    (fun param rest t ht => ?_) hstart) (fun _ _ ht => ht.2.1) fun _ _ h => h
  obtain ⟨hloading, horphan, hparam⟩ := ht
  rw [wp_bind, wp_onDisk]
  refine wp_mono (Disk.wp_databaseCall t.disk) (fun _ d' hd' => ?_) fun _ _ _ => trivial
  have hloading' : Enumerating 0 s (param :: rest) { t with disk := d' } :=
    ⟨trans_of _ hloading.within (within_of_same hd'.1), hloading.adds⟩
  have horphan' : IsOrphan k row { t with disk := d' } :=
    ⟨horphan.1, (congrFun hd'.1.row k).trans horphan.2⟩
  rw [wp_bind]
  refine wp_mono (wp_and hloading'.wp_onEnumerate (wp_onEnumerate_orphan hloading' horphan'
    (hparam param List.mem_cons_self))) (fun _ u hu => ?_) fun _ _ _ => trivial
  exact ⟨hu.1, hu.2, fun p hp => hparam p (List.mem_cons_of_mem _ hp)⟩

/-- Whatever fails, a cache is initialized by reading the rows. -/
theorem wp_initializeCache_reading {P : HttpFileCache → Prop}
    (h : ∀ d, Disk.Same disk d → wp enumerate (fun _ t => P { t with cacheInitialized := true })
      (fun _ _ => True) { construct cacheRootDir maxSize disk with disk := d }) :
    wp initializeCache (fun _ t => t.cacheInitialized = true → P t) (fun _ _ => True)
      (construct cacheRootDir maxSize disk) := by
  unfold initializeCache
  rw [wp_bind, wp_getState]
  show wp (getState >>= _) _ _ _
  rw [wp_bind, wp_getState, wp_bind, wp_onDisk]
  refine wp_mono (wp_createDirsIfAbsent disk _) (fun created d hd => ?_) fun _ _ he => he.elim
  cases created with
  | false => nofun
  | true =>
    show wp (enumerate >>= _) _ _ _
    rw [wp_bind]
    exact wp_mono (h d hd.1) (fun _ t ht _ => ht) fun _ _ h => h

/-- So a large row is an orphan after a successful initialisation. -/
theorem wp_initializeCache_orphan (cacheRootDir : String) {disk : Disk}
    (hfits : rowSizes disk.rows < 2 ^ 64)
    (hrow : disk.row k = some row) (hlarge : maxSize < row.responseBodySize) :
    wp initializeCache (fun _ t => t.cacheInitialized = true → IsOrphan k row t)
      (fun _ _ => True) (construct cacheRootDir maxSize disk) := by
  refine wp_initializeCache_reading fun d hsame => ?_
  have hadds : Adds64 (LruCacheByDataSizeStrategy.construct maxSize) (rowSizes d.rows) := by
    refine ⟨(bounded_construct maxSize).toExact, ?_⟩
    show 0 + rowSizes d.rows < _
    rw [hsame.2.2]
    omega
  have horphan : IsOrphan k row { construct cacheRootDir maxSize disk with disk := d } :=
    ⟨rfl, (congrFun hsame.row k).trans hrow⟩
  exact wp_mono (wp_enumerate_orphan hadds horphan hlarge) (fun _ _ ht => ht) fun _ _ h => h

/-- So no row can have been too large. -/
theorem NoOrphans.le_maxSize (h : NoOrphans disk t)
    (hopens : Opens cacheRootDir maxSize disk t) (hfits : rowSizes disk.rows < 2 ^ 64) :
    ∀ e ∈ disk.rows.entries, e.2.responseBodySize ≤ maxSize := by
  intro e he
  by_contra hnot
  have hlarge : maxSize < e.2.responseBodySize := by
    rw [UInt64.le_iff_toNat_le] at hnot
    rw [UInt64.lt_iff_toNat_lt]
    omega
  have hrow : disk.row e.1 = some e.2 := SortedMap.find?_eq_some_iff.mpr he
  have horphan := wp_ok (wp_initializeCache_orphan cacheRootDir hfits hrow hlarge) hopens.1 hopens.2
  have hlisted := h.listed e.1 (by rw [horphan.2]; rfl)
  rw [horphan.1] at hlisted
  cases hlisted

/-! ## Rows within the capacity -/

/-- The rows that are left are those of the queue, when none of them was too large. -/
theorem Opening.mem_keys (h : Opening disk cacheRootDir maxSize q [] s)
    (hle : ∀ e ∈ disk.rows.entries, e.2.responseBodySize ≤ maxSize) :
    (s.disk.row k).isSome ↔ k ∈ SizedQueue.keys q := by
  have hstays : Stays disk maxSize q [] k ↔ k ∈ SizedQueue.keys q := by
    refine ⟨fun hk => ?_, .inl⟩
    rcases hk with hq | hin | ⟨row, hrow, hlarge⟩
    · exact hq
    · exact absurd hin List.not_mem_nil
    · have hmax := UInt64.le_iff_toNat_le.mp (hle (k, row) (SortedMap.find?_eq_some_iff.mp hrow))
      rw [UInt64.lt_iff_toNat_lt] at hlarge
      dsimp only at hmax
      omega
  constructor
  · intro hrow
    by_contra hk
    rw [h.row_goes k fun hstay => hk (hstays.mp hstay)] at hrow
    cases hrow
  · intro hk
    obtain ⟨p, hp, rfl⟩ := List.mem_map.mp hk
    obtain ⟨-, row, hrow, -⟩ := h.queued p hp
    rw [h.row_stays _ (.inl hk), hrow]
    rfl

/-- When all rows are loaded and each is small enough, the rows and the queue have the same
items. -/
theorem Opening.rows_perm (h : Opening disk cacheRootDir maxSize q [] s)
    (hle : ∀ e ∈ disk.rows.entries, e.2.responseBodySize ≤ maxSize) :
    (s.disk.rows.entries.map fun e => (e.1, e.2.responseBodySize.toNat)).Perm q := by
  have hkeys : ((s.disk.rows.entries.map fun e => (e.1, e.2.responseBodySize.toNat)).map
      Prod.fst).Nodup := by
    rw [List.map_map]
    exact s.disk.rows.nodup_keys
  have hq : (SizedQueue.keys q).Nodup := by
    rw [← h.queue_eq]
    exact nodup_keys_queueOf h.exact_total.wf
  refine (List.perm_ext_iff_of_nodup (List.Nodup.of_map _ hkeys)
    (List.Nodup.of_map _ hq)).mpr fun p => ?_
  rw [List.mem_map]
  constructor
  -- every row is small enough, so none was passed over
  · rintro ⟨e, he, rfl⟩
    have hrow : s.disk.row e.1 = some e.2 := SortedMap.find?_eq_some_iff.mpr he
    have hk : e.1 ∈ SizedQueue.keys q := by
      rw [← h.mem_keys hle, hrow]
      rfl
    obtain ⟨p, hp, hkey⟩ := List.mem_map.mp hk
    obtain ⟨-, row, hrow', hsize⟩ := h.queued p hp
    rw [h.row_stays _ (.inl hk), ← hkey, hrow'] at hrow
    cases hrow
    rw [hsize, ← hkey]
    exact hp
  · intro hp
    obtain ⟨-, row, hrow, hsize⟩ := h.queued p hp
    have hkept : s.disk.row p.1 = some row := by
      rw [h.row_stays _ (.inl (List.mem_map_of_mem hp)), hrow]
    exact ⟨(p.1, row), SortedMap.find?_eq_some_iff.mp hkept, Prod.ext rfl hsize⟩

/-- When all rows are loaded, each is an entry or gone. -/
theorem Opening.noOrphans (h : Opening disk cacheRootDir maxSize q [] s)
    (hle : ∀ e ∈ disk.rows.entries, e.2.responseBodySize ≤ maxSize)
    (htotal : SizedQueue.size q ≤ maxSize.toNat) : NoOrphans disk s := by
  refine ⟨fun k hrow => ?_, fun k hrow hgone => ?_, ?_⟩
  -- a row has an entry, for it is in the queue
  · refine (mem_keys_queueOf h.exact_total.wf).mp ?_
    rw [h.queue_eq]
    exact (h.mem_keys hle).mp hrow
  · rw [h.cacheRootDir_eq]
    refine h.file_goes k hrow fun hstay => ?_
    rw [h.row_stays k hstay] at hgone
    rw [hgone] at hrow
    cases hrow
  · have hsum : rowSizes s.disk.rows = SizedQueue.size q := by
      rw [← SizedQueue.size_perm (h.rows_perm hle)]
      unfold rowSizes SizedQueue.size
      rw [List.map_map]
      rfl
    rw [hsum, h.maxSize_eq]
    exact htotal

/-- Where nothing fails, the cache is initialized, and no row is an orphan unless one is too
large. -/
theorem exists_opens (maxSize : UInt64) (hdir : cacheRootDir ≠ "") (hfaults : disk.faults = {})
    (hfits : rowSizes disk.rows < 2 ^ 64) :
    ∃ t, Opens cacheRootDir maxSize disk t ∧
      ((∀ e ∈ disk.rows.entries, e.2.responseBodySize ≤ maxSize) → NoOrphans disk t) := by
  have hahead : Ahead [] disk := by
    unfold Ahead
    rw [hfaults]
    exact ⟨rfl, 0, rfl⟩
  have hsize : SizedQueue.size (itemsOf (rowsInOrder disk.rows)) < 2 ^ 64 := by
    rw [size_rowsInOrder]
    exact hfits
  have hopened : wp initializeCache (fun _ t => t.cacheInitialized = true) (fun _ _ => False)
      (construct cacheRootDir maxSize disk) :=
    wp_mono (wp_initializeCache_construct hfaults hdir) (fun _ _ ht => ht.2) fun _ _ he => he
  have hrun : exec initializeCache (construct cacheRootDir maxSize disk) = (.ok (), _) :=
    Prod.ext (exec_eq_ok (wp_mono hopened (fun _ _ _ => rfl) fun _ _ he => he)) rfl
  have hinit := wp_ok hopened hrun
  refine ⟨_, ⟨hrun, hinit⟩, fun hle => ?_⟩
  have hopening := wp_ok (wp_initializeCache_opening (s := construct cacheRootDir maxSize disk)
    (.inl rfl) (opening_construct disk disk ⟨rfl, rfl⟩ cacheRootDir maxSize) hahead rfl hdir
    (admissibleAll_of_nodup (nodup_rowsInOrder disk.rows) hsize)) hrun
  rcases hopening with ⟨hopening, -⟩ | ⟨-, hnot⟩
  · exact hopening.noOrphans hle (SizedQueue.size_foldl_enqueue_le _ (Nat.zero_le _))
  · cases hnot

/-! ## Rows none of which has to go -/

/-- The row of a listed key has the size of the entry. -/
theorem Opening.dataSize_eq (h : Opening disk cacheRootDir maxSize q params s)
    {info : HttpCacheInfo} (hentry : s.entry key = some info) (hrow : disk.row key = some row) :
    info.dataSize = row.responseBodySize := by
  obtain ⟨hmem, hkey⟩ := h.exact_total.wf.entry_eq_some_iff.mp hentry
  have hqueued : (key, info.dataSize.toNat) ∈ q := by
    rw [← h.queue_eq]
    unfold queueOf
    rw [List.mem_reverse, List.mem_map]
    have hkey : info.key = key := hkey
    exact ⟨info, hmem, by rw [hkey]⟩
  obtain ⟨-, row', hrow', hsize⟩ := h.queued _ hqueued
  have hrow' : disk.row key = some row' := hrow'
  rw [hrow] at hrow'
  cases hrow'
  exact UInt64.toNat_inj.mp hsize.symm

/-- Whatever fails, a row for which there is room gets its entry, and no other has to go. -/
theorem Opening.wp_onEnumerate_room
    (h : Opening disk cacheRootDir maxSize q ((key, size) :: params) s)
    (hroom : SizedQueue.size q + size.toNat ≤ maxSize.toNat) :
    wp (onEnumerate key size)
      (fun _ t => Opening disk cacheRootDir maxSize
        (SizedQueue.enqueue maxSize.toNat q (key, size.toNat)) params t)
      (fun _ _ => False) s := by
  have hlt := maxSize.toNat_lt
  have htotal : s.lruCacheStrategy.totalSize.toNat = SizedQueue.size q := by
    rw [← h.queue_eq, size_queueOf, h.exact_total.total]
  -- the queue has room for the row
  have hroom' : s.lruCacheStrategy.totalSize.toNat + size.toNat ≤
      s.lruCacheStrategy.maxSize.toNat := by
    rw [htotal, h.maxSize_eq]
    exact hroom
  have hle : size ≤ maxSize := by
    rw [UInt64.le_iff_toNat_le]
    omega
  obtain ⟨row, hrow, hsize⟩ := h.awaited (key, size) List.mem_cons_self
  unfold onEnumerate
  rw [wp_bind]
  refine wp_mono (wp_makeSpace_room hroom') (fun ret t ht => ?_) fun _ _ he => he
  obtain ⟨rfl, rfl⟩ := ht
  show wp (newHttpCacheInfo key size >>= _) _ _ t
  unfold newHttpCacheInfo
  rw [wp_bind, wp_bind, wp_getState, wp_bind, wp_modifyState, wp_pure, wp_bind]
  have htakes : Takes t.cacheRootDir (SizedQueue.keys (SizedQueue.oldest
      (SizedQueue.excess maxSize.toNat q (key, size.toNat)) q)).reverse t.stores t.stores := by
    rw [SizedQueue.excess_eq_zero hroom, SizedQueue.oldest_zero]
    exact takes_nil h.exact_total
  -- the row is admitted behind the others
  have hadmitted := h.admitted (t := { t with nextSerial := t.nextSerial + 1 })
    { key := key, dataSize := size, serial := t.nextSerial } rfl rfl ⟨rfl, rfl⟩ hle (by omega)
    (.inr hroom) htakes rfl
  refine wp_mono (wp_add_room (fun _ => hroom') fun old hold => ?_) (fun _ u hu => ?_)
    fun _ _ he => he
  · exact (h.dataSize_eq hold hrow).trans hsize
  · rw [hu, wp_pure]
    exact hadmitted

/-- Rows that all fit evict nothing. -/
theorem wp_handOver_room (h : Opening disk cacheRootDir maxSize q params s)
    (hroom : SizedQueue.size q + SizedQueue.size (itemsOf params) ≤ maxSize.toNat) :
    wp (forEach handOver params)
      (fun _ t => ∃ q', SizedQueue.size q' ≤ maxSize.toNat ∧
        Opening disk cacheRootDir maxSize q' [] t) (fun _ _ => True) s := by
  induction params generalizing q s with
  | nil => exact ⟨q, by omega, h⟩
  | cons p params ih =>
    obtain ⟨key, size⟩ := p
    have hcons : SizedQueue.size (itemsOf ((key, size) :: params)) =
        size.toNat + SizedQueue.size (itemsOf params) := SizedQueue.size_cons
    show wp (handOver (key, size) >>= fun _ => forEach handOver params) _ _ s
    unfold handOver
    rw [wp_bind, wp_bind, wp_onDisk]
    refine wp_mono (Disk.wp_databaseCall s.disk) (fun _ d hd => ?_) fun _ _ _ => trivial
    rw [wp_bind]
    refine wp_mono ((h.of_same hd.1).wp_onEnumerate_room (by omega)) (fun _ t ht => ?_)
      fun _ _ he => he.elim
    have hle := SizedQueue.size_sublist
      (SizedQueue.enqueue_sublist maxSize.toNat q (key, size.toNat))
    rw [SizedQueue.size_append, SizedQueue.size_cons] at hle
    have hnil : SizedQueue.size ([] : List (String × ℕ)) = 0 := rfl
    dsimp only at hle
    exact ih ht (by omega)

/-- Whatever fails, the query of a table reads it in its order, or throws. -/
theorem wp_queryAll_rows (disk : Disk) :
    wp HttpCacheDatabase.queryAll
      (fun params d => params = rowsInOrder disk.rows ∧ Disk.Same disk d) (fun _ _ => True)
      disk := by
  unfold HttpCacheDatabase.queryAll
  rw [wp_bind]
  refine wp_mono (Disk.wp_databaseCall disk) (fun _ d hd => ?_) fun _ _ _ => trivial
  rw [wp_bind, wp_getState, wp_pure, hd.1.2.2]
  exact ⟨rfl, hd.1⟩

/-- So they leave no orphan. -/
theorem wp_initializeCache_room (cacheRootDir : String)
    (hroom : rowSizes disk.rows ≤ maxSize.toNat) :
    wp initializeCache (fun _ t => t.cacheInitialized = true → NoOrphans disk t)
      (fun _ _ => True) (construct cacheRootDir maxSize disk) := by
  refine wp_initializeCache_reading fun d hsame => ?_
  unfold enumerate
  rw [wp_bind, wp_onDisk]
  refine wp_mono (wp_queryAll_rows d) (fun params d' hd' => ?_) fun _ _ _ => trivial
  obtain ⟨rfl, hsame'⟩ := hd'
  have hopening : Opening disk cacheRootDir maxSize [] (rowsInOrder disk.rows)
      { construct cacheRootDir maxSize disk with disk := d' } :=
    (opening_construct disk disk ⟨rfl, rfl⟩ cacheRootDir maxSize).of_same
      (trans_of Disk.Same hsame hsame')
  have hsizes : SizedQueue.size (itemsOf (rowsInOrder disk.rows)) ≤ maxSize.toNat := by
    rw [size_rowsInOrder]
    exact hroom
  rw [hsame.2.2]
  refine wp_mono (wp_handOver_room hopening (by
    rw [show SizedQueue.size ([] : List (String × ℕ)) = 0 from rfl, Nat.zero_add]
    exact hsizes)) (fun _ t ht => ?_) fun _ _ h => h
  obtain ⟨q, hq, ht⟩ := ht
  have hle : ∀ e ∈ disk.rows.entries, e.2.responseBodySize ≤ maxSize := by
    intro e he
    have hmem : (e.1, e.2.responseBodySize) ∈ rowsInOrder disk.rows :=
      mem_rowsInOrder.mpr ⟨e.2, SortedMap.find?_eq_some_iff.mpr he, rfl⟩
    have hitem : (e.1, e.2.responseBodySize.toNat) ∈ itemsOf (rowsInOrder disk.rows) :=
      List.mem_map_of_mem hmem
    rw [UInt64.le_iff_toNat_le]
    exact (SizedQueue.le_size_of_mem hitem).trans hsizes
  have hnone := ht.noOrphans hle hq
  exact ⟨hnone.listed, hnone.deleted, hnone.total_le⟩

/-! ## Every way of failing -/

/-- Where a row has to go, its deletion may fail. -/
theorem exists_opens_not_noOrphans (maxSize : UInt64) (hdir : cacheRootDir ≠ "")
    (hlarge : maxSize.toNat < rowSizes disk.rows) :
    ∃ faults t, Opens cacheRootDir maxSize { disk with faults := faults } t ∧
      ¬NoOrphans disk t := by
  obtain ⟨database, _, t, ⟨hinit, hunread⟩, hrun⟩ := may_initializeCache hdir disk maxSize
  refine ⟨{ database := database }, cacheUnder t [], ⟨?_, hinit⟩, fun hnone => ?_⟩
  · have hrun := hrun []
    rw [List.append_nil] at hrun
    exact hrun
  · have hrows : t.disk.rows = disk.rows := congrArg Disk.rows hunread.disk_eq
    have hmax : t.lruCacheStrategy.maxSize = maxSize := hunread.maxSize_eq
    have hle : rowSizes t.disk.rows ≤ t.lruCacheStrategy.maxSize.toNat := hnone.total_le
    rw [hrows, hmax] at hle
    omega

/-- After an initialization, whatever failed on the way, there are no orphans only if no row is
larger than the capacity, and this is enough where nothing fails. To be sure of it whatever fails,
it takes a capacity that holds all the rows: then none of them has to go. -/
theorem noOrphans_iff (hdir : cacheRootDir ≠ "") (hfits : rowSizes disk.rows < 2 ^ 64) :
    (∀ faults t, Opens cacheRootDir maxSize { disk with faults := faults } t →
      NoOrphans disk t → ∀ e ∈ disk.rows.entries, e.2.responseBodySize ≤ maxSize) ∧
    (∃ t, Opens cacheRootDir maxSize { disk with faults := {} } t ∧
      (NoOrphans disk t ↔ ∀ e ∈ disk.rows.entries, e.2.responseBodySize ≤ maxSize)) ∧
    ((∀ faults t, Opens cacheRootDir maxSize { disk with faults := faults } t →
      NoOrphans disk t) ↔ rowSizes disk.rows ≤ maxSize.toNat) := by
  have hle : ∀ faults t, Opens cacheRootDir maxSize { disk with faults := faults } t →
      NoOrphans disk t → ∀ e ∈ disk.rows.entries, e.2.responseBodySize ≤ maxSize := by
    intro faults t hopens hnone
    have hnone' := (noOrphans_withFaults faults).mpr hnone
    exact hnone'.le_maxSize hopens hfits
  refine ⟨hle, ?_, fun hall => ?_, fun hroom faults t hopens => ?_⟩
  · obtain ⟨t, hopens, hnone⟩ :=
      @exists_opens { disk with faults := {} } cacheRootDir maxSize hdir rfl hfits
    exact ⟨t, hopens, hle {} t hopens, fun hsizes => (noOrphans_withFaults _).mp (hnone hsizes)⟩
  · by_contra hlarge
    obtain ⟨faults, t, hopens, hnot⟩ :=
      exists_opens_not_noOrphans maxSize hdir (Nat.lt_of_not_le hlarge)
    exact hnot (hall faults t hopens)
  · have hroom' : rowSizes ({ disk with faults := faults } : Disk).rows ≤ maxSize.toNat := hroom
    exact (noOrphans_withFaults faults).mp
      (wp_ok (wp_initializeCache_room cacheRootDir hroom') hopens.1 hopens.2)

/-! ## Two disks -/

/-- A row of a body of some size, last read at some time. -/
def rowOf (responseBodySize : UInt64) (lastAccessedAtEpoch : Int64) : Row where
  url := "http://host/"
  httpMethod := .get
  statusCode := 200
  statusMessage := "OK"
  responseHeaderJson := "{}"
  responseBodySize := responseBodySize
  sentRequestAtEpoch := 0
  receivedResponseAtEpoch := 0
  lastAccessedAtEpoch := lastAccessedAtEpoch

/-- Rows with their bodies. -/
def diskOf (rows : List (String × Row)) : Disk where
  files := SortedMap.ofList (rows.map fun e => (makeCachedFilename "/cache" e.1, "body"))
  rows := SortedMap.ofList rows
  nowAtEpoch := 0
  faults := {}

/-- A row of 11 bytes, from a time when the capacity was larger. -/
def largeRow : Disk := diskOf [("a", rowOf 11 1), ("b", rowOf 4 2)]

/-- The row stays, and is not listed. -/
theorem orphan_of_largeRow : ∃ t, Opens "/cache" 10 largeRow t ∧ ¬NoOrphans largeRow t := by
  have hopens : Opens "/cache" 10 largeRow
      (exec initializeCache (construct "/cache" 10 largeRow)).2 :=
    ⟨Prod.ext (by decide +kernel) rfl, by decide +kernel⟩
  refine ⟨_, hopens, fun h => ?_⟩
  have hrow : ((exec initializeCache (construct "/cache" 10 largeRow)).2.disk.row "a").isSome =
      true := by decide +kernel
  have hentry : (exec initializeCache (construct "/cache" 10 largeRow)).2.entry "a" = none := by
    decide +kernel
  have hlisted := h.listed "a" hrow
  rw [hentry] at hlisted
  cases hlisted

/-- Two rows, for both of which there is no room. -/
def twoRows : Disk := diskOf [("a", rowOf 7 1), ("b", rowOf 4 2)]

/-- The older of two rows leaves with its body, unless its deletion fails. -/
theorem noOrphans_evicted : (∃ t, Opens "/cache" 10 twoRows t ∧ NoOrphans twoRows t) ∧
    ∃ faults t, Opens "/cache" 10 { twoRows with faults := faults } t ∧
      ¬NoOrphans twoRows t := by
  have hfits : ∀ e ∈ twoRows.rows.entries, e.2.responseBodySize ≤ 10 := by decide +kernel
  have hlarge : ¬rowSizes twoRows.rows ≤ (10 : UInt64).toNat := by decide +kernel
  obtain ⟨-, ⟨t, hopens, hiff⟩, hall⟩ := @noOrphans_iff twoRows "/cache" 10 (by decide)
    (by decide +kernel)
  refine ⟨⟨t, hopens, hiff.mpr hfits⟩, ?_⟩
  by_contra hnot
  push Not at hnot
  exact hlarge (hall.mp hnot)

end EasyHttp.HttpFileCache
